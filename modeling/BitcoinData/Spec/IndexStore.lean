import BitcoinData.Spec.P2trIndexer

/-! `index_store.rs`: the indexer's RocksDB working state. The key prefixes keep
metadata, outpoint rows and seen-key counts apart, so each is a column of its own;
the three tip keys are always written together. -/

namespace BitcoinData

open Lib

structure IndexTip where
  height : ℕ
  blockHash : BlockHashBytes
  lastUid : UInt64
deriving DecidableEq

structure RocksIndexStore where
  network : Option String
  startHeight : Option ℕ
  tip : Option IndexTip
  /-- `outpoint_key(..)` rows. -/
  outpoints : SpendMap
  /-- `seen_key(..)` counts. -/
  seen : Finmap fun _ : XOnlyKey => UInt64

namespace RocksIndexStore

def empty : RocksIndexStore := ⟨none, none, none, ∅, ∅⟩

/-- A metadata value is written once and compared from then on. -/
def ensureMetaValue {α : Type} [DecidableEq α] (existing : Option α) (value : α) (key : String) :
    Except String (Option α) :=
  match existing with
  | some v => do
    ensure (v = value) s!"index metadata mismatch for {key}"
    return existing
  | none => .ok (some value)

def ensureMeta (self : RocksIndexStore) (network : String) (startHeight : ℕ) :
    Except String RocksIndexStore := do
  let network ← ensureMetaValue self.network network "m:network"
  let startHeight ← ensureMetaValue self.startHeight startHeight "m:start_height"
  return { self with network, startHeight }

def previousTipHash (self : RocksIndexStore) : Option BlockHashBytes := self.tip.map (·.blockHash)

def lookupOutpointUids (self : RocksIndexStore) (outpoints : List OutPointKey) :
    List (OutPointKey × SpendLookup) :=
  outpoints.filterMap fun outpoint =>
    (self.outpoints.lookup outpoint).map fun spend => (outpoint, spend)

def createdLookup (created : CreatedScopedUtxo) : SpendLookup :=
  { uid := created.entry.uid
    creationHeight := created.entry.createdHeight
    outputIndex := created.entry.outputIndex
    flags := if created.isReused then STORAGE_OUTPUT_FLAG_REUSED else 0 }

/-- One created output in the write batch. The count is read from the database,
not from the batch. -/
def batchCreated (db batch : RocksIndexStore) (created : CreatedScopedUtxo) : RocksIndexStore :=
  let key := created.entry.p2trXonlyKey
  let nextCount := saturatingAdd64 ((db.seen.lookup key).getD 0) 1
  { batch with
    outpoints := batch.outpoints.insert created.entry.outpoint (createdLookup created)
    seen := batch.seen.insert key nextCount }

def batchSpent (batch : RocksIndexStore) (spent : SpentScopedUtxo) : RocksIndexStore :=
  { batch with outpoints := batch.outpoints.erase spent.outpoint }

def batchBlock (db batch : RocksIndexStore) (block : AppliedBlock) : RocksIndexStore :=
  block.spentUtxos.foldl batchSpent (block.createdUtxos.foldl (batchCreated db) batch)

/-- One atomic write: the rows of all blocks in order, then the tip. -/
def commitAppliedBlocks (self : RocksIndexStore) (blocks : List AppliedBlock) (tipHeight : ℕ)
    (tipHash : BlockHashBytes) (lastUid : UInt64) : RocksIndexStore :=
  { blocks.foldl (batchBlock self) self with
    tip := some { height := tipHeight, blockHash := tipHash, lastUid } }

end RocksIndexStore

end BitcoinData
