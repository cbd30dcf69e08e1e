import BitcoinData.Spec.Archive
import BitcoinData.Spec.LightIndexer
import BitcoinData.Spec.Slots

/-! The chain that an honest source serves, and the plain sequential indexer that the
windowed one is compared with: one state in memory, blocks applied one by one, then
the spent height of every spent output set. -/

namespace BitcoinData

/-! ## Chains -/

inductive ChainEvent
  | spend (outpoint : OutPointKey)
  | create (outpoint : OutPointKey)
deriving DecidableEq

/-- Inputs before outputs, as they take effect. -/
def TxScanInput.events (tx : TxScanInput) : List ChainEvent :=
  tx.inputs.map (fun input => .spend input.previousOutput) ++
    tx.outputs.map fun output => .create { txid := tx.txid, vout := output.vout }

def chainEvents (blocks : List BlockScanInput) : List ChainEvent :=
  blocks.flatMap fun block => block.txs.flatMap TxScanInput.events

def createdOutpoints (blocks : List BlockScanInput) : List OutPointKey :=
  blocks.flatMap fun block => block.txs.flatMap fun tx =>
    tx.outputs.map fun output => { txid := tx.txid, vout := output.vout }

/-- Blocks of consecutive heights from the start height on, in which each outpoint is
created at most once and spent at most once after its creation. The outpoint that
marks a coinbase input is no output of any transaction. -/
structure ValidChain (emitStartHeight : ℕ) (chain : List BlockScanInput) : Prop where
  heights : chain.map (·.height) = List.range' emitStartHeight chain.length
  createdOnce : (createdOutpoints chain).Nodup
  spentOnce : ∀ before outpoint after,
    chainEvents chain = before ++ ChainEvent.create outpoint :: after →
    after.count (ChainEvent.spend outpoint) ≤ 1
  notNull : ∀ outpoint ∈ createdOutpoints chain, outpoint.isCoinbase = false

/-- Every answer of the source is a piece of the chain. -/
def HonestFetch (chain : List BlockScanInput) (fetch : FetchChunk) : Prop :=
  ∀ start count chunk, fetch start count = .ok chunk → chunk.blocks <:+: chain

/-- A run over one chain: starts, crashes and effects at will, windows of any tuning. -/
def OnChain (chain : List BlockScanInput) (acts : List Action) : Prop :=
  ∀ tuning bestHeight fetch, Action.catchUp tuning bestHeight fetch ∈ acts → HonestFetch chain fetch

/-! ## The sequential indexer -/

/-- Every spend of a list of applied blocks: creation height, output index and the
height of the spending block. -/
def allSpends (applied : List AppliedBlock) : List (ℕ × UInt32 × ℕ) :=
  applied.flatMap fun a => a.spentUtxos.map fun spent =>
    (spent.creationHeight, spent.outputIndex, spent.spentHeight)

def spentHeightOf (applied : List AppliedBlock) (height i : ℕ) : UInt32 :=
  match (allSpends applied).find? fun s => s.1 = height ∧ s.2.1.toNat = i with
  | some s => UInt32.ofNat s.2.2
  | none => STORAGE_SPENT_HEIGHT_UNSPENT

/-- A stored block with the spent heights that all of `applied` give it. -/
def AppliedBlock.reference (a : AppliedBlock) (applied : List AppliedBlock) :
    StoredLightBlockInput :=
  { a.storageBlock with outputs := a.storageBlock.outputs.mapIdx fun i output =>
      { output with spentHeight := spentHeightOf applied a.storageBlock.height i } }

/-! ## Key reuse -/

/-- The keys of the native P2TR outputs before slot `slot` of block `k`. -/
def earlierKeys (blocks : List BlockScanInput) (k slot : ℕ) : List XOnlyKey :=
  slotKeys ((blocks.take k).flatMap BlockScanInput.p2trSlots ++
    ((blocks[k]?.map BlockScanInput.p2trSlots).getD []).take slot)

/-- No output that the archive stores has the key of an earlier native P2TR output. -/
def NoKeyReuse (blocks : List BlockScanInput) : Prop :=
  ∀ (k : ℕ) (block : BlockScanInput), blocks[k]? = some block →
    ∀ p ∈ keptSlots block.p2trSlots, ∀ key, p.1.output.p2trXonlyKey = some key →
      key ∉ earlierKeys blocks k p.2

section
variable [Externals]

/-- The stored flags are those of an indexer that tracks every key from the first block
on, and the reuse filter goes by them. -/
structure ReuseFlagged (emitStartHeight : ℕ) (blocks : List BlockScanInput)
    (archive : FileArchive) : Prop where
  flags : ∀ k block i output, k < blocks.length → archive.Stored (emitStartHeight + k) block →
    block.outputs[i]? = some output →
    (output.flags &&& STORAGE_OUTPUT_FLAG_REUSED ≠ 0 ↔
      output.key ∈ earlierKeys blocks k (block.storedSlots.getD i 0))
  live : ∀ state applied, P2trIndexerState.new.applyBlocks blocks = .ok (state, applied) →
    ∀ (k : ℕ) (a : AppliedBlock) block, applied[k]? = some a →
      archive.Stored (emitStartHeight + k) block →
      block.outputs.map (·.flags) = a.storageBlock.outputs.map (·.flags)
  filtered : ∀ k block i output labels, k < blocks.length →
    archive.Stored (emitStartHeight + k) block → block.outputs[i]? = some output →
    (shouldOmitStoredOutput block.height output ⟨none, none, true, labels⟩ = true ↔
      output.key ∈ earlierKeys blocks k (block.storedSlots.getD i 0))

/-- The sequential indexer over `blocks`, from UID 0. -/
def sequential (blocks : List BlockScanInput) : Except String (P2trIndexerState × List AppliedBlock) :=
  (P2trIndexerState.restoreAtUid 0).applyBlocks blocks

/-- The archive holds, from `emitStartHeight` on, what the sequential indexer produces
from `blocks`; spent heights above the last of them do not count. -/
structure Produced (emitStartHeight : ℕ) (blocks : List BlockScanInput) (archive : FileArchive)
    (state : P2trIndexerState) (applied : List AppliedBlock) : Prop where
  sequential : sequential blocks = .ok (state, applied)
  files : ∀ (k : ℕ) (a : AppliedBlock), applied[k]? = some a →
    ∃ block, archive.Stored (emitStartHeight + k) block ∧
      block.clearAbove (emitStartHeight + blocks.length - 1) = (a.reference applied).normalised

end

end BitcoinData
