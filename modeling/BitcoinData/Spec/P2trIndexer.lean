import Mathlib.Data.Finmap
import Mathlib.Data.Finset.Insert
import BitcoinData.Spec.Index

/-! `p2tr_indexer.rs`: UID assignment, spend resolution and block assembly.
Hash maps are finite maps, hash sets finite sets. The loops of
`apply_block_with_stats` are folds over an explicit accumulator; on an error the
caller drops the state, so an error carries none. -/

namespace BitcoinData

open Lib

structure OutPointKey where
  txid : TxidBytes
  vout : UInt32
deriving DecidableEq

def OutPointKey.isCoinbase (self : OutPointKey) : Bool :=
  self.vout = 4294967295 && self.txid = FixedBytes.fill 32 0

structure SpendLookup where
  uid : UInt64
  creationHeight : ℕ
  outputIndex : UInt32
  flags : UInt8
deriving DecidableEq

abbrev SpendMap := Finmap fun _ : OutPointKey => SpendLookup

structure ScopedUtxoEntry where
  outpoint : OutPointKey
  uid : UInt64
  createdHeight : ℕ
  createdBlockHash : BlockHashBytes
  txIndex : UInt16
  /-- Dense index in the stored output list of the creation block. -/
  outputIndex : UInt32
  valueSat : UInt64
  scriptPubkey : Bytes
  p2trXonlyKey : XOnlyKey
deriving DecidableEq

structure CreatedScopedUtxo where
  entry : ScopedUtxoEntry
  isNums : Bool
  isReused : Bool
  reuseCountAtCreation : UInt64
deriving DecidableEq

structure SpentScopedUtxo where
  outpoint : OutPointKey
  uid : UInt64
  creationHeight : ℕ
  outputIndex : UInt32
  flags : UInt8
  spentHeight : ℕ
  spentBlockHash : BlockHashBytes
  spendTxIndex : UInt16
deriving DecidableEq

structure TxInputScan where
  previousOutput : OutPointKey
  scriptSig : Bytes
  witness : List Bytes
deriving DecidableEq

structure TxOutputScan where
  vout : UInt32
  valueSat : UInt64
  scriptPubkey : Bytes
  p2trXonlyKey : Option XOnlyKey
  isP2tr : Bool
  isNums : Bool
deriving DecidableEq

structure TxScanInput where
  txid : TxidBytes
  txIndex : UInt16
  inputs : List TxInputScan
  outputs : List TxOutputScan
  silentPaymentTweak : Option TxTweak
deriving DecidableEq

structure BlockScanInput where
  height : ℕ
  blockHash : BlockHashBytes
  previousBlockHash : BlockHashBytes
  rawBlockBytes : UInt32
  txs : List TxScanInput
deriving DecidableEq

structure BlockScopeStats where
  txCount : UInt16
  outputCountTotal : ℕ
  p2trOutputCount : ℕ
  p2trCount : ℕ
  p2trNumsCount : ℕ
  p2trReusedCount : ℕ
  p2trExcludedByScopeCount : ℕ
  indexedOutputCount : ℕ
  indexedSpentCount : ℕ
  txWithP2trOutputCount : ℕ
  txWithIndexedOutputCount : ℕ
  tweakCount : ℕ
deriving DecidableEq

structure AppliedBlock where
  lightBlock : LightBlockInput
  storageBlock : StoredLightBlockInput
  stats : BlockScopeStats
  createdUtxos : List CreatedScopedUtxo
  spentUtxos : List SpentScopedUtxo
deriving DecidableEq

structure P2trIndexerState where
  nextUid : UInt64
  outpointToSpend : SpendMap
  liveUidCount : ℕ
  seenP2trKeys : Option (Finset XOnlyKey)

namespace P2trIndexerState

def new : P2trIndexerState := ⟨0, ∅, 0, some ∅⟩

def restoreAtUid (lastUid : UInt64) : P2trIndexerState := ⟨lastUid, ∅, 0, none⟩

def containsOutpoint (self : P2trIndexerState) (outpoint : OutPointKey) : Bool :=
  (self.outpointToSpend.lookup outpoint).isSome

/-- Cache historical spend candidates for one chunk; the outpoints that were new
are returned for eviction. -/
def cacheSpendUidCandidates (self : P2trIndexerState) (candidates : List (OutPointKey × SpendLookup)) :
    P2trIndexerState × List OutPointKey :=
  candidates.foldl (fun (acc : P2trIndexerState × List OutPointKey) (candidate) =>
    let (state, cached) := acc
    let (outpoint, spend) := candidate
    match state.outpointToSpend.lookup outpoint with
    | some _ => acc
    | none => ({ state with outpointToSpend := state.outpointToSpend.insert outpoint spend },
        cached ++ [outpoint])) (self, [])

def evictSpendUidCandidates (self : P2trIndexerState) (cachedOutpoints : List OutPointKey) :
    P2trIndexerState :=
  cachedOutpoints.foldl (fun state outpoint =>
    { state with outpointToSpend := state.outpointToSpend.erase outpoint }) self

def lastUid (self : P2trIndexerState) : UInt64 := self.nextUid

end P2trIndexerState

def p2trOutputIdentity (output : TxOutputScan) (height : ℕ) (txIndex : UInt16) :
    Except String XOnlyKey :=
  okOr output.p2trXonlyKey
    s!"P2TR output at height {height} tx_index {txIndex} vout {output.vout} is missing x-only key"

/-- The local variables of `apply_block_with_stats`, with `self`. -/
structure ApplyAcc where
  self : P2trIndexerState
  storageOutputEntries : List StoredOutputEntryInput
  storageSpends : List StoredSpendEntryInput
  skippedTxsForTweaks : Bytes
  storageTxTweaks : List TweakEntryInput
  storageSkippedOutputs : List UInt16
  stats : BlockScopeStats
  createdUtxos : List CreatedScopedUtxo
  spentUtxos : List SpentScopedUtxo
  /-- Per transaction. -/
  txHasP2trOutput : Bool
  txIndexedOutputCount : UInt16

def ApplyAcc.init (self : P2trIndexerState) (txCount : UInt16) : ApplyAcc :=
  { self
    storageOutputEntries := []
    storageSpends := []
    skippedTxsForTweaks := emptySkippedTxsForTweaksBitmap txCount
    storageTxTweaks := []
    storageSkippedOutputs := []
    stats := ⟨txCount, 0, 0, 0, 0, 0, 0, 0, 0, 0, 0, 0⟩
    createdUtxos := []
    spentUtxos := []
    txHasP2trOutput := false
    txIndexedOutputCount := 0 }

def applyInput (block : BlockScanInput) (tx : TxScanInput) (acc : ApplyAcc) (input : TxInputScan) :
    Except String ApplyAcc :=
  match acc.self.outpointToSpend.lookup input.previousOutput with
  | none => .ok acc
  | some spendRef => do
    let creationHeight ← tryU32 spendRef.creationHeight
    return { acc with
      self := { acc.self with
        outpointToSpend := acc.self.outpointToSpend.erase input.previousOutput
        liveUidCount := acc.self.liveUidCount - 1 }
      storageSpends := acc.storageSpends ++ [{ spentUid := spendRef.uid, creationHeight }]
      spentUtxos := acc.spentUtxos ++ [{
        outpoint := input.previousOutput
        uid := spendRef.uid
        creationHeight := spendRef.creationHeight
        outputIndex := spendRef.outputIndex
        flags := spendRef.flags
        spentHeight := block.height
        spentBlockHash := block.blockHash
        spendTxIndex := tx.txIndex }]
      stats := { acc.stats with indexedSpentCount := acc.stats.indexedSpentCount + 1 } }

/-- The part of the output loop that every native P2TR output runs: it takes a
slot, and its key is looked up among the seen ones. -/
def takeP2trSlot (output : TxOutputScan) (key : XOnlyKey) (acc : ApplyAcc) : ApplyAcc × Bool :=
  let isReusedOutput := match acc.self.seenP2trKeys with
    | some seen => decide (key ∈ seen)
    | none => false
  ({ acc with
    self := { acc.self with seenP2trKeys := acc.self.seenP2trKeys.map (insert key) }
    txHasP2trOutput := true
    stats := { acc.stats with
      p2trOutputCount := acc.stats.p2trOutputCount + 1
      p2trNumsCount := acc.stats.p2trNumsCount + (if output.isNums then 1 else 0)
      p2trCount := acc.stats.p2trCount + 1
      p2trReusedCount := acc.stats.p2trReusedCount + (if isReusedOutput then 1 else 0) } },
    isReusedOutput)

/-- A native P2TR output that is stored. -/
def storeOutput (block : BlockScanInput) (blockFirstUid : UInt64) (tx : TxScanInput)
    (output : TxOutputScan) (key : XOnlyKey) (slot : ℕ) (isReusedOutput : Bool) (acc : ApplyAcc) :
    Except String ApplyAcc := do
  let txIndexedOutputCount ←
    okOr (checkedAdd16 acc.txIndexedOutputCount 1) "tx indexed output count exceeds u16"
  let uid ← okOr (checkedAdd64 blockFirstUid (UInt64.ofNat slot)) "scoped UID overflow"
  let outpoint : OutPointKey := { txid := tx.txid, vout := output.vout }
  let flags := if isReusedOutput then STORAGE_OUTPUT_FLAG_REUSED else 0
  let outputIndex ← tryU32 acc.storageOutputEntries.length
  return { acc with
    self := { acc.self with
      outpointToSpend := acc.self.outpointToSpend.insert outpoint
        { uid, creationHeight := block.height, outputIndex, flags }
      liveUidCount := acc.self.liveUidCount + 1 }
    createdUtxos := acc.createdUtxos ++ [{
      entry := {
        outpoint
        uid
        createdHeight := block.height
        createdBlockHash := block.blockHash
        txIndex := tx.txIndex
        outputIndex
        valueSat := output.valueSat
        scriptPubkey := output.scriptPubkey
        p2trXonlyKey := key }
      isNums := output.isNums
      isReused := isReusedOutput
      reuseCountAtCreation := 0 }]
    storageOutputEntries := acc.storageOutputEntries ++
      [{ key, spentHeight := STORAGE_SPENT_HEIGHT_UNSPENT, flags }]
    txIndexedOutputCount
    stats := { acc.stats with indexedOutputCount := acc.stats.indexedOutputCount + 1 } }

/-- Every native P2TR output consumes a UID slot; one without a usable tweak, and
one flagged NUMS, stays out of the dense output list. -/
def applyOutput (block : BlockScanInput) (blockFirstUid : UInt64) (tx : TxScanInput)
    (acc : ApplyAcc) (output : TxOutputScan) : Except String ApplyAcc :=
  let acc := { acc with
    stats := { acc.stats with outputCountTotal := acc.stats.outputCountTotal + 1 } }
  if !output.isP2tr then .ok acc
  else do
    let slot := acc.stats.p2trOutputCount
    let slotU16 ← tryU16 slot
    let key ← p2trOutputIdentity output block.height tx.txIndex
    let (acc, isReusedOutput) := takeP2trSlot output key acc
    if output.isNums || tx.silentPaymentTweak.isNone then
      return { acc with
        storageSkippedOutputs := acc.storageSkippedOutputs ++ [slotU16]
        stats := { acc.stats with
          p2trExcludedByScopeCount := acc.stats.p2trExcludedByScopeCount + 1 } }
    else
      storeOutput block blockFirstUid tx output key slot isReusedOutput acc

/-- The end of a transaction: its tweak entry, or its bit in the skipped bitmap. -/
def finishTx (txCount : UInt16) (tx : TxScanInput) (acc : ApplyAcc) : Except String ApplyAcc :=
  let acc := if acc.txHasP2trOutput then
      { acc with stats := { acc.stats with
        txWithP2trOutputCount := acc.stats.txWithP2trOutputCount + 1 } }
    else acc
  if acc.txIndexedOutputCount > 0 then
    let acc := { acc with stats := { acc.stats with
      txWithIndexedOutputCount := acc.stats.txWithIndexedOutputCount + 1 } }
    match tx.silentPaymentTweak with
    | some tweak =>
      .ok { acc with
        storageTxTweaks := acc.storageTxTweaks ++
          [{ outputCount := acc.txIndexedOutputCount, tweak }]
        stats := { acc.stats with tweakCount := acc.stats.tweakCount + 1 } }
    | none => .ok acc
  else do
    let bitmap ← setSkippedTxInBitmap txCount acc.skippedTxsForTweaks tx.txIndex
    return { acc with skippedTxsForTweaks := bitmap }

/-- Inputs are processed before outputs within each transaction. -/
def applyTx (block : BlockScanInput) (blockFirstUid : UInt64) (txCount : UInt16) (acc : ApplyAcc)
    (tx : TxScanInput) : Except String ApplyAcc := do
  let acc := { acc with txHasP2trOutput := false, txIndexedOutputCount := 0 }
  let acc ← tx.inputs.foldlM (applyInput block tx) acc
  let acc ← tx.outputs.foldlM (applyOutput block blockFirstUid tx) acc
  finishTx txCount tx acc

/-- `next_uid` after a block with `p2trOutputCount` native P2TR outputs. -/
def advanceNextUid (nextUid blockFirstUid : UInt64) (p2trOutputCount : ℕ) : Except String UInt64 :=
  if p2trOutputCount > 0 then
    okOr ((checkedAdd64 blockFirstUid (UInt64.ofNat p2trOutputCount)).bind (checkedSub64 · 1))
      "scoped UID overflow"
  else .ok nextUid

section
variable [Externals]

def storageBlockOf (block : BlockScanInput) (blockFirstUid : UInt64) (txCount : UInt16)
    (acc : ApplyAcc) : StoredLightBlockInput :=
  { height := block.height
    blockHash := block.blockHash
    previousBlockHash := block.previousBlockHash
    firstUid := blockFirstUid
    txCount
    skippedTxsForTweaks := acc.skippedTxsForTweaks
    tweaks := acc.storageTxTweaks
    skippedOutputs := acc.storageSkippedOutputs
    outputs := acc.storageOutputEntries
    spends := acc.storageSpends
    rawBlockBytes := block.rawBlockBytes
    truncatedOutputHashForTwoLabels := buildStoredTruncatedOutputHashes block.rawBlockBytes
      acc.storageOutputEntries RESPONSE_LABEL_BUDGET_TWO
    truncatedOutputHashForHundredLabels := buildStoredTruncatedOutputHashes block.rawBlockBytes
      acc.storageOutputEntries RESPONSE_LABEL_BUDGET_HUNDRED }

namespace P2trIndexerState

def applyBlockWithStats (self : P2trIndexerState) (block : BlockScanInput) :
    Except String (P2trIndexerState × AppliedBlock) := do
  let blockFirstUid := saturatingAdd64 self.nextUid 1
  let txCount ← tryU16 block.txs.length
  let acc ← block.txs.foldlM (applyTx block blockFirstUid txCount) (ApplyAcc.init self txCount)
  let nextUid ← advanceNextUid acc.self.nextUid blockFirstUid acc.stats.p2trOutputCount
  let storageBlock := storageBlockOf block blockFirstUid txCount acc
  let lightBlock ← storageBlock.toResponseInputForLabels none
  return ({ acc.self with nextUid }, {
    lightBlock
    storageBlock
    stats := acc.stats
    createdUtxos := acc.createdUtxos
    spentUtxos := acc.spentUtxos })

def applyBlocks : P2trIndexerState → List BlockScanInput →
    Except String (P2trIndexerState × List AppliedBlock)
  | self, [] => .ok (self, [])
  | self, block :: blocks => do
    let (self, applied) ← self.applyBlockWithStats block
    let (self, rest) ← applyBlocks self blocks
    return (self, applied :: rest)

end P2trIndexerState

end

end BitcoinData
