import Mathlib.Data.List.Sort
import Mathlib.Data.List.FinRange
import BitcoinData.Lib.Result
import BitcoinData.Spec.Stats.Script
import BitcoinData.Spec.Stats.Transaction

/-! `stats/block.rs`: the totals of a run, the accumulator of one block and the row it
is frozen into, and what the sorted spent IDs would cost under several codecs.
Counters are natural numbers; `assert_ne!` and `expect` are errors, and so is a sum of heights or IDs
that is no `u64`, as in a build with overflow checks. -/

namespace BitcoinData.Stats

open Lib

inductive SpendContext
  | sameTx
  | sameBlock
  | earlier
deriving DecidableEq

structure RiceChoice where
  k : ℕ
  bits : ℕ
deriving DecidableEq

def RICE_K_COUNT : ℕ := 33
def ESCAPED_RICE_THRESHOLDS : List ℕ := [128, 2048, 16384, 65536]
def ESCAPED_RICE_THRESHOLD_COUNT : ℕ := 4
def ESCAPED_RICE_K_COUNT : ℕ := 17
def PER_BLOCK_RICE_K_OVERHEAD_BITS : ℕ := 5
def U128_MAX : ℕ := 2 ^ 128 - 1

def checkedAddU64 (a b : ℕ) : Except String ℕ :=
  if a + b ≤ U64_MAX then .ok (a + b) else .error "attempt to add with overflow"

/-! ## Code lengths -/

/-- The loop of `leb128_len_u64`; a `u64` has at most ten groups of seven bits. -/
def leb128Loop : ℕ → ℕ → ℕ → ℕ
  | 0, _, bytes => bytes
  | fuel + 1, value, bytes => if value ≥ 0x80 then leb128Loop fuel (value >>> 7) (bytes + 1) else bytes

def leb128LenU64 (value : ℕ) : ℕ := leb128Loop 10 value 1

def riceBits (value k : ℕ) : Except String ℕ := do
  checkedAddU64 (← checkedAddU64 (value >>> k) 1) k

def eliasDeltaBits (value : ℕ) : ℕ := value.size + 2 * value.size.size - 1

def eliasFanoBits (universeSize n : ℕ) : ℕ :=
  if n = 0 then 0
  else
    let lowerBits := if universeSize ≤ n then 0 else (universeSize / n).log2
    n * lowerBits + (n + (universeSize >>> lowerBits) + 1)

/-! ## Histogram -/

structure Log2Hist where
  zeros : ℕ
  buckets : Fin 64 → ℕ
  sum : ℕ
  max : ℕ
deriving DecidableEq

def Log2Hist.default : Log2Hist := ⟨0, fun _ => 0, 0, 0⟩

def Log2Hist.record (self : Log2Hist) (v : ℕ) : Log2Hist :=
  let self := { self with sum := self.sum + v, max := if v > self.max then v else self.max }
  if v = 0 then { self with zeros := self.zeros + 1 }
  else { self with buckets := fun k => self.buckets k + if k.val = v.log2 then 1 else 0 }

/-! ## Codec estimates -/

structure CodecValueCosts where
  leb128Bytes : ℕ
  eliasDeltaBits : ℕ
  riceBitsByK : List ℕ
  escapedRiceBits : List (List ℕ)

def CodecValueCosts.new (value : ℕ) (zeroable : Bool) : Except String CodecValueCosts := do
  let leb128Bytes := leb128LenU64 value
  let eliasValue := if zeroable then min (value + 1) U64_MAX else value
  let riceBitsByK ← (List.range RICE_K_COUNT).mapM (riceBits value)
  let escapedRiceBits ← ESCAPED_RICE_THRESHOLDS.mapM fun threshold =>
    (List.range ESCAPED_RICE_K_COUNT).mapM fun k =>
      if value < threshold then do return 1 + (← riceBits value k)
      else return 1 + 8 * leb128Bytes
  return {
    leb128Bytes
    eliasDeltaBits := Stats.eliasDeltaBits eliasValue
    riceBitsByK
    escapedRiceBits }

structure CodecEstimate where
  values : ℕ
  leb128Bytes : ℕ
  eliasDeltaBits : ℕ
  riceBitsByK : Fin RICE_K_COUNT → ℕ
  escapedRiceBits : Fin ESCAPED_RICE_THRESHOLD_COUNT → Fin ESCAPED_RICE_K_COUNT → ℕ
  hist : Log2Hist
deriving DecidableEq

namespace CodecEstimate

def default : CodecEstimate := ⟨0, 0, 0, fun _ => 0, fun _ _ => 0, Log2Hist.default⟩

def addCostsNoHist (self : CodecEstimate) (costs : CodecValueCosts) : CodecEstimate :=
  { self with
    values := self.values + 1
    leb128Bytes := self.leb128Bytes + costs.leb128Bytes
    eliasDeltaBits := self.eliasDeltaBits + costs.eliasDeltaBits
    riceBitsByK := fun k => self.riceBitsByK k + costs.riceBitsByK.getD k 0
    escapedRiceBits := fun threshold k =>
      self.escapedRiceBits threshold k + (costs.escapedRiceBits.getD threshold []).getD k 0 }

def addCosts (self : CodecEstimate) (value : ℕ) (costs : CodecValueCosts) : CodecEstimate :=
  let self := self.addCostsNoHist costs
  { self with hist := self.hist.record value }

def bestRice (self : CodecEstimate) : RiceChoice :=
  let best := (List.finRange RICE_K_COUNT).foldl (fun (best : RiceChoice) k =>
    if self.riceBitsByK k < best.bits then ⟨k, self.riceBitsByK k⟩ else best) ⟨0, U128_MAX⟩
  if self.values = 0 then ⟨0, 0⟩ else best

end CodecEstimate

structure SortedUidCodecStats where
  blocksWithSpends : ℕ
  efBitsWith64bitBase : ℕ
  deltaPerBlockRiceBestBitsWithKOverhead : ℕ
  combinedPerBlockRiceBestBitsWithKOverhead : ℕ
  firstOffsets : CodecEstimate
  deltas : CodecEstimate
  combined : CodecEstimate
deriving DecidableEq

def SortedUidCodecStats.default : SortedUidCodecStats := ⟨0, 0, 0, 0, .default, .default, .default⟩

structure SortedUidBlockEstimate where
  values : ℕ
  leb128Bytes : ℕ
  riceBestK : ℕ
  riceBestBits : ℕ
  eliasDeltaBits : ℕ
  efBitsWith64bitBase : ℕ
deriving DecidableEq

def SortedUidBlockEstimate.default : SortedUidBlockEstimate := ⟨0, 0, 0, 0, 0, 0⟩

/-- The loop of `measure_sorted_uid_stream` over the IDs after the first. -/
structure MeasureLoop where
  prev : ℕ
  blockCombined : CodecEstimate
  blockDeltas : CodecEstimate
  stats : SortedUidCodecStats

def measureDelta (loop : MeasureLoop) (uid : ℕ) : Except String MeasureLoop := do
  let delta := uid - loop.prev
  let deltaCosts ← CodecValueCosts.new delta false
  return {
    prev := uid
    blockCombined := loop.blockCombined.addCostsNoHist deltaCosts
    blockDeltas := loop.blockDeltas.addCostsNoHist deltaCosts
    stats := { loop.stats with
      deltas := loop.stats.deltas.addCosts delta deltaCosts
      combined := loop.stats.combined.addCosts delta deltaCosts } }

/-- The loop before its first delta; the block already counts as one with spends. -/
def measureStart (firstUid blockAnchorLastUid : ℕ) (stats : SortedUidCodecStats) :
    Except String MeasureLoop := do
  let firstOffset := blockAnchorLastUid - firstUid
  let firstOffsetCosts ← CodecValueCosts.new firstOffset true
  return {
    prev := firstUid
    blockCombined := CodecEstimate.default.addCostsNoHist firstOffsetCosts
    blockDeltas := .default
    stats := { stats with
      blocksWithSpends := stats.blocksWithSpends + 1
      firstOffsets := stats.firstOffsets.addCosts firstOffset firstOffsetCosts
      combined := stats.combined.addCosts firstOffset firstOffsetCosts } }

def measureSortedUidStream (uids : List ℕ) (blockAnchorLastUid : ℕ) (stats : SortedUidCodecStats) :
    Except String (SortedUidBlockEstimate × SortedUidCodecStats) :=
  match uids.insertionSort (· ≤ ·) with
  | [] => .ok (.default, stats)
  | firstUid :: rest => do
    ensure (List.IsChain (· ≠ ·) (firstUid :: rest)) "duplicate spent UID in same sorted UID stream"
    ensure (firstUid ≤ blockAnchorLastUid) "spent UID exceeds block_anchor_last_uid"
    let loop ← rest.foldlM measureDelta (← measureStart firstUid blockAnchorLastUid stats)
    let stats := loop.stats
    let stats := if loop.blockDeltas.values > 0 then
      { stats with
        deltaPerBlockRiceBestBitsWithKOverhead := stats.deltaPerBlockRiceBestBitsWithKOverhead +
          (loop.blockDeltas.bestRice.bits + PER_BLOCK_RICE_K_OVERHEAD_BITS) }
      else stats
    let best := loop.blockCombined.bestRice
    let n := (firstUid :: rest).length
    let maxUid := (firstUid :: rest).getLastD 0
    let universeSize ← checkedAddU64 (maxUid - firstUid) 1
    let efBitsWith64bitBase := 64 + eliasFanoBits universeSize n
    return ({
      values := loop.blockCombined.values
      leb128Bytes := loop.blockCombined.leb128Bytes
      riceBestK := best.k
      riceBestBits := best.bits
      eliasDeltaBits := loop.blockCombined.eliasDeltaBits
      efBitsWith64bitBase }, { stats with
      combinedPerBlockRiceBestBitsWithKOverhead := stats.combinedPerBlockRiceBestBitsWithKOverhead +
        (best.bits + PER_BLOCK_RICE_K_OVERHEAD_BITS)
      efBitsWith64bitBase := stats.efBitsWith64bitBase + efBitsWith64bitBase })

/-! ## Totals of a run -/

/-- `Stats` of the source. -/
structure RunStats where
  spends : ℕ
  outputs : ℕ
  p2trOutputs : ℕ
  p2trReused : ℕ
  p2trSpends : ℕ
  p2trKeypathSpends : ℕ
  p2trScriptpathSpends : ℕ
  p2trNumsSpends : ℕ
  p2trSpEligibleSpends : ℕ
  p2trInscriptionSpends : ℕ
  p2trNumsAndInscriptionSpends : ℕ
  sameTxSpends : ℕ
  p2trSameTxSpends : ℕ
  sameBlockSpends : ℕ
  p2trSameBlockSpends : ℕ
  nonspTxs : ℕ
  nonspTxOutputs : ℕ
  scriptOutputs : TypeCounts
  scriptInputs : TypeCounts
  sortedSpentIds : SortedUidCodecStats
  sortedP2trSpentIds : SortedUidCodecStats
deriving DecidableEq

namespace RunStats

def new : RunStats :=
  ⟨0, 0, 0, 0, 0, 0, 0, 0, 0, 0, 0, 0, 0, 0, 0, 0, 0, .default, .default, .default, .default⟩

def recordSpend (self : RunStats) (ctx : SpendContext) : RunStats :=
  let self := { self with spends := self.spends + 1 }
  match ctx with
  | .sameTx => { self with sameTxSpends := self.sameTxSpends + 1 }
  | .sameBlock => { self with sameBlockSpends := self.sameBlockSpends + 1 }
  | .earlier => self

def recordP2trSpend (self : RunStats) (cls : SpendClass) (ctx : SpendContext) : RunStats :=
  let self := { self with p2trSpends := self.p2trSpends + 1 }
  let self := match ctx with
    | .sameTx => { self with p2trSameTxSpends := self.p2trSameTxSpends + 1 }
    | .sameBlock => { self with p2trSameBlockSpends := self.p2trSameBlockSpends + 1 }
    | .earlier => self
  let self := match cls.path with
    | .key => { self with
        p2trKeypathSpends := self.p2trKeypathSpends + 1
        p2trSpEligibleSpends := self.p2trSpEligibleSpends + 1 }
    | .scriptNonNums => { self with
        p2trScriptpathSpends := self.p2trScriptpathSpends + 1
        p2trSpEligibleSpends := self.p2trSpEligibleSpends + 1 }
    | .scriptNums => { self with
        p2trScriptpathSpends := self.p2trScriptpathSpends + 1
        p2trNumsSpends := self.p2trNumsSpends + 1 }
  if cls.inscription then
    let self := { self with p2trInscriptionSpends := self.p2trInscriptionSpends + 1 }
    if cls.path = .scriptNums then
      { self with p2trNumsAndInscriptionSpends := self.p2trNumsAndInscriptionSpends + 1 }
    else self
  else self

def recordOutputScript (self : RunStats) (t : ScriptType) : RunStats :=
  { self with scriptOutputs := self.scriptOutputs.record t }

def recordInputScript (self : RunStats) (t : ScriptType) : RunStats :=
  { self with scriptInputs := self.scriptInputs.record t }

end RunStats

/-! ## Rows -/

def STATS_STATE_VERSION : ℕ := 6

structure BlockLocalStats where
  outputCount : ℕ
  p2trOutputCount : ℕ
  scriptOutputs : TypeCounts
deriving DecidableEq

structure ChainDerivedStats where
  lastGlobalId : ℕ
  p2trReusedCount : ℕ
  spends : ℕ
  p2trSpends : ℕ
  p2trKeypathSpends : ℕ
  p2trScriptpathSpends : ℕ
  p2trNumsSpends : ℕ
  p2trSpEligibleSpends : ℕ
  p2trInscriptionSpends : ℕ
  p2trNumsAndInscriptionSpends : ℕ
  nonspTxs : ℕ
  nonspTxOutputs : ℕ
  scriptInputs : TypeCounts
  utxoHash : List Char
  utxoHashWindow : ℕ
deriving DecidableEq

structure BlockStats where
  height : ℕ
  blockHash : List Char
  statsVersion : ℕ
  classLocal : BlockLocalStats
  chain : ChainDerivedStats
  lastGlobalId : ℕ
  outputCount : ℕ
  p2trOutputCount : ℕ
  p2trReusedCount : ℕ
  spends : ℕ
  p2trSpends : ℕ
  p2trKeypathSpends : ℕ
  p2trScriptpathSpends : ℕ
  p2trNumsSpends : ℕ
  p2trSpEligibleSpends : ℕ
  p2trInscriptionSpends : ℕ
  p2trNumsAndInscriptionSpends : ℕ
  nonspTxs : ℕ
  nonspTxOutputs : ℕ
  scriptOutputs : TypeCounts
  scriptInputs : TypeCounts
  sortedSpent : SortedUidBlockEstimate
  sortedP2trSpent : SortedUidBlockEstimate
  utxoHash : List Char
  utxoHashWindow : ℕ
deriving DecidableEq

namespace BlockStats

def new (height : ℕ) : BlockStats :=
  { height
    blockHash := []
    statsVersion := STATS_STATE_VERSION
    classLocal := ⟨0, 0, .default⟩
    chain := ⟨0, 0, 0, 0, 0, 0, 0, 0, 0, 0, 0, 0, .default, [], 0⟩
    lastGlobalId := 0
    outputCount := 0
    p2trOutputCount := 0
    p2trReusedCount := 0
    spends := 0
    p2trSpends := 0
    p2trKeypathSpends := 0
    p2trScriptpathSpends := 0
    p2trNumsSpends := 0
    p2trSpEligibleSpends := 0
    p2trInscriptionSpends := 0
    p2trNumsAndInscriptionSpends := 0
    nonspTxs := 0
    nonspTxOutputs := 0
    scriptOutputs := .default
    scriptInputs := .default
    sortedSpent := .default
    sortedP2trSpent := .default
    utxoHash := []
    utxoHashWindow := 0 }

def refreshClasses (self : BlockStats) : BlockStats :=
  { self with
    classLocal :=
      { outputCount := self.outputCount
        p2trOutputCount := self.p2trOutputCount
        scriptOutputs := self.scriptOutputs }
    chain :=
      { lastGlobalId := self.lastGlobalId
        p2trReusedCount := self.p2trReusedCount
        spends := self.spends
        p2trSpends := self.p2trSpends
        p2trKeypathSpends := self.p2trKeypathSpends
        p2trScriptpathSpends := self.p2trScriptpathSpends
        p2trNumsSpends := self.p2trNumsSpends
        p2trSpEligibleSpends := self.p2trSpEligibleSpends
        p2trInscriptionSpends := self.p2trInscriptionSpends
        p2trNumsAndInscriptionSpends := self.p2trNumsAndInscriptionSpends
        nonspTxs := self.nonspTxs
        nonspTxOutputs := self.nonspTxOutputs
        scriptInputs := self.scriptInputs
        utxoHash := self.utxoHash
        utxoHashWindow := self.utxoHashWindow } }

end BlockStats

/-! ## The accumulator of one block -/

structure PerBlock where
  spends : ℕ
  outputCount : ℕ
  p2trOutputCount : ℕ
  p2trReusedCount : ℕ
  p2trSpends : ℕ
  p2trKeypathSpends : ℕ
  p2trScriptpathSpends : ℕ
  p2trNumsSpends : ℕ
  p2trSpEligibleSpends : ℕ
  p2trInscriptionSpends : ℕ
  p2trNumsAndInscriptionSpends : ℕ
  nonspTxs : ℕ
  nonspTxOutputs : ℕ
  scriptOutputs : TypeCounts
  scriptInputs : TypeCounts
  spentUids : List ℕ
  p2trSpentUids : List ℕ
deriving DecidableEq

namespace PerBlock

def default : PerBlock := ⟨0, 0, 0, 0, 0, 0, 0, 0, 0, 0, 0, 0, 0, .default, .default, [], []⟩

def recordSpendUid (self : PerBlock) (uid : ℕ) (isP2tr : Bool) : PerBlock :=
  let self := { self with spends := self.spends + 1, spentUids := self.spentUids ++ [uid] }
  if isP2tr then { self with p2trSpentUids := self.p2trSpentUids ++ [uid] } else self

def measureSortedUidEncoding (self : PerBlock) (blockAnchorLastUid : ℕ) (runStats : RunStats)
    (row : BlockStats) : Except String (RunStats × BlockStats) := do
  let (all, sortedSpentIds) ←
    measureSortedUidStream self.spentUids blockAnchorLastUid runStats.sortedSpentIds
  let (p2tr, sortedP2trSpentIds) ←
    measureSortedUidStream self.p2trSpentUids blockAnchorLastUid runStats.sortedP2trSpentIds
  return ({ runStats with sortedSpentIds, sortedP2trSpentIds },
    { row with sortedSpent := all, sortedP2trSpent := p2tr })

def recordP2trSpend (self : PerBlock) (cls : SpendClass) : PerBlock :=
  let self := { self with p2trSpends := self.p2trSpends + 1 }
  let self := match cls.path with
    | .key => { self with
        p2trKeypathSpends := self.p2trKeypathSpends + 1
        p2trSpEligibleSpends := self.p2trSpEligibleSpends + 1 }
    | .scriptNonNums => { self with
        p2trScriptpathSpends := self.p2trScriptpathSpends + 1
        p2trSpEligibleSpends := self.p2trSpEligibleSpends + 1 }
    | .scriptNums => { self with
        p2trScriptpathSpends := self.p2trScriptpathSpends + 1
        p2trNumsSpends := self.p2trNumsSpends + 1 }
  if cls.inscription then
    let self := { self with p2trInscriptionSpends := self.p2trInscriptionSpends + 1 }
    if cls.path = .scriptNums then
      { self with p2trNumsAndInscriptionSpends := self.p2trNumsAndInscriptionSpends + 1 }
    else self
  else self

def recordOutput (self : PerBlock) (isP2tr reused : Bool) : PerBlock :=
  let self := { self with outputCount := self.outputCount + 1 }
  if isP2tr then
    let self := { self with p2trOutputCount := self.p2trOutputCount + 1 }
    if reused then { self with p2trReusedCount := self.p2trReusedCount + 1 } else self
  else self

def recordOutputScript (self : PerBlock) (t : ScriptType) : PerBlock :=
  { self with scriptOutputs := self.scriptOutputs.record t }

def recordInputScript (self : PerBlock) (t : ScriptType) : PerBlock :=
  { self with scriptInputs := self.scriptInputs.record t }

/-- The row of the block; the accumulator is left empty. -/
def drainInto (self : PerBlock) (row : BlockStats) : BlockStats × PerBlock :=
  ({ row with
    spends := self.spends
    outputCount := self.outputCount
    p2trOutputCount := self.p2trOutputCount
    p2trReusedCount := self.p2trReusedCount
    p2trSpends := self.p2trSpends
    p2trKeypathSpends := self.p2trKeypathSpends
    p2trScriptpathSpends := self.p2trScriptpathSpends
    p2trNumsSpends := self.p2trNumsSpends
    p2trSpEligibleSpends := self.p2trSpEligibleSpends
    p2trInscriptionSpends := self.p2trInscriptionSpends
    p2trNumsAndInscriptionSpends := self.p2trNumsAndInscriptionSpends
    nonspTxs := self.nonspTxs
    nonspTxOutputs := self.nonspTxOutputs
    scriptOutputs := self.scriptOutputs
    scriptInputs := self.scriptInputs }, default)

end PerBlock

end BitcoinData.Stats
