import Mathlib.Data.List.Sort
import BitcoinData.Spec.EliasDelta
import BitcoinData.Spec.Schema

/-! `index.rs` up to its validators: the stored and the served shape of a block,
the response derived from a stored block with and without filters, the spent-ID
stream, and the two validators. Sizes that the source adds up in a `usize` are
natural numbers. -/

namespace BitcoinData

open Lib

def MAX_U16_SECTION_COUNT : ℕ := U16_MAX
def STORAGE_OUTPUT_FLAG_REUSED : UInt8 := 1
/-- `u32::MAX`, the stored spent height of an unspent output. -/
def STORAGE_SPENT_HEIGHT_UNSPENT : UInt32 := 4294967295

structure TweakEntryInput where
  outputCount : UInt16
  tweak : TxTweak
deriving DecidableEq

inductive SpentIdCodec
  | eliasDeltaAscendingAbsolute
deriving DecidableEq

structure LightBlockInput where
  height : ℕ
  blockHash : BlockHashBytes
  previousBlockHash : BlockHashBytes
  firstUid : UInt64
  txCount : UInt16
  /-- LSB-first bitmap, one bit per transaction; a set bit means no tweak entry. -/
  skippedTxsForTweaks : Bytes
  tweaks : List TweakEntryInput
  truncatedOutputHashBits : UInt8
  truncatedOutputHashes : Bytes
  spentIdCodec : SpentIdCodec
  spentCount : UInt32
  spentIds : Bytes
deriving DecidableEq

structure StoredOutputEntryInput where
  key : XOnlyKey
  spentHeight : UInt32
  flags : UInt8
deriving DecidableEq

structure StoredSpendEntryInput where
  spentUid : UInt64
  creationHeight : UInt32
deriving DecidableEq

structure StoredLightBlockInput where
  height : ℕ
  blockHash : BlockHashBytes
  previousBlockHash : BlockHashBytes
  firstUid : UInt64
  txCount : UInt16
  skippedTxsForTweaks : Bytes
  tweaks : List TweakEntryInput
  skippedOutputs : List UInt16
  outputs : List StoredOutputEntryInput
  spends : List StoredSpendEntryInput
  rawBlockBytes : UInt32
  truncatedOutputHashForTwoLabels : Bytes
  truncatedOutputHashForHundredLabels : Bytes
deriving DecidableEq

structure StoredBlockResponseFilter where
  cutthroughStart : Option ℕ
  cutthroughTip : Option ℕ
  filterReuse : Bool
  labels : Option UInt16
deriving DecidableEq

/-! ## The skipped-transaction bitmap -/

def skippedTxBitmapLen (txCount : UInt16) : ℕ := (txCount.toNat + 7) / 8

def emptySkippedTxsForTweaksBitmap (txCount : UInt16) : Bytes :=
  List.replicate (skippedTxBitmapLen txCount) 0

def validateSkippedTxsForTweaks (txCount : UInt16) (bitmap : Bytes) : Except String Unit := do
  ensure (bitmap.length = skippedTxBitmapLen txCount)
    s!"skipped tx bitmap byte length {bitmap.length} does not match expected {skippedTxBitmapLen txCount} for tx_count {txCount}"
  let usedBits := txCount.toNat % 8
  let usedMask : UInt8 := (1 <<< UInt8.ofNat usedBits) - 1
  let paddingMask := ~~~usedMask
  ensure (usedBits > 0 ∧ bitmap ≠ [] → bitmap.getLastD 0 &&& paddingMask = 0)
    "skipped tx bitmap has non-zero padding bits"

def setSkippedTxInBitmap (txCount : UInt16) (bitmap : Bytes) (txIndex : UInt16) :
    Except String Bytes := do
  validateSkippedTxsForTweaks txCount bitmap
  ensure (txIndex < txCount) s!"skipped tx index {txIndex} is outside tx_count {txCount}"
  let bitPos := txIndex.toNat
  return bitmap.modify (bitPos / 8) (· ||| (1 <<< UInt8.ofNat (bitPos % 8)))

def isSkippedTxInBitmap (txCount : UInt16) (bitmap : Bytes) (txIndex : UInt16) :
    Except String Bool := do
  validateSkippedTxsForTweaks txCount bitmap
  ensure (txIndex < txCount) s!"skipped tx index {txIndex} is outside tx_count {txCount}"
  let bitPos := txIndex.toNat
  return ((bitmap.getD (bitPos / 8) 0 >>> UInt8.ofNat (bitPos % 8)) &&& 1) != 0

def skippedTxsForTweaksCount (txCount : UInt16) (bitmap : Bytes) : Except String UInt16 := do
  validateSkippedTxsForTweaks txCount bitmap
  (List.range txCount.toNat).foldlM (fun count txIndex => do
    if ← isSkippedTxInBitmap txCount bitmap (UInt16.ofNat txIndex) then
      okOr (checkedAdd16 count 1) "skipped tx count overflow"
    else
      return count) 0

/-- The loop of `derive_stored_tweak_tx_indexes` over the transactions that are left. -/
def collectTweakTxIndexes (txCount : UInt16) (bitmap : Bytes) (tweakCount : ℕ) :
    List ℕ → List UInt16 → Except String (List UInt16)
  | [], indexes => .ok indexes
  | txIndex :: rest, indexes =>
    if indexes.length < tweakCount then do
      if ← isSkippedTxInBitmap txCount bitmap (UInt16.ofNat txIndex) then
        collectTweakTxIndexes txCount bitmap tweakCount rest indexes
      else
        collectTweakTxIndexes txCount bitmap tweakCount rest
          (indexes ++ [UInt16.ofNat txIndex])
    else
      .ok indexes

def deriveStoredTweakTxIndexes (txCount : UInt16) (bitmap : Bytes) (tweakCount : ℕ) :
    Except String (List UInt16) := do
  validateSkippedTxsForTweaks txCount bitmap
  let indexes ← collectTweakTxIndexes txCount bitmap tweakCount (List.range txCount.toNat) []
  ensure (indexes.length = tweakCount)
    "tx_count/skipped bitmap does not leave enough non-skipped transactions for stored tweaks"
  return indexes

/-! ## Cut-through and reuse filters -/

def shouldOmitStoredOutput (blockHeight : ℕ) (output : StoredOutputEntryInput)
    (filter : StoredBlockResponseFilter) : Bool :=
  if filter.filterReuse && (output.flags &&& STORAGE_OUTPUT_FLAG_REUSED) != 0 then true
  else
    match filter.cutthroughStart with
    | some cutthroughStart =>
      let cutthroughTip := filter.cutthroughTip.getD U64_MAX
      decide (blockHeight ≥ cutthroughStart ∧
        output.spentHeight ≠ STORAGE_SPENT_HEIGHT_UNSPENT ∧
        output.spentHeight.toNat ≤ cutthroughTip)
    | none => false

def shouldOmitStoredSpend (blockHeight : ℕ) (spend : StoredSpendEntryInput)
    (filter : StoredBlockResponseFilter) : Bool :=
  match filter.cutthroughStart with
  | none => false
  | some cutthroughStart =>
    let cutthroughTip := filter.cutthroughTip.getD U64_MAX
    decide (blockHeight ≤ cutthroughTip ∧ spend.creationHeight.toNat ≥ cutthroughStart)

/-! ## Spent IDs -/

/-- The values of the spent-ID stream: first UID plus one, then positive deltas. -/
def spentIdValues : Option UInt64 → List UInt64 → Except String (List UInt64)
  | _, [] => .ok []
  | prev, uid :: ids => do
    let value ← match prev with
      | none => okOr (checkedAdd64 uid 1) "spent uid overflow while encoding first value"
      | some prevUid => okOr (checkedSub64 uid prevUid) "spent ids are not sorted ascending"
    ensure (value > 0) s!"duplicate spent uid {uid} cannot be Elias-delta encoded as a positive delta"
    let rest ← spentIdValues (some uid) ids
    return value :: rest

def encodeSpentIdsEliasDeltaAscendingAbsolute (spentIds : List UInt64) :
    Except String (UInt32 × Bytes) := do
  let ids := spentIds.insertionSort (· ≤ ·)
  if ids = [] then
    return (0, [])
  else
    let values ← spentIdValues none ids
    let count ← tryU32 values.length
    return (count, ← encodeEliasDeltaValues values)

/-- Running sums of the deltas, starting after `uid`. -/
def spentIdsFromDeltas : UInt64 → List UInt64 → Except String (List UInt64)
  | _, [] => .ok []
  | uid, delta :: deltas => do
    let next ← okOr (checkedAdd64 uid delta) "spent uid delta overflow"
    let rest ← spentIdsFromDeltas next deltas
    return next :: rest

def decodeSpentIdsEliasDeltaAscendingAbsolute (spentCount : UInt32) (spentIds : Bytes) :
    Except String (List UInt64) := do
  if spentCount = 0 then
    ensure (spentIds = []) "empty spent stream must have no bytes"
    return []
  else
    let values ← decodeEliasDeltaValues spentIds spentCount.toNat
    match values with
    | [] => .error "invalid first spent id value"
    | value :: deltas =>
      let first ← okOr (checkedSub64 value 1) "invalid first spent id value"
      let rest ← spentIdsFromDeltas first deltas
      return first :: rest

def decodeLightBlockSpentIds (input : LightBlockInput) : Except String (List UInt64) :=
  match input.spentIdCodec with
  | .eliasDeltaAscendingAbsolute =>
    decodeSpentIdsEliasDeltaAscendingAbsolute input.spentCount input.spentIds

/-! ## Truncated output hashes -/

def RESPONSE_LABEL_BUDGET_TWO : UInt16 := 2
def RESPONSE_LABEL_BUDGET_HUNDRED : UInt16 := 100

def responseLabelBudget (labels : Option UInt16) : UInt16 :=
  match labels with
  | some labels =>
    if labels ≤ RESPONSE_LABEL_BUDGET_TWO then RESPONSE_LABEL_BUDGET_TWO
    else RESPONSE_LABEL_BUDGET_HUNDRED
  | none => RESPONSE_LABEL_BUDGET_HUNDRED

def ceilLog2 (n : ℕ) : ℕ := if n ≤ 1 then 0 else (n - 1).log2 + 1

/-- The source computes the logarithm in `f64`; its argument is an integer below
`2 ^ 41`, so the rounded-up result is the exact one used here. -/
def chooseTruncatedOutputHashBits (outputCount : ℕ) (rawBlockBytes : UInt32)
    (labelBudget : UInt16) : UInt8 :=
  if outputCount = 0 ∨ rawBlockBytes = 0 then 0
  else UInt8.ofNat (min 255 (max 1 (ceilLog2 (4 * rawBlockBytes.toNat * max labelBudget.toNat 1))))

def lightBlockOutputCount (input : LightBlockInput) : ℕ :=
  (input.tweaks.map fun entry => entry.outputCount.toNat).sum

def packedTruncatedOutputHashLen (outputCount : ℕ) (bits : UInt8) : ℕ :=
  if outputCount = 0 ∨ bits = 0 then 0 else (outputCount * bits.toNat + 7) / 8

section
variable [Externals]

/-- One digest bit of `pack_truncated_output_hash_from_keys`. -/
def packHashBit (digest : FixedBytes 32) (acc : Bytes × ℕ) (bit : ℕ) : Bytes × ℕ :=
  let (out, outBit) := acc
  let src := (digest.bytes.getD (bit / 8) 0 >>> UInt8.ofNat (7 - bit % 8)) &&& 1
  (if src ≠ 0 then out.modify (outBit / 8) (· ||| (1 <<< UInt8.ofNat (7 - outBit % 8))) else out,
    outBit + 1)

def packTruncatedOutputHashFromKeys (keys : List XOnlyKey) (bits : UInt8) : Bytes :=
  if bits = 0 then []
  else
    (keys.foldl (fun acc key =>
      (List.range bits.toNat).foldl (packHashBit (Externals.digest32 key)) acc)
      (List.replicate (packedTruncatedOutputHashLen keys.length bits) 0, 0)).1

def buildStoredTruncatedOutputHashes (rawBlockBytes : UInt32)
    (outputs : List StoredOutputEntryInput) (labelBudget : UInt16) : Bytes :=
  packTruncatedOutputHashFromKeys (outputs.map (·.key))
    (chooseTruncatedOutputHashBits outputs.length rawBlockBytes labelBudget)

end

/-! ## Validation -/

def ensureU16Len (label : String) (len : ℕ) : Except String Unit :=
  ensure (len ≤ MAX_U16_SECTION_COUNT) s!"{label} count {len} exceeds u16 section bound"

def txTweakPayloadBytes (tweak : TxTweak) : Bytes := tweak.bytes.drop 1

def validateLightBlockInput (input : LightBlockInput) : Except String Unit := do
  validateSkippedTxsForTweaks input.txCount input.skippedTxsForTweaks
  let skippedTxCount ← skippedTxsForTweaksCount input.txCount input.skippedTxsForTweaks
  ensureU16Len "tweaks" input.tweaks.length
  ensure (input.txCount.toNat = skippedTxCount.toNat + input.tweaks.length)
    s!"tx_count {input.txCount} must equal skipped tx count {skippedTxCount} plus tweak count {input.tweaks.length}"
  let declaredOutputs := lightBlockOutputCount input
  let expectedLen := packedTruncatedOutputHashLen declaredOutputs input.truncatedOutputHashBits
  ensure (expectedLen = input.truncatedOutputHashes.length)
    s!"truncated output hash byte length {input.truncatedOutputHashes.length} does not match expected {expectedLen} for {declaredOutputs} outputs at {input.truncatedOutputHashBits} bits"
  if declaredOutputs = 0 then
    ensure (input.truncatedOutputHashBits = 0) "empty truncated output hash stream must use 0 bits"
  else
    ensure (input.truncatedOutputHashBits > 0)
      "non-empty truncated output hash stream must use a positive bit width"
  ensure (∀ entry ∈ input.tweaks, (txTweakPayloadBytes entry.tweak).length = 32)
    "tweak payload must be 32 bytes"
  let decodedSpends ← decodeLightBlockSpentIds input
  ensure (decodedSpends.length = input.spentCount.toNat)
    s!"spent count {input.spentCount} does not match decoded spent ID count {decodedSpends.length}"

/-! ## Responses -/

def StoredLightBlockInput.toResponseInputForLabels (self : StoredLightBlockInput)
    (labels : Option UInt16) : Except String LightBlockInput := do
  let labelBudget := responseLabelBudget labels
  let truncatedOutputHashBits :=
    chooseTruncatedOutputHashBits self.outputs.length self.rawBlockBytes labelBudget
  let truncatedOutputHashes :=
    if labelBudget = RESPONSE_LABEL_BUDGET_TWO then self.truncatedOutputHashForTwoLabels
    else self.truncatedOutputHashForHundredLabels
  let (spentCount, spentIds) ←
    encodeSpentIdsEliasDeltaAscendingAbsolute (self.spends.map (·.spentUid))
  let response : LightBlockInput :=
    { height := self.height
      blockHash := self.blockHash
      previousBlockHash := self.previousBlockHash
      firstUid := self.firstUid
      txCount := self.txCount
      skippedTxsForTweaks := self.skippedTxsForTweaks
      tweaks := self.tweaks
      truncatedOutputHashBits := truncatedOutputHashBits
      truncatedOutputHashes := truncatedOutputHashes
      spentIdCodec := .eliasDeltaAscendingAbsolute
      spentCount := spentCount
      spentIds := spentIds }
  validateLightBlockInput response
  return response

/-- The accumulators of the tweak loop in `to_filtered_response_input`. -/
structure FilteredTweaks where
  skippedTxsForTweaks : Bytes
  outputKeys : List XOnlyKey
  tweaks : List TweakEntryInput
  outputCursor : ℕ

/-- One tweak with its transaction index: keep its retained outputs, or mark the
transaction skipped when none is left. -/
def StoredLightBlockInput.filterTweak (self : StoredLightBlockInput)
    (filter : StoredBlockResponseFilter) (acc : FilteredTweaks)
    (entry : TweakEntryInput × UInt16) : Except String FilteredTweaks := do
  let (tweak, txIndex) := entry
  let groupEnd := acc.outputCursor + tweak.outputCount.toNat
  ensure (groupEnd ≤ self.outputs.length)
    s!"stored tweak output count exceeds output list at block {self.height} tx_index {txIndex}"
  let group := (self.outputs.drop acc.outputCursor).take tweak.outputCount.toNat
  let kept := group.filter fun output => !shouldOmitStoredOutput self.height output filter
  if kept.length > 0 then
    return { acc with
      outputKeys := acc.outputKeys ++ kept.map (·.key)
      tweaks := acc.tweaks ++ [{ outputCount := UInt16.ofNat kept.length, tweak := tweak.tweak }]
      outputCursor := groupEnd }
  else
    let bitmap ← setSkippedTxInBitmap self.txCount acc.skippedTxsForTweaks txIndex
    return { acc with skippedTxsForTweaks := bitmap, outputCursor := groupEnd }

def StoredLightBlockInput.toFilteredResponseInput [Externals] (self : StoredLightBlockInput)
    (filter : StoredBlockResponseFilter) : Except String LightBlockInput := do
  if !filter.filterReuse && filter.cutthroughStart.isNone then
    self.toResponseInputForLabels filter.labels
  else
    let tweakTxIndexes ← deriveStoredTweakTxIndexes self.txCount self.skippedTxsForTweaks
      self.tweaks.length
    let acc ← (self.tweaks.zip tweakTxIndexes).foldlM (self.filterTweak filter)
      { skippedTxsForTweaks := self.skippedTxsForTweaks
        outputKeys := []
        tweaks := []
        outputCursor := 0 }
    ensure (acc.outputCursor = self.outputs.length)
      s!"stored outputs not fully consumed by tweak output counts at block {self.height}"
    let (spentCount, spentIds) ← encodeSpentIdsEliasDeltaAscendingAbsolute
      ((self.spends.filter fun spend => !shouldOmitStoredSpend self.height spend filter).map
        (·.spentUid))
    let labelBudget := responseLabelBudget filter.labels
    let truncatedOutputHashBits :=
      chooseTruncatedOutputHashBits acc.outputKeys.length self.rawBlockBytes labelBudget
    let response : LightBlockInput :=
      { height := self.height
        blockHash := self.blockHash
        previousBlockHash := self.previousBlockHash
        firstUid := self.firstUid
        txCount := self.txCount
        skippedTxsForTweaks := acc.skippedTxsForTweaks
        tweaks := acc.tweaks
        truncatedOutputHashBits := truncatedOutputHashBits
        truncatedOutputHashes :=
          packTruncatedOutputHashFromKeys acc.outputKeys truncatedOutputHashBits
        spentIdCodec := .eliasDeltaAscendingAbsolute
        spentCount := spentCount
        spentIds := spentIds }
    validateLightBlockInput response
    return response

/-! ## Stored blocks -/

def validateSortedUniqueU16 (values : List UInt16) (label : String) : Except String Unit :=
  ensure (values.IsChain (· < ·)) s!"{label} must be sorted and unique"

def validateStoredP2trUidDomain (outputCount : ℕ) (skippedOutputs : List UInt16) :
    Except String Unit := do
  let p2trOutputCount := outputCount + skippedOutputs.length
  ensure (p2trOutputCount ≤ U16_MAX + 1)
    s!"stored P2TR output count {p2trOutputCount} exceeds u16 slot domain"
  skippedOutputs.forM fun slot => ensure (slot.toNat < p2trOutputCount)
    s!"stored skipped output slot {slot} is outside derived P2TR output count {p2trOutputCount}"

/-- The length check of one label budget. -/
def validateStoredTruncatedOutputHash (input : StoredLightBlockInput) (label : String)
    (labelBudget : UInt16) (truncatedOutputHashes : Bytes) : Except String Unit :=
  let bits := chooseTruncatedOutputHashBits input.outputs.length input.rawBlockBytes labelBudget
  let expected := packedTruncatedOutputHashLen input.outputs.length bits
  ensure (truncatedOutputHashes.length = expected)
    s!"stored {label} truncated output hash byte length {truncatedOutputHashes.length} does not match expected {expected}"

def validateStoredTruncatedOutputHashes (input : StoredLightBlockInput) : Except String Unit := do
  validateStoredTruncatedOutputHash input "two-label" RESPONSE_LABEL_BUDGET_TWO
    input.truncatedOutputHashForTwoLabels
  validateStoredTruncatedOutputHash input "hundred-label" RESPONSE_LABEL_BUDGET_HUNDRED
    input.truncatedOutputHashForHundredLabels

def validateStoredLightBlockInput (input : StoredLightBlockInput) : Except String Unit := do
  ensure (input.height ≤ U32_MAX) s!"stored block height {input.height} exceeds u32 range"
  validateSkippedTxsForTweaks input.txCount input.skippedTxsForTweaks
  let skippedTxCount ← skippedTxsForTweaksCount input.txCount input.skippedTxsForTweaks
  ensureU16Len "stored tweaks" input.tweaks.length
  ensure (input.txCount.toNat = skippedTxCount.toNat + input.tweaks.length)
    s!"stored tx_count {input.txCount} must equal skipped tx count {skippedTxCount} plus tweak count {input.tweaks.length}"
  ensureU16Len "stored skipped outputs" input.skippedOutputs.length
  ensureU16Len "stored outputs" input.outputs.length
  validateSortedUniqueU16 input.skippedOutputs "stored skipped outputs"
  validateStoredP2trUidDomain input.outputs.length input.skippedOutputs
  validateStoredTruncatedOutputHashes input
  let response ← input.toResponseInputForLabels none
  validateLightBlockInput response
  ensure (∀ spend ∈ input.spends, spend.creationHeight.toNat ≤ input.height)
    "stored spend creation height exceeds spend block height"

end BitcoinData
