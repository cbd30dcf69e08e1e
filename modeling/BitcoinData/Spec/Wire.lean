import BitcoinData.Spec.Index

/-! Messages and bytes: the Cap'n Proto half of `index.rs`. -/

namespace BitcoinData

open Lib

def read32 (bytes : Bytes) (label : String) : Except String (FixedBytes 32) :=
  if h : bytes.length = 32 then .ok ⟨bytes, h⟩
  else .error s!"invalid {label} length {bytes.length}"

/-! ## Tweaks -/

def encodeFlatTweaks (tweaks : List TweakEntryInput) : Bytes × Bytes :=
  (tweaks.flatMap fun entry => u16ToLeBytes entry.outputCount,
    tweaks.flatMap fun entry => txTweakPayloadBytes entry.tweak)

/-- Storage and responses carry the x-coordinate only; the even-y prefix stands in
for the lost parity byte. -/
def txTweakFromPayloadBytes (bytes : Bytes) : Except String TxTweak :=
  if h : bytes.length = 32 then .ok ⟨0x02 :: bytes, by simp [h]⟩
  else .error "tweak payload must be 32 bytes"

/-- The loop `for i in 0..tweak_count` of `decode_flat_tweaks`. -/
def decodeFlatTweaksFrom : ℕ → Bytes → Bytes → Except String (List TweakEntryInput)
  | 0, _, _ => .ok []
  | count + 1, outputCounts, txTweaks => do
    let outputCount := u16FromLeBytes (outputCounts.getD 0 0) (outputCounts.getD 1 0)
    let tweak ← txTweakFromPayloadBytes (txTweaks.take 32)
    let rest ← decodeFlatTweaksFrom count (outputCounts.drop 2) (txTweaks.drop 32)
    return { outputCount, tweak } :: rest

def decodeFlatTweaks (tweakCount : UInt32) (outputCounts txTweaks : Bytes) :
    Except String (List TweakEntryInput) := do
  let count := tweakCount.toNat
  ensure (outputCounts.length = count * 2)
    s!"flat tweak output-count bytes length {outputCounts.length} does not match expected {count * 2} for {count} tweaks"
  ensure (txTweaks.length = count * 32)
    s!"flat tweak payload bytes length {txTweaks.length} does not match expected {count * 32} for {count} tweaks"
  decodeFlatTweaksFrom count outputCounts txTweaks

def spentIdCodecToCapnp : SpentIdCodec → UInt16
  | .eliasDeltaAscendingAbsolute => 0

def spentIdCodecFromCapnp (codec : UInt16) : Except String SpentIdCodec :=
  if codec = 0 then .ok .eliasDeltaAscendingAbsolute
  else .error s!"unsupported spent id codec: NotInSchema({codec})"

/-! ## Response messages -/

def encodeLightBlock (input : LightBlockInput) : Except String LightBlockMessage := do
  validateLightBlockInput input
  let (tweakOutputCounts, txTweaks) := encodeFlatTweaks input.tweaks
  return {
    version := WIRE_VERSION
    height := input.height
    blockHash := input.blockHash.bytes
    previousBlockHash := input.previousBlockHash.bytes
    firstUid := input.firstUid
    txCount := input.txCount
    skippedTxsForTweaks := input.skippedTxsForTweaks
    tweakCount := UInt32.ofNat input.tweaks.length
    tweakOutputCounts := tweakOutputCounts
    txTweaks := txTweaks
    truncatedOutputHashBits := input.truncatedOutputHashBits
    truncatedOutputHashes := input.truncatedOutputHashes
    spentIdCodec := spentIdCodecToCapnp input.spentIdCodec
    spentCount := input.spentCount
    spentIds := input.spentIds }

section
variable [Externals]

def decodeLightBlock (bytes : Bytes) : Except String LightBlockInput := do
  let block ← Externals.readLight bytes
  ensure (block.version = WIRE_VERSION) s!"unsupported light block version {block.version}"
  let tweaks ← decodeFlatTweaks block.tweakCount block.tweakOutputCounts block.txTweaks
  let spentIdCodec ← spentIdCodecFromCapnp block.spentIdCodec
  let blockHash ← read32 block.blockHash "block hash"
  let previousBlockHash ← read32 block.previousBlockHash "previous block hash"
  let input : LightBlockInput :=
    { height := block.height
      blockHash := blockHash
      previousBlockHash := previousBlockHash
      firstUid := block.firstUid
      txCount := block.txCount
      skippedTxsForTweaks := block.skippedTxsForTweaks
      tweaks := tweaks
      truncatedOutputHashBits := block.truncatedOutputHashBits
      truncatedOutputHashes := block.truncatedOutputHashes
      spentIdCodec := spentIdCodec
      spentCount := block.spentCount
      spentIds := block.spentIds }
  validateLightBlockInput input
  return input

end

/-! ## Stored messages -/

def encodeStoredLightBlock (input : StoredLightBlockInput) :
    Except String StoredLightBlockMessage := do
  validateStoredLightBlockInput input
  let height ← tryU32 input.height
  return {
    version := WIRE_VERSION
    height := height
    blockHash := input.blockHash.bytes
    previousBlockHash := input.previousBlockHash.bytes
    firstUid := input.firstUid
    txCount := input.txCount
    skippedTxsForTweaks := input.skippedTxsForTweaks
    tweaks := input.tweaks.map fun entry =>
      { outputCount := entry.outputCount, tweak := txTweakPayloadBytes entry.tweak }
    skippedOutputs := input.skippedOutputs
    outputs := input.outputs.map fun entry =>
      { key := entry.key.bytes, spentHeight := entry.spentHeight, flags := entry.flags }
    spends := input.spends.map fun entry =>
      { spentUid := entry.spentUid, creationHeight := entry.creationHeight }
    rawBlockBytes := input.rawBlockBytes
    truncatedOutputHashForTwoLabels := input.truncatedOutputHashForTwoLabels
    truncatedOutputHashForHundredLabels := input.truncatedOutputHashForHundredLabels }

/-- The tweak loop of `decode_stored_light_block`, from entry `i` on. -/
def decodeStoredTweaks : ℕ → List StoredTweakEntryMessage → Except String (List TweakEntryInput)
  | _, [] => .ok []
  | i, entry :: entries => do
    ensure (entry.tweak.length = 32) s!"stored tweak entry {i} is not 32 bytes"
    let tweak ← txTweakFromPayloadBytes entry.tweak
    let rest ← decodeStoredTweaks (i + 1) entries
    return { outputCount := entry.outputCount, tweak } :: rest

/-- The output loop of `decode_stored_light_block`, from entry `i` on. -/
def decodeStoredOutputs :
    ℕ → List StoredOutputEntryMessage → Except String (List StoredOutputEntryInput)
  | _, [] => .ok []
  | i, entry :: entries => do
    ensure (entry.key.length = 32) s!"stored output entry {i} key is not 32 bytes"
    let key ← read32 entry.key "stored output key"
    let rest ← decodeStoredOutputs (i + 1) entries
    return { key, spentHeight := entry.spentHeight, flags := entry.flags } :: rest

section
variable [Externals]

def decodeStoredLightBlock (bytes : Bytes) : Except String StoredLightBlockInput := do
  let block ← Externals.readStored bytes
  ensure (block.version = WIRE_VERSION) s!"unsupported stored light block version {block.version}"
  let tweaks ← decodeStoredTweaks 0 block.tweaks
  let outputs ← decodeStoredOutputs 0 block.outputs
  let blockHash ← read32 block.blockHash "stored block hash"
  let previousBlockHash ← read32 block.previousBlockHash "stored previous block hash"
  let input : StoredLightBlockInput :=
    { height := block.height.toNat
      blockHash := blockHash
      previousBlockHash := previousBlockHash
      firstUid := block.firstUid
      txCount := block.txCount
      skippedTxsForTweaks := block.skippedTxsForTweaks
      tweaks := tweaks
      skippedOutputs := block.skippedOutputs
      outputs := outputs
      spends := block.spends.map fun entry =>
        { spentUid := entry.spentUid, creationHeight := entry.creationHeight }
      rawBlockBytes := block.rawBlockBytes
      truncatedOutputHashForTwoLabels := block.truncatedOutputHashForTwoLabels
      truncatedOutputHashForHundredLabels := block.truncatedOutputHashForHundredLabels }
  validateStoredLightBlockInput input
  return input

/-- `to_packed_bytes(&encode_stored_light_block(..)?)`. -/
def storedBlockBytes (input : StoredLightBlockInput) : Except String Bytes := do
  let message ← encodeStoredLightBlock input
  return Externals.writeStored message

/-- `to_packed_bytes(&encode_light_block(..)?)`. -/
def lightBlockBytes (input : LightBlockInput) : Except String Bytes := do
  let message ← encodeLightBlock input
  return Externals.writeLight message

def storedLightBlockToFilteredResponseBytes (bytes : Bytes)
    (filter : StoredBlockResponseFilter) : Except String (Bytes × BlockHashBytes) := do
  let stored ← decodeStoredLightBlock bytes
  let response ← stored.toFilteredResponseInput filter
  let payload ← lightBlockBytes response
  return (payload, stored.blockHash)

end

end BitcoinData
