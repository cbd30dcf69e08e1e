import BitcoinData.Lib.Unordered
import BitcoinData.Spec.LightIndexer
import BitcoinData.Spec.ScanPoint
import BitcoinData.Spec.Source

/-! The fetch and decode step of `bin/light_indexer.rs`: frames of raw blocks become the scan input
of the indexer, each with the tweaks that its undo data gives. The frames of a chunk are decoded
beside each other, and the order in which they are ready is left open. -/

namespace BitcoinData

open Lib

/-! ## Blocks of the `bitcoin` crate -/

structure TxIn where
  previousOutput : OutPointKey
  scriptSig : Bytes
  witness : List Bytes
deriving DecidableEq

/-- An output, with its value in satoshis. -/
structure TxOut where
  value : UInt64
  scriptPubkey : Bytes
deriving DecidableEq

/-- A transaction with its `compute_txid`. -/
structure Transaction where
  txid : TxidBytes
  input : List TxIn
  output : List TxOut
deriving DecidableEq

/-- A block with its `block_hash`. -/
structure Block where
  blockHash : BlockHashBytes
  prevBlockhash : BlockHashBytes
  txdata : List Transaction
deriving DecidableEq

class BitcoinCrate where
  deserialize : Bytes → Except String Block
  /-- `XOnlyPublicKey::from_slice`. -/
  xOnlyPublicKeyFromSlice : FixedBytes 32 → Except String XOnlyKey

/-! ## Decoding a frame -/

def extractP2trXonly (script : Bytes) : Option (FixedBytes 32) :=
  match classifyScript script with
  | .p2tr xonlyKey => some xonlyKey
  | _ => none

def scanInput (input : TxIn) : TxInputScan :=
  { previousOutput := input.previousOutput, scriptSig := input.scriptSig, witness := input.witness }

def scanOutput (output : TxOut × ℕ) : Except String TxOutputScan := do
  let vout ← tryU32 output.2
  let p2trKey := extractP2trXonly output.1.scriptPubkey
  return {
    vout
    valueSat := output.1.value
    scriptPubkey := output.1.scriptPubkey
    p2trXonlyKey := p2trKey
    isP2tr := p2trKey.isSome
    isNums := false }

section
variable [BitcoinCrate]

def prevoutInfoFromSpentTxout (prevout : SpentTxOut) : Except String PrevoutInfo :=
  match classifyScript prevout.scriptPubkey with
  | .p2pkh hash160 => .ok ⟨.p2pkh hash160⟩
  | .p2sh hash160 => .ok ⟨.p2sh hash160⟩
  | .p2wpkh hash160 => .ok ⟨.p2wpkh hash160⟩
  | .p2tr xonlyKey => do
    let xonlyKey ← BitcoinCrate.xOnlyPublicKeyFromSlice xonlyKey
    return ⟨.p2tr xonlyKey⟩
  | .witnessUnknown version _ => .ok ⟨if version ≥ 2 then .witnessUnknown version else .other⟩
  | .p2wsh _ => .ok ⟨.other⟩
  | .opReturn => .ok ⟨.other⟩
  | .other => .ok ⟨.other⟩

def inputContext (pair : TxInputScan × SpentTxOut) : Except String TxInputContext := do
  let prevout ← prevoutInfoFromSpentTxout pair.2
  return {
    previousOutput := pair.1.previousOutput
    scriptSig := pair.1.scriptSig
    witness := pair.1.witness
    prevout := some prevout }

variable [ScanPointCrypto]

/-- Undo data is not looked at for a transaction without Taproot outputs, nor for the coinbase. -/
def computeSpTweakFromUndo (txIndex : ℕ) (inputs : List TxInputScan) (outputs : List TxOutputScan)
    (spentTxouts : Option BlockSpentTxOuts) : Except String (Option TxTweak) :=
  if !outputs.any (·.isP2tr) then .ok none
  else if txIndex = 0 then .ok none
  else do
    let spentTxouts ← okOr spentTxouts
      s!"missing spenttxouts undo data for tx_index={txIndex}; light-indexer requires /rest/spenttxouts"
    let undoInputs ← okOr spentTxouts.txs[txIndex]?
      s!"spenttxouts missing undo tx entry for tx_index={txIndex}"
    ensure (undoInputs.length = inputs.length)
      s!"spenttxouts input count mismatch for tx_index={txIndex}: undo={undoInputs.length} tx={inputs.length}"
    let context ← (inputs.zip undoInputs).mapM inputContext
    match ← computeTxScanPoint context with
    | .computed tweak => return some tweak
    | .ineligible _ => return none
    | .missingPrevout _ => return none

/-- `tx_index as u16` keeps the low 16 bits. -/
def scanTx (spentTxouts : Option BlockSpentTxOuts) (tx : Transaction × ℕ) :
    Except String TxScanInput := do
  let inputs := tx.1.input.map scanInput
  let outputs ← tx.1.output.zipIdx.mapM scanOutput
  let silentPaymentTweak ← computeSpTweakFromUndo tx.2 inputs outputs spentTxouts
  return {
    txid := tx.1.txid
    txIndex := UInt16.ofNat tx.2
    inputs
    outputs
    silentPaymentTweak }

def decodeBlockFrame (height : ℕ) (sourceHash : BlockHashBytes) (bytes : Bytes)
    (spentTxouts : Option BlockSpentTxOuts) : Except String BlockScanInput := do
  let block ← BitcoinCrate.deserialize bytes
  ensure (block.blockHash = sourceHash)
    s!"source hash mismatch at height {height}: source={displayHash sourceHash} decoded={displayHash block.blockHash}"
  let txs ← block.txdata.zipIdx.mapM (scanTx spentTxouts)
  let rawBlockBytes ← tryU32 bytes.length
  return {
    height
    blockHash := sourceHash
    previousBlockHash := block.prevBlockhash
    rawBlockBytes
    txs }

end

/-! ## A chunk -/

/-- The positions and hashes of the frames without undo data. -/
def missingUndo (frames : List RawBlockFrame) : List (ℕ × BlockHashBytes) :=
  frames.zipIdx.filterMap fun frame =>
    if frame.1.spentTxouts.isNone then some (frame.2, frame.1.hash) else none

/-- `frames[index].spent_txouts = undo`, for every pair. -/
def attachUndo (frames : List RawBlockFrame) (undo : List (ℕ × Option BlockSpentTxOuts)) :
    List RawBlockFrame :=
  undo.foldl (fun frames pair => frames.modify pair.1 fun frame => { frame with spentTxouts := pair.2 })
    frames

/-- The frames of a chunk with their undo data. -/
def fetchFrames (source undoSource : BlockSource) (chunkStart chunkCount : ℕ) :
    Except DecodeFault (List RawBlockFrame) := do
  let frames ← source.getBlockRangeByHeight chunkStart chunkCount
  orFailed (ensure (frames ≠ []) s!"source returned an empty block range at height {chunkStart}")
  let missing := missingUndo frames
  if missing = [] then return frames
  else
    let fetched ← undoSource.getBlocksSpentTxouts (missing.map (·.2))
    orFailed (ensure (fetched.length = missing.length)
      s!"undo source returned {fetched.length} spenttxouts entries for {missing.length} missing blocks")
    return attachUndo frames ((missing.map (·.1)).zip fetched)

/-- The order in which the decoders of the frames of a chunk are ready. -/
abbrev DecodeSchedule := List RawBlockFrame → List RawBlockFrame

/-- Every chunk is decoded by `buffer_unordered`. -/
def DecodeSchedule.Possible (schedule : DecodeSchedule) (chunkCount : ℕ) : Prop :=
  ∀ frames, Completes chunkCount frames [] (schedule frames)

/-- What an error says; a panic ends the process as an error does. -/
def DecodeFault.message : DecodeFault → String
  | .failed message => message
  | .capacityOverflow => "capacity overflow"
  | .sliceOutOfRange => "range end index out of range"

section
variable [BitcoinCrate] [ScanPointCrypto]

def decodeFrame (frame : RawBlockFrame) : Except String BlockScanInput := do
  let spentTxouts ← okOr frame.spentTxouts
    s!"undo source did not return spenttxouts for block {displayHash frame.hash} at height {frame.height}"
  decodeBlockFrame frame.height frame.hash frame.bytes (some spentTxouts)

/-- Decoded blocks are collected as they are ready and then sorted. -/
def decodeFrames (schedule : DecodeSchedule) (frames : List RawBlockFrame) :
    Except String (List BlockScanInput) := do
  let blocks ← (schedule frames).mapM decodeFrame
  return blocks.insertionSort fun a b => a.height ≤ b.height

def fetchAndDecodeChunk (source undoSource : BlockSource) (schedule : DecodeSchedule)
    (chunkStart chunkCount : ℕ) : Except String DecodedChunk := do
  let frames ← (fetchFrames source undoSource chunkStart chunkCount).mapError DecodeFault.message
  let rawBytes := (frames.map (·.bytes.length)).sum
  let blocks ← decodeFrames schedule frames
  return { blocks, rawBytes }

/-- A decode schedule for each chunk, by its first height and the number of heights asked for. -/
abbrev ChunkSchedule := ℕ → ℕ → DecodeSchedule

/-- No chunk is asked for without a height. -/
def ChunkSchedule.Possible (schedule : ChunkSchedule) : Prop :=
  ∀ chunkStart chunkCount, 0 < chunkCount → (schedule chunkStart chunkCount).Possible chunkCount

/-- The source of a window, as `catch_up_ranges` asks it. -/
def chunkFetcher (source undoSource : BlockSource) (schedule : ChunkSchedule) : FetchChunk :=
  fun chunkStart chunkCount =>
    fetchAndDecodeChunk source undoSource (schedule chunkStart chunkCount) chunkStart chunkCount

/-- The same action, with the decoders of its chunks ready in another order. -/
inductive SameUpToOrder : Action → Action → Prop
  | same (action : Action) : SameUpToOrder action action
  | catchUp (config : CatchUpConfig) (bestHeight : ℕ) (source undoSource : BlockSource)
    (schedule schedule' : ChunkSchedule) : schedule.Possible → schedule'.Possible →
    SameUpToOrder (.catchUp config bestHeight (chunkFetcher source undoSource schedule))
      (.catchUp config bestHeight (chunkFetcher source undoSource schedule'))

end

end BitcoinData
