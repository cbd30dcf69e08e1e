import BitcoinData.Spec.LightIndexer
import BitcoinData.Spec.Range

/-! `server.rs`: the two block endpoints. A request reads the tip, the manifest and the block
files of one state of the archive. The bodies are frames of packed blocks (`range.rs`) or the JSON
of the decoded blocks (`json_wire.rs`), written as `serde_json::to_vec_pretty` writes them. -/

namespace BitcoinData

open Lib

inductive StatusCode
  | badRequest
  | internalServerError
deriving DecidableEq

structure ApiError where
  status : StatusCode
  error : String
deriving DecidableEq

/-- `ApiError::bad_request` unless the condition holds. -/
def ensureRequest (c : Prop) [Decidable c] (message : String) : Except ApiError Unit :=
  if c then .ok () else .error ⟨.badRequest, message⟩

/-- `ApiError::internal`, as `?` applies it. -/
def internal {α : Type} : Except String α → Except ApiError α
  | .ok a => .ok a
  | .error message => .error ⟨.internalServerError, message⟩

structure AppState where
  archive : FileArchive
  maxRangeCount : UInt32
  maxResponseBytes : ℕ

structure SyncRangeQuery where
  start : ℕ
  count : Option UInt32
  cutthrough : Bool
  cutthroughStart : Option ℕ
  cutthroughTip : Option ℕ
  filterReuse : Bool
  labels : Option UInt16
  maxBytes : Option ℕ

structure SingleBlockQuery where
  cutthrough : Bool
  cutthroughStart : Option ℕ
  cutthroughTip : Option ℕ
  filterReuse : Bool
  labels : Option UInt16

inductive ResponseFormat
  | capnp
  | json
deriving DecidableEq

def splitText (separator : Char) : List Char → List (List Char)
  | [] => [[]]
  | c :: text =>
    if c = separator then [] :: splitText separator text
    else
      match splitText separator text with
      | [] => [[c]]
      | part :: parts => (c :: part) :: parts

def trimText (text : List Char) : List Char :=
  ((text.dropWhile Char.isWhitespace).reverse.dropWhile Char.isWhitespace).reverse

/-- The first media type that the server knows decides; `none` is a header that is absent or not
readable as text. -/
def responseFormat (accept : Option (List Char)) : Except String ResponseFormat :=
  match accept with
  | none => .ok .capnp
  | some accept =>
    let mediaTypes := (splitText ',' accept).map fun part =>
      trimText ((splitText ';' part).headD [])
    let formats := mediaTypes.filterMap fun mediaType =>
      if mediaType = "application/json".toList ∨ mediaType = "text/json".toList then
        some ResponseFormat.json
      else if mediaType = "application/octet-stream".toList ∨ mediaType = "*/*".toList then
        some ResponseFormat.capnp
      else none
    okOr formats.head?
      "unsupported Accept header; use application/octet-stream or application/json"

/-! ## Tips and caching -/

def servedTip (archive : FileArchive) : Except String ChainTip :=
  okOr archive.tip "archive has no served tip"

def ensureHeightServed (height : ℕ) (tip : ChainTip) : Except String Unit :=
  ensure (height ≤ tip.height) s!"height {height} is above served tip {tip.height}"

def resolveCutthroughTip (cutthroughStart cutthroughTip : Option ℕ) (tip : ChainTip) :
    Except ApiError (Option ℕ) :=
  match cutthroughStart with
  | none => .ok none
  | some cutthroughStart => do
    ensureRequest (cutthroughStart ≤ tip.height)
      s!"cutthrough_start {cutthroughStart} is above served tip {tip.height}"
    let cutthroughTip := cutthroughTip.getD tip.height
    ensureRequest (cutthroughStart ≤ cutthroughTip)
      s!"cutthrough_tip {cutthroughTip} is below cutthrough_start {cutthroughStart}"
    ensureRequest (cutthroughTip ≤ tip.height)
      s!"cutthrough_tip {cutthroughTip} is above served tip {tip.height}"
    return some cutthroughTip

def ensureCutthroughTipCoversHeight (cutthroughTip : Option ℕ) (requiredHeight : ℕ) :
    Except ApiError Unit :=
  match cutthroughTip with
  | none => .ok ()
  | some cutthroughTip => ensureRequest (requiredHeight ≤ cutthroughTip)
      s!"cutthrough_tip {cutthroughTip} is below required response height {requiredHeight}"

inductive CacheControl
  | noCache
  /-- `public, max-age=31536000, immutable`. -/
  | immutable
deriving DecidableEq

def cacheControl (manifest : Manifest) (tip : ChainTip) (height : ℕ) : CacheControl :=
  if manifest.finalityDepth ≤ tip.height - height then .immutable else .noCache

def filteredCacheControl (manifest : Manifest) (tip : ChainTip) (height : ℕ)
    (cutthroughStart requestedCutthroughTip : Option ℕ) : CacheControl :=
  if cutthroughStart.isSome ∧ requestedCutthroughTip.isNone then .noCache
  else cacheControl manifest tip height

/-! ## Bodies -/

def jsonNumber (n : ℕ) : List Char := Nat.toDigits 10 n

/-- The texts of these bodies have nothing to escape. -/
def jsonString (text : List Char) : List Char := ['"'] ++ text ++ ['"']

def jsonBool (b : Bool) : List Char := if b then "true".toList else "false".toList

def jsonIndent (level : ℕ) : List Char := List.replicate (2 * level) ' '

/-- The lines between two brackets, each one level deeper. -/
def jsonLines (level : ℕ) (opening closing : Char) (lines : List (List Char)) : List Char :=
  if lines = [] then [opening, closing]
  else [opening, '\n'] ++ [',', '\n'].intercalate (lines.map (jsonIndent (level + 1) ++ ·)) ++
    ['\n'] ++ jsonIndent level ++ [closing]

def jsonArray (level : ℕ) (items : List (List Char)) : List Char := jsonLines level '[' ']' items

def jsonObject (level : ℕ) (fields : List (String × List Char)) : List Char :=
  jsonLines level '\x7b' '\x7d' (fields.map fun field => jsonString field.1.toList ++ [':', ' '] ++ field.2)

def jsonBytes (text : List Char) : Bytes := text.map fun c => UInt8.ofNat c.toNat

def spentIdCodecName : SpentIdCodec → String
  | .eliasDeltaAscendingAbsolute => "eliasDeltaAscendingAbsolute"

/-- `JsonLightBlock`, its fields in the order of the declaration. -/
def lightBlockInputToJson (level : ℕ) (input : LightBlockInput) :
    Except String (List (String × List Char)) := do
  let decodedSpends ← decodeLightBlockSpentIds input
  return [
    ("version", jsonNumber WIRE_VERSION.toNat),
    ("height", jsonNumber input.height),
    ("block_hash", jsonString (hexEncode input.blockHash.bytes)),
    ("previous_block_hash", jsonString (hexEncode input.previousBlockHash.bytes)),
    ("first_uid", jsonNumber input.firstUid.toNat),
    ("tx_count", jsonNumber input.txCount.toNat),
    ("skipped_txs_for_tweaks_bitmap", jsonString (hexEncode input.skippedTxsForTweaks)),
    ("tweaks", jsonArray (level + 1) (input.tweaks.map fun entry => jsonObject (level + 2) [
      ("output_count", jsonNumber entry.outputCount.toNat),
      ("tweak", jsonString (hexEncode (entry.tweak.bytes.drop 1)))])),
    ("truncated_output_hash_bits", jsonNumber input.truncatedOutputHashBits.toNat),
    ("truncated_output_hash_bytes", jsonNumber input.truncatedOutputHashes.length),
    ("truncated_output_hashes", jsonString (hexEncode input.truncatedOutputHashes)),
    ("spent_id_codec", jsonString (spentIdCodecName input.spentIdCodec).toList),
    ("spent_count", jsonNumber input.spentCount.toNat),
    ("spent_id_bytes", jsonNumber input.spentIds.length),
    ("spent_ids", jsonString (hexEncode input.spentIds)),
    ("decoded_spent_ids", jsonArray (level + 1) (decodedSpends.map fun uid => jsonNumber uid.toNat))]

/-- The object of a `serde_json::Value`, whose keys are sorted. -/
def jsonValue (level : ℕ) (fields : List (String × List Char)) : List Char :=
  jsonObject level (fields.mergeSort fun a b => decide (a.1 ≤ b.1))

/-! ## The endpoints -/

structure BlockResponse where
  body : Bytes
  cacheControl : CacheControl
  height : ℕ
  blockHash : BlockHashBytes

/-- A range body with its continuation headers. The blocks that `block_range` puts into the body
stand beside it. -/
structure RangeResponse where
  messages : List Bytes
  body : Bytes
  cacheControl : CacheControl
  start : ℕ
  last : ℕ
  requestedEnd : ℕ
  count : UInt32
  complete : Bool
  nextStart : Option ℕ

section
variable [Externals]

def lightBlockToJson (level : ℕ) (payload : Bytes) : Except String (List (String × List Char)) := do
  lightBlockInputToJson level (← decodeLightBlock payload)

def blockBody (format : ResponseFormat) (payload : Bytes) : Except String Bytes :=
  match format with
  | .capnp => .ok payload
  | .json => do
    let fields ← lightBlockToJson 0 payload
    return jsonBytes (jsonObject 0 fields)

def SingleBlockQuery.boundary (q : SingleBlockQuery) (height : ℕ) : Option ℕ :=
  q.cutthroughStart.or (if q.cutthrough then some height else none)

def singleBlock (state : AppState) (height : ℕ) (q : SingleBlockQuery) (accept : Option (List Char)) :
    Except ApiError BlockResponse := do
  let format ← internal (responseFormat accept)
  let tip ← internal (servedTip state.archive)
  internal (ensureHeightServed height tip)
  let manifest ← internal state.archive.readManifest
  let cutthroughStart := q.boundary height
  let cutthroughTip ← resolveCutthroughTip cutthroughStart q.cutthroughTip tip
  ensureCutthroughTipCoversHeight cutthroughTip height
  let filter := ⟨cutthroughStart, cutthroughTip, q.filterReuse, q.labels⟩
  let served ← internal (state.archive.readBlockFilteredWithHash height filter)
  let cacheControl := filteredCacheControl manifest tip height cutthroughStart q.cutthroughTip
  let body ← internal (blockBody format served.payload)
  return { body, cacheControl, height, blockHash := served.blockHash }

def rangeFrameHeaderLen : ℕ := 4 + 2 + 4

def rangeFrameItemLen (payloadLen : ℕ) : ℕ := 4 + payloadLen

def checkedAddUsize (a b : ℕ) : Option ℕ := if a + b < 2 ^ 64 then some (a + b) else none

/-- The loop of `block_range` with `offsets` rounds to go: it stops before a block that would pass
the cap, and after a first block that is larger than the cap by itself. -/
def rangeMessages (archive : FileArchive) (filter : StoredBlockResponseFilter) (maxResponseBytes : ℕ) :
    ℕ → ℕ → List Bytes → ℕ → Except String (List Bytes)
  | 0, _, messages, _ => .ok messages
  | offsets + 1, height, messages, framedBytes => do
    let served ← archive.readBlockFilteredWithHash height filter
    let projected ← okOr (checkedAddUsize framedBytes (rangeFrameItemLen served.payload.length))
      "range response size overflow"
    if messages ≠ [] ∧ maxResponseBytes < projected then .ok messages
    else if maxResponseBytes < projected then .ok (messages ++ [served.payload])
    else
      rangeMessages archive filter maxResponseBytes offsets (height + 1)
        (messages ++ [served.payload]) projected

/-- The `json!` of a range, its keys sorted. -/
def rangeJson (start last requestedEnd count : ℕ) (complete : Bool) (nextStart : Option ℕ)
    (blocks : List (List Char)) : List Char :=
  jsonObject 0 [
    ("blocks", jsonArray 1 blocks),
    ("complete", jsonBool complete),
    ("count", jsonNumber count),
    ("end", jsonNumber last),
    ("format", jsonString "light-block-range".toList),
    ("next_start", nextStart.elim "null".toList jsonNumber),
    ("requested_end", jsonNumber requestedEnd),
    ("start", jsonNumber start),
    ("version", jsonNumber WIRE_VERSION.toNat)]

def rangeBody (format : ResponseFormat) (start last requestedEnd count : ℕ) (complete : Bool)
    (nextStart : Option ℕ) (messages : List Bytes) : Except String Bytes :=
  match format with
  | .capnp => frameRange messages
  | .json => do
    let blocks ← messages.mapM fun payload => do
      return jsonValue 2 (← lightBlockToJson 2 payload)
    return jsonBytes (rangeJson start last requestedEnd count complete nextStart blocks)

def SyncRangeQuery.requestedCount (q : SyncRangeQuery) (maxRangeCount : UInt32) : UInt32 :=
  q.count.getD maxRangeCount

def SyncRangeQuery.boundary (q : SyncRangeQuery) : Option ℕ :=
  q.cutthroughStart.or (if q.cutthrough then some q.start else none)

def SyncRangeQuery.clampedCount (q : SyncRangeQuery) (maxRangeCount : UInt32) (tip : ChainTip) : ℕ :=
  min (q.requestedCount maxRangeCount).toNat (min (tip.height - q.start + 1) U32_MAX)

def blockRange (state : AppState) (q : SyncRangeQuery) (accept : Option (List Char)) :
    Except ApiError RangeResponse := do
  let requestedCount := q.requestedCount state.maxRangeCount
  ensureRequest (requestedCount ≠ 0) "count must be greater than zero"
  ensureRequest (requestedCount ≤ state.maxRangeCount)
    s!"count {requestedCount} exceeds max_range_count {state.maxRangeCount}"
  let maxResponseBytes := q.maxBytes.getD state.maxResponseBytes
  ensureRequest (maxResponseBytes ≠ 0) "max_bytes must be greater than zero"
  ensureRequest (maxResponseBytes ≤ state.maxResponseBytes)
    s!"max_bytes {maxResponseBytes} exceeds server max_response_bytes {state.maxResponseBytes}"
  let format ← internal (responseFormat accept)
  let tip ← internal (servedTip state.archive)
  let manifest ← internal state.archive.readManifest
  ensureRequest (q.start ≤ tip.height) s!"start height {q.start} is above served tip {tip.height}"
  let requestedCount := q.clampedCount state.maxRangeCount tip
  let requestedEnd := q.start + requestedCount - 1
  let cutthroughStart := q.boundary
  let cutthroughTip ← resolveCutthroughTip cutthroughStart q.cutthroughTip tip
  ensureCutthroughTipCoversHeight cutthroughTip requestedEnd
  let filter := ⟨cutthroughStart, cutthroughTip, q.filterReuse, q.labels⟩
  let messages ← internal (rangeMessages state.archive filter maxResponseBytes requestedCount q.start []
    rangeFrameHeaderLen)
  internal (ensure (messages ≠ [])
    s!"range response builder made no progress from start height {q.start}")
  let count ← internal (tryU32 messages.length)
  let last := q.start + count.toNat - 1
  let complete := decide (requestedEnd ≤ last)
  let nextStart := if complete then none else some (last + 1)
  let cacheControl := filteredCacheControl manifest tip last cutthroughStart q.cutthroughTip
  let body ← internal (rangeBody format q.start last requestedEnd count.toNat complete nextStart messages)
  return { messages, body, cacheControl, start := q.start, last, requestedEnd, count, complete, nextStart }

end

end BitcoinData
