import BitcoinData.Spec.LightIndexer
import BitcoinData.Spec.SpentTxOuts

/-! `sources/src/rest.rs`, as far as undo data goes: the request for the spent outputs of a block,
whose answer is the payload itself or its hex digits. -/

namespace BitcoinData

open Lib

/-- `hex::decode`. -/
class HexCrate where
  decode : Bytes → Except String Bytes

/-! ## Requests -/

/-- An answer as `reqwest` gives it: whether the status is a success, the status and the trimmed
text for an error message, and the body. -/
structure HttpResponse where
  isSuccess : Bool
  status : String
  text : String
  bytes : Except String Bytes

structure RestSource where
  base : String
  /-- `client.get(url).send()`. -/
  send : String → Except String HttpResponse

namespace RestSource

def url (self : RestSource) (path : String) : String := self.base ++ path

def getBytes (self : RestSource) (path : String) : Except String Bytes := do
  let url := self.url path
  let resp ← self.send url
  if !resp.isSuccess then
    .error s!"REST {resp.status} for {url}: {resp.text}"
  else
    resp.bytes

end RestSource

/-! ## Binary or hex -/

/-- `u8::is_ascii_whitespace`: space, tab, line feed, form feed and carriage return. -/
def isAsciiWhitespace (b : UInt8) : Bool :=
  b = 0x20 || b = 0x09 || b = 0x0a || b = 0x0c || b = 0x0d

def isAsciiHexdigit (b : UInt8) : Bool :=
  (0x30 ≤ b && b ≤ 0x39) || (0x41 ≤ b && b ≤ 0x46) || (0x61 ≤ b && b ≤ 0x66)

section
variable [HexCrate]

def decodeRestBinaryOrHex (bytes : Bytes) (what : String) : Except String Bytes :=
  let trimmed := bytes.dropWhile isAsciiWhitespace
  let trimmed := trimmed.reverse.dropWhile isAsciiWhitespace
  let trimmed := trimmed.reverse
  if trimmed ≠ [] ∧ trimmed.length % 2 = 0 ∧ trimmed.all isAsciiHexdigit then
    match HexCrate.decode trimmed with
    | .ok decoded => .ok decoded
    | .error e => .error s!"REST {what} looked like hex but failed to decode: {e}"
  else
    .ok bytes

def RestSource.getBlockSpentTxouts (self : RestSource) (hash : BlockHashBytes) :
    Except DecodeFault (Option BlockSpentTxOuts) := do
  let bytes ← orFailed (self.getBytes s!"/rest/spenttxouts/{displayHash hash}.bin")
  let bytes ← orFailed (decodeRestBinaryOrHex bytes "spenttxouts")
  let spent ← decodeSpentTxoutsPayload bytes
  return some spent

/-- `hex::decode_to_slice` for 32 bytes, which are then reversed: a hash is displayed from its last
byte to its first. -/
def hashOfDisplay (digits : Bytes) : Except String BlockHashBytes := do
  let out ← HexCrate.decode digits
  if h : out.length = 32 then return ⟨out.reverse, by rw [List.length_reverse, h]⟩
  else .error "Invalid string length"

end

def asBytes (s : String) : Bytes := s.toList.flatMap String.utf8EncodeChar

/-! ## The two forms -/

/-- A digit of lower or upper case. -/
def hexDigitByte (upper : Bool) (n : ℕ) : UInt8 :=
  UInt8.ofNat (if n < 10 then 0x30 + n else if upper then 0x41 + (n - 10) else 0x61 + (n - 10))

def hexText (upper : Bool) (bytes : Bytes) : Bytes :=
  bytes.flatMap fun b => [hexDigitByte upper (b.toNat / 16), hexDigitByte upper (b.toNat % 16)]

/-- What is documented of `hex::decode`: digits of either case are read back. -/
structure DecodesHex [HexCrate] : Prop where
  decode_hexText : ∀ upper bytes, HexCrate.decode (hexText upper bytes) = .ok bytes

/-- What a server may send for a payload. -/
inductive RestForm (payload : Bytes) : Bytes → Prop
  | binary : RestForm payload payload
  | hex (upper : Bool) (before after : Bytes) : (∀ b ∈ before, isAsciiWhitespace b = true) →
    (∀ b ∈ after, isAsciiWhitespace b = true) →
    RestForm payload (before ++ hexText upper payload ++ after)

def MAX_MONEY_SAT : ℕ := 2_100_000_000_000_000

end BitcoinData
