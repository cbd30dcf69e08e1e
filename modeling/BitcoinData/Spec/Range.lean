import BitcoinData.Lib.Result
import BitcoinData.Spec.Types

/-! `range.rs`: the frame around the blocks of one range response, and its parser. A slice outside
the input and an allocation that fails are faults of their own, next to the errors the parser
reports. -/

namespace BitcoinData

open Lib

def frameRange (messages : List Bytes) : Except String Bytes := do
  let count ← tryU32 messages.length
  let items ← messages.mapM fun message => do
    let len ← tryU32 message.length
    return u32ToLeBytes len ++ message
  return RANGE_MAGIC ++ u16ToLeBytes RANGE_VERSION ++ u32ToLeBytes count ++ items.flatten

def u32FromLeBytes (b₀ b₁ b₂ b₃ : UInt8) : UInt32 :=
  UInt32.ofNat (b₀.toNat + 256 * (b₁.toNat + 256 * (b₂.toNat + 256 * b₃.toNat)))

def readU16Le (bytes : Bytes) (label : String) : Except String UInt16 := do
  ensure (bytes.length = 2) s!"invalid {label} length {bytes.length}"
  return u16FromLeBytes (bytes.getD 0 0) (bytes.getD 1 0)

def readU32Le (bytes : Bytes) (label : String) : Except String UInt32 := do
  ensure (bytes.length = 4) s!"invalid {label} length {bytes.length}"
  return u32FromLeBytes (bytes.getD 0 0) (bytes.getD 1 0) (bytes.getD 2 0) (bytes.getD 3 0)

inductive RangeFault
  | failed (message : String)
  | sliceOutOfRange
  /-- The process aborts. -/
  | allocationFailed
deriving DecidableEq

/-- An `anyhow` error, as `?` passes it on. -/
def orFail {α : Type} : Except String α → Except RangeFault α
  | .ok a => .ok a
  | .error message => .error (.failed message)

/-- `bytes[start..end]`, which panics outside the slice. -/
def sliceRange (bytes : Bytes) (start stop : ℕ) : Except RangeFault Bytes :=
  if start ≤ stop ∧ stop ≤ bytes.length then .ok ((bytes.drop start).take (stop - start))
  else .error .sliceOutOfRange

/-- `size_of::<&[u8]>()`: a pointer and a length. -/
def SLICE_SIZE : ℕ := 16

/-- `Vec::with_capacity` for slices, where the allocator has `available` bytes. -/
def reserveSlices (available capacity : ℕ) : Except RangeFault Unit :=
  if capacity * SLICE_SIZE ≤ available then .ok () else .error .allocationFailed

/-- The loop `for _ in 0..count` of `parse_range`, from the position `pos`. The position stays
inside the input, so `pos + 4` and `pos + len` do not wrap. -/
def parseRangeItems (bytes : Bytes) : ℕ → ℕ → Except RangeFault (List Bytes × ℕ)
  | 0, pos => .ok ([], pos)
  | count + 1, pos => do
    orFail (ensure (pos + 4 ≤ bytes.length) "truncated range item length")
    let len ← orFail (readU32Le (← sliceRange bytes pos (pos + 4)) "range item length")
    let pos := pos + 4
    orFail (ensure (pos + len.toNat ≤ bytes.length) "truncated range item body")
    let item ← sliceRange bytes pos (pos + len.toNat)
    let (rest, pos) ← parseRangeItems bytes count (pos + len.toNat)
    return (item :: rest, pos)

def parseRange (available : ℕ) (bytes : Bytes) : Except RangeFault (List Bytes) := do
  orFail (ensure (bytes.length ≥ 10) "range frame too short")
  let magic ← sliceRange bytes 0 4
  orFail (ensure (magic = RANGE_MAGIC) "bad range magic")
  let version ← orFail (readU16Le (← sliceRange bytes 4 6) "range version")
  orFail (ensure (version = RANGE_VERSION) s!"unsupported range version: {version}")
  let count ← orFail (readU32Le (← sliceRange bytes 6 10) "range item count")
  reserveSlices available count.toNat
  let (out, pos) ← parseRangeItems bytes count.toNat 10
  orFail (ensure (pos = bytes.length) "trailing bytes after range frame")
  return out

end BitcoinData
