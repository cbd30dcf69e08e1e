import Mathlib.Data.Nat.Digits.Defs
import BitcoinData.Lib.Groups
import BitcoinData.Lib.Result
import BitcoinData.Spec.SpentTxOuts

/-! `codec/leb128.rs`, and the number that a group of bytes stands for. The bytes behind the index
of the decoder are what is left to read. -/

namespace BitcoinData.Leb128

open Lib

theorem shiftRight_seven (value : UInt64) : (value >>> 7).toNat = value.toNat / 128 := by
  rw [UInt64.toNat_shiftRight]
  exact Nat.shiftRight_eq_div_pow _ 7

theorem shiftRight_seven_lt {value : UInt64} (h : value >>> 7 ≠ 0) :
    (value >>> 7).toNat < value.toNat := by
  have hne : (value >>> 7).toNat ≠ 0 := fun h0 => h (UInt64.toNat_inj.mp h0)
  rw [shiftRight_seven] at hne ⊢
  omega

/-! ## Encoding -/

def encodeOne (value : UInt64) (out : Bytes) : Bytes :=
  let byte := (value &&& 0x7f).toUInt8
  let next := value >>> 7
  if next ≠ 0 then encodeOne next (out ++ [byte ||| 0x80]) else out ++ [byte]
termination_by value.toNat
decreasing_by exact shiftRight_seven_lt ‹_›

def encodeLeb128Values (values : List UInt64) : Bytes :=
  values.foldl (fun out v => encodeOne v out) []

/-! ## Decoding -/

/-- The inner loop. -/
def decodeOne : ℕ → UInt64 → Bytes → Except DecodeFault (UInt64 × Bytes)
  | _, _, [] => .error (.failed "truncated LEB128 stream")
  | shift, value, byte :: bytes =>
    let value := value ||| ((byte &&& 0x7f).toUInt64 <<< UInt64.ofNat shift)
    if byte &&& 0x80 = 0 then .ok (value, bytes)
    else do
      orFailed (ensure (shift + 7 < 64) "LEB128 value is too large")
      decodeOne (shift + 7) value bytes

/-- The outer loop. -/
def decodeValues : ℕ → Bytes → Except DecodeFault (List UInt64)
  | 0, _ => .ok []
  | count + 1, bytes => do
    let (value, bytes) ← decodeOne 0 0 bytes
    let rest ← decodeValues count bytes
    return value :: rest

def U64_SIZE : ℕ := 8

def decodeLeb128Values (bytes : Bytes) (count : ℕ) : Except DecodeFault (List UInt64) := do
  withCapacity U64_SIZE count
  decodeValues count bytes

/-- `&[u64]`. No slice is larger than `isize::MAX` bytes. -/
structure U64Slice where
  values : List UInt64
  size_le : values.length * U64_SIZE ≤ ISIZE_MAX

/-! ## Groups -/

def continues (byte : UInt8) : Bool := 128 ≤ byte.toNat

/-- The sum of the lower seven bits of each byte, the `j`-th times `128 ^ j`. -/
def groupValue (group : Bytes) : ℕ := Nat.ofDigits 128 (group.map fun byte => byte.toNat % 128)

/-- What is decoded are the numbers of the groups at the front, and none that has more than 64
bits. -/
structure ReadsExactly (bytes : Bytes) (count : ℕ) : Prop where
  values : ∀ decoded, decodeLeb128Values bytes count = .ok decoded →
    ∃ groups rest, SplitsInto continues bytes groups rest ∧ groups.length = count ∧
      decoded.map UInt64.toNat = groups.map groupValue
  rejects : ∀ groups rest, SplitsInto continues bytes groups rest → groups.length ≤ count →
    (∃ group ∈ groups, 2 ^ 64 ≤ groupValue group) →
    ∀ decoded, decodeLeb128Values bytes count ≠ .ok decoded

/-- Where a stream begins with as many groups as are asked for, all of at most ten bytes, the tenth
byte of a group is 0 or 1. -/
def TenthBytesFit (bytes : Bytes) (count : ℕ) : Prop :=
  ∀ groups rest, SplitsInto continues bytes groups rest → groups.length = count →
    (∀ group ∈ groups, group.length ≤ 10) →
    ∀ init last, init ++ [last] ∈ groups → init.length = 9 → last.toNat ≤ 1

end BitcoinData.Leb128
