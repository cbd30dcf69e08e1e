import BitcoinData.Lib.Result
import BitcoinData.Spec.Types

/-! The Elias-delta bit codec of `codec/elias_delta.rs`: a bit writer and a bit
reader over bytes, most significant bit first, and the code of one value. -/

namespace BitcoinData

open Lib

/-- Number of bits of `n` without leading zeros. -/
def bitLength (n : ℕ) : ℕ := if n = 0 then 0 else n.log2 + 1

def leadingZeros (width n : ℕ) : ℕ := width - bitLength n

structure BitWriter where
  bytes : Bytes
  bitLen : ℕ

namespace BitWriter

def default : BitWriter := ⟨[], 0⟩

def pushBit (w : BitWriter) (bit : Bool) : BitWriter :=
  let bytes := if w.bitLen % 8 = 0 then w.bytes ++ [0] else w.bytes
  let byte := w.bitLen / 8
  let shift := 7 - w.bitLen % 8
  { bytes := if bit then bytes.modify byte (· ||| (1 <<< UInt8.ofNat shift)) else bytes
    bitLen := w.bitLen + 1 }

/-- The low `bits` bits of `value`, highest first. -/
def pushBits (w : BitWriter) (value : UInt64) (bits : ℕ) : BitWriter :=
  (List.range bits).reverse.foldl
    (fun w i => w.pushBit (((value >>> UInt64.ofNat i) &&& 1) == 1)) w

def intoBytes (w : BitWriter) : Bytes := w.bytes

end BitWriter

structure BitReader where
  bytes : Bytes
  bitPos : ℕ

namespace BitReader

def new (bytes : Bytes) : BitReader := ⟨bytes, 0⟩

def readBit (r : BitReader) : Option (Bool × BitReader) :=
  if r.bitPos ≥ r.bytes.length * 8 then none
  else
    let byte := r.bitPos / 8
    let shift := 7 - r.bitPos % 8
    some (((r.bytes.getD byte 0 >>> UInt8.ofNat shift) &&& 1) == 1,
      { r with bitPos := r.bitPos + 1 })

def readBits (r : BitReader) (bits : ℕ) : Option (UInt64 × BitReader) :=
  (List.range bits).foldlM (fun (acc : UInt64 × BitReader) _ => do
    let (bit, r) ← acc.2.readBit
    return ((acc.1 <<< 1) ||| (if bit then 1 else 0), r)) (0, r)

end BitReader

def encodeOne (value : UInt64) (w : BitWriter) : Except String BitWriter := do
  ensure (1 ≤ value) "Elias-delta only encodes positive integers"
  let nBits := 64 - leadingZeros 64 value.toNat
  let lenBits := 32 - leadingZeros 32 nBits
  let w := (List.range (lenBits - 1)).foldl (fun w _ => w.pushBit false) w
  let w := w.pushBits (UInt64.ofNat nBits) lenBits
  if nBits > 1 then
    return w.pushBits (value ^^^ ((1 : UInt64) <<< UInt64.ofNat (nBits - 1))) (nBits - 1)
  else
    return w

def encodeEliasDeltaValues (values : List UInt64) : Except String Bytes := do
  let w ← values.foldlM (fun w value => encodeOne value w) BitWriter.default
  return w.intoBytes

/-- The prefix loop of `decode_one`. At most 63 zeros are accepted, so 64 rounds
of fuel are never used up. -/
def readZeros : ℕ → ℕ → BitReader → Except String (ℕ × BitReader)
  | 0, _, _ => .error "invalid Elias-delta prefix"
  | fuel + 1, zeros, r =>
    match r.readBit with
    | some (false, r') => do
      ensure (zeros + 1 ≤ 63) "invalid Elias-delta prefix"
      readZeros fuel (zeros + 1) r'
    | some (true, r') => .ok (zeros, r')
    | none => .error "truncated Elias-delta prefix"

def decodeOne (r : BitReader) : Except String (UInt64 × BitReader) := do
  let (zeros, r) ← readZeros 64 0 r
  let (low, r) ←
    if zeros > 0 then okOr (r.readBits zeros) "truncated Elias-delta length" else .ok (0, r)
  let nBits := ((1 : UInt64) <<< UInt64.ofNat zeros) ||| low
  ensure (1 ≤ nBits ∧ nBits ≤ 64) "invalid Elias-delta length"
  let tailBits := (nBits - 1).toNat
  let (tail, r) ←
    if tailBits = 0 then .ok (0, r) else okOr (r.readBits tailBits) "truncated Elias-delta value"
  return (((1 : UInt64) <<< UInt64.ofNat tailBits) ||| tail, r)

/-- The loop `for _ in 0..count` of `decode_elias_delta_values`. -/
def decodeValuesFrom : ℕ → BitReader → Except String (List UInt64)
  | 0, _ => .ok []
  | count + 1, r => do
    let (value, r) ← decodeOne r
    let rest ← decodeValuesFrom count r
    return value :: rest

def decodeEliasDeltaValues (bytes : Bytes) (count : ℕ) : Except String (List UInt64) :=
  decodeValuesFrom count (BitReader.new bytes)

end BitcoinData
