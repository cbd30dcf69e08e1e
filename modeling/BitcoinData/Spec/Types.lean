import Mathlib.Algebra.Group.Nat.Defs
import Mathlib.Data.List.Basic

/-! Byte strings and the fixed-size byte newtypes of `types.rs`. Block heights
are `u64` in the source and natural numbers here: every height that reaches the
disk has passed the check against `u32::MAX`, so no addition on them wraps.
Other machine integers keep their width. -/

namespace BitcoinData

abbrev Bytes := List UInt8

/-- A byte string of known length, `[u8; n]`. -/
structure FixedBytes (n : ℕ) where
  bytes : Bytes
  length_eq : bytes.length = n
deriving DecidableEq

/-- `[byte; n]`. -/
def FixedBytes.fill (n : ℕ) (byte : UInt8) : FixedBytes n :=
  ⟨List.replicate n byte, List.length_replicate⟩

@[ext] theorem FixedBytes.ext {n : ℕ} {a b : FixedBytes n} (h : a.bytes = b.bytes) : a = b := by
  cases a; cases b; simp_all

abbrev BlockHashBytes := FixedBytes 32
abbrev TxidBytes := FixedBytes 32
abbrev XOnlyKey := FixedBytes 32
/-- A compressed 33-byte scan point. -/
abbrev TxTweak := FixedBytes 33

def U16_MAX : ℕ := 2 ^ 16 - 1
def U32_MAX : ℕ := 2 ^ 32 - 1
def U64_MAX : ℕ := 2 ^ 64 - 1

def WIRE_VERSION : UInt16 := 1
/-- `b"BDSR"`. -/
def RANGE_MAGIC : Bytes := [0x42, 0x44, 0x53, 0x52]
def RANGE_VERSION : UInt16 := 1
def DEFAULT_MAX_RANGE_COUNT : UInt32 := 1000

def u16ToLeBytes (v : UInt16) : Bytes := [v.toUInt8, (v >>> 8).toUInt8]

def u16FromLeBytes (lo hi : UInt8) : UInt16 := lo.toUInt16 ||| (hi.toUInt16 <<< 8)

def u32ToLeBytes (v : UInt32) : Bytes :=
  [v.toUInt8, (v >>> 8).toUInt8, (v >>> 16).toUInt8, (v >>> 24).toUInt8]

end BitcoinData
