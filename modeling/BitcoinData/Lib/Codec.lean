import Mathlib.Data.List.Basic
import Mathlib.Tactic

/-! Self-delimiting byte codecs. A codec carries its round trip, so that codecs of
larger types are assembled without any further proof. -/

namespace Lib

/-- A writer and a reader that takes back exactly what the writer produced. -/
structure Codec (α : Type) where
  write : α → List UInt8
  read : List UInt8 → Option (α × List UInt8)
  read_write : ∀ a rest, read (write a ++ rest) = some (a, rest)

/-- The `k` lowest base-256 digits of `n`, lowest first. -/
def digits : ℕ → ℕ → List UInt8
  | 0, _ => []
  | k + 1, n => UInt8.ofNat (n % 256) :: digits k (n / 256)

def readDigits : ℕ → List UInt8 → Option (ℕ × List UInt8)
  | 0, bytes => some (0, bytes)
  | _ + 1, [] => none
  | k + 1, b :: bytes => (readDigits k bytes).map fun r => (b.toNat + 256 * r.1, r.2)

theorem readDigits_digits {k n : ℕ} (h : n < 256 ^ k) (rest : List UInt8) :
    readDigits k (digits k n ++ rest) = some (n, rest) := by
  induction k generalizing n with
  | zero =>
    obtain rfl : n = 0 := by simpa using h
    rfl
  | succ k ih =>
    have hq : n / 256 < 256 ^ k := by
      rw [pow_succ] at h
      omega
    have hb : (UInt8.ofNat (n % 256)).toNat = n % 256 :=
      UInt8.toNat_ofNat_of_lt' (Nat.mod_lt _ (by decide))
    simp only [digits, List.cons_append, readDigits, ih hq, Option.map_some, hb,
      Nat.mod_add_div]

/-- The number with the given base-256 digits, lowest first. -/
def fromDigits : List UInt8 → ℕ
  | [] => 0
  | b :: bytes => b.toNat + 256 * fromDigits bytes

@[simp] theorem length_digits (k n : ℕ) : (digits k n).length = k := by
  induction k generalizing n with
  | zero => rfl
  | succ k ih => rw [digits, List.length_cons, ih]

theorem zero_mem_digits {k n : ℕ} (h : n < 256 ^ k) : 0 ∈ digits (k + 1) n := by
  induction k generalizing n with
  | zero =>
    obtain rfl : n = 0 := by simpa using h
    exact List.mem_cons_self
  | succ k ih =>
    have hq : n / 256 < 256 ^ k := by
      rw [pow_succ] at h
      omega
    rw [digits]
    exact List.mem_cons_of_mem _ (ih hq)

theorem fromDigits_digits {k n : ℕ} (h : n < 256 ^ k) : fromDigits (digits k n) = n := by
  induction k generalizing n with
  | zero =>
    obtain rfl : n = 0 := by simpa using h
    rfl
  | succ k ih =>
    have hq : n / 256 < 256 ^ k := by
      rw [pow_succ] at h
      omega
    have hb : (UInt8.ofNat (n % 256)).toNat = n % 256 :=
      UInt8.toNat_ofNat_of_lt' (Nat.mod_lt _ (by decide))
    rw [digits, fromDigits, ih hq, hb, Nat.mod_add_div]

theorem digits_fromDigits (bytes : List UInt8) : digits bytes.length (fromDigits bytes) = bytes := by
  induction bytes with
  | nil => rfl
  | cons b bytes ih =>
    have hb := b.toNat_lt
    have hmod : (b.toNat + 256 * fromDigits bytes) % 256 = b.toNat := by omega
    have hdiv : (b.toNat + 256 * fromDigits bytes) / 256 = fromDigits bytes := by omega
    rw [List.length_cons, digits, fromDigits, hmod, hdiv, ih, UInt8.ofNat_toNat]

theorem fromDigits_lt (bytes : List UInt8) : fromDigits bytes < 256 ^ bytes.length := by
  induction bytes with
  | nil => decide
  | cons b bytes ih =>
    have hb := b.toNat_lt
    rw [fromDigits, List.length_cons, pow_succ]
    omega

def readOnes : List UInt8 → Option (ℕ × List UInt8)
  | [] => none
  | b :: bytes => if b = 0 then some (0, bytes) else (readOnes bytes).map fun r => (r.1 + 1, r.2)

theorem readOnes_count (n : ℕ) (rest : List UInt8) :
    readOnes (List.replicate n 1 ++ 0 :: rest) = some (n, rest) := by
  induction n with
  | zero => rfl
  | succ n ih => simp [List.replicate_succ, readOnes, ih]

namespace Codec

variable {α β : Type}

/-- Transport along a left inverse. -/
def via (c : Codec α) (repr : β → α) (back : α → β) (h : ∀ b, back (repr b) = b) : Codec β where
  write b := c.write (repr b)
  read bytes := (c.read bytes).map fun r => (back r.1, r.2)
  read_write b rest := by simp [c.read_write, h]

def pair (c : Codec α) (d : Codec β) : Codec (α × β) where
  write p := c.write p.1 ++ d.write p.2
  read bytes := (c.read bytes).bind fun r => (d.read r.2).map fun r' => ((r.1, r'.1), r'.2)
  read_write p rest := by simp [List.append_assoc, c.read_write, d.read_write]

/-- Eight digits behind a zero byte, or unary behind a one. -/
def nat : Codec ℕ where
  write n := if n < 256 ^ 8 then 0 :: digits 8 n else 1 :: (List.replicate n 1 ++ [0])
  read
    | [] => none
    | b :: bytes => if b = 0 then readDigits 8 bytes else readOnes bytes
  read_write n rest := by
    split_ifs with h
    · simpa using readDigits_digits h rest
    · simpa using readOnes_count n rest

def u8 : Codec UInt8 where
  write b := [b]
  read
    | [] => none
    | b :: bytes => some (b, bytes)
  read_write _ _ := rfl

def u16 : Codec UInt16 := nat.via UInt16.toNat UInt16.ofNat fun _ => UInt16.ofNat_toNat
def u32 : Codec UInt32 := nat.via UInt32.toNat UInt32.ofNat fun _ => UInt32.ofNat_toNat
def u64 : Codec UInt64 := nat.via UInt64.toNat UInt64.ofNat fun _ => UInt64.ofNat_toNat

def readMany (c : Codec α) : ℕ → List UInt8 → Option (List α × List UInt8)
  | 0, bytes => some ([], bytes)
  | n + 1, bytes =>
    (c.read bytes).bind fun r => (readMany c n r.2).map fun r' => (r.1 :: r'.1, r'.2)

theorem readMany_flatMap (c : Codec α) (l : List α) (rest : List UInt8) :
    c.readMany l.length (l.flatMap c.write ++ rest) = some (l, rest) := by
  induction l with
  | nil => rfl
  | cons a l ih =>
    simp [readMany, List.append_assoc, c.read_write, ih]

/-- The length, then the elements. -/
def list (c : Codec α) : Codec (List α) where
  write l := nat.write l.length ++ l.flatMap c.write
  read bytes := (nat.read bytes).bind fun r => c.readMany r.1 r.2
  read_write l rest := by
    rw [List.append_assoc, nat.read_write, Option.bind_some, readMany_flatMap]

end Codec

end Lib
