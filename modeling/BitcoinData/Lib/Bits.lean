import Mathlib.Data.Nat.Bitwise
import Mathlib.Tactic

/-! Numbers as lists of bits, highest bit first, and single bits of a list of bytes. -/

namespace Lib

/-! ## Numbers -/

/-- The low `n` bits of `v`, highest first. -/
def natBits (v : ℕ) : ℕ → List Bool
  | 0 => []
  | n + 1 => v.testBit n :: natBits v n

/-- The number that a list of bits stands for. -/
def ofBits (bits : List Bool) : ℕ := bits.foldl (fun acc b => 2 * acc + b.toNat) 0

@[simp] theorem length_natBits (v n : ℕ) : (natBits v n).length = n := by
  induction n with
  | zero => rfl
  | succ n ih => rw [natBits, List.length_cons, ih]

theorem foldl_bits (bits : List Bool) (acc : ℕ) :
    bits.foldl (fun acc b => 2 * acc + b.toNat) acc = acc * 2 ^ bits.length + ofBits bits := by
  induction bits generalizing acc with
  | nil => simp [ofBits]
  | cons b bits ih =>
    have hcons : ofBits (b :: bits) = (2 * 0 + b.toNat) * 2 ^ bits.length + ofBits bits := ih _
    rw [List.foldl_cons, ih, hcons, List.length_cons, pow_succ]
    ring

theorem ofBits_cons (b : Bool) (bits : List Bool) :
    ofBits (b :: bits) = b.toNat * 2 ^ bits.length + ofBits bits := by
  rw [ofBits, List.foldl_cons, foldl_bits]
  simp

theorem ofBits_lt (bits : List Bool) : ofBits bits < 2 ^ bits.length := by
  induction bits with
  | nil => decide
  | cons b bits ih =>
    rw [ofBits_cons, List.length_cons, pow_succ]
    cases b
    · simp only [Bool.toNat_false, Nat.zero_mul, Nat.zero_add]
      omega
    · simp only [Bool.toNat_true, Nat.one_mul]
      omega

theorem ofBits_natBits (v n : ℕ) : ofBits (natBits v n) = v % 2 ^ n := by
  induction n with
  | zero => simp [natBits, ofBits, Nat.mod_one]
  | succ n ih =>
    rw [natBits, ofBits_cons, ih, length_natBits, Nat.mod_pow_succ, Nat.toNat_testBit]
    ring

/-- The top bit of a number and the bits below it. -/
theorem or_mod_two_pow {v k : ℕ} (hlo : 2 ^ k ≤ v) (hhi : v < 2 ^ (k + 1)) :
    1 <<< k ||| v % 2 ^ k = v := by
  have hor := Nat.two_pow_add_eq_or_of_lt (Nat.mod_lt v (Nat.two_pow_pos k)) 1
  rw [Nat.mul_one] at hor
  rw [Nat.one_shiftLeft, ← hor]
  have hdiv : v / 2 ^ k = 1 := by
    apply Nat.div_eq_of_lt_le
    · omega
    · rw [pow_succ] at hhi
      omega
  have h := Nat.div_add_mod v (2 ^ k)
  rw [hdiv] at h
  omega

/-! ## Bytes -/

theorem and_one_of_shiftRight8 (b : UInt8) {s : ℕ} (hs : s < 8) :
    (b >>> UInt8.ofNat s) &&& 1 = if b.toNat.testBit s then 1 else 0 := by
  apply UInt8.toNat_inj.mp
  have hs' : (UInt8.ofNat s).toNat % 8 = s := by
    rw [UInt8.toNat_ofNat_of_lt' (by unfold UInt8.size; omega), Nat.mod_eq_of_lt hs]
  rw [UInt8.toNat_and, UInt8.toNat_shiftRight, hs', UInt8.toNat_one, Nat.and_one_is_mod,
    Nat.shiftRight_eq_div_pow]
  rw [Nat.testBit_eq_decide_div_mod_eq]
  rcases Nat.mod_two_eq_zero_or_one (b.toNat / 2 ^ s) with h | h
  · simp [h]
  · simp [h]

theorem and_one_of_shiftRight64 (v : UInt64) {s : ℕ} (hs : s < 64) :
    (v >>> UInt64.ofNat s) &&& 1 = if v.toNat.testBit s then 1 else 0 := by
  apply UInt64.toNat_inj.mp
  have hs' : (UInt64.ofNat s).toNat % 64 = s := by
    rw [UInt64.toNat_ofNat_of_lt' (by unfold UInt64.size; omega), Nat.mod_eq_of_lt hs]
  rw [UInt64.toNat_and, UInt64.toNat_shiftRight, hs', UInt64.toNat_one, Nat.and_one_is_mod,
    Nat.shiftRight_eq_div_pow]
  rw [Nat.testBit_eq_decide_div_mod_eq]
  rcases Nat.mod_two_eq_zero_or_one (v.toNat / 2 ^ s) with h | h
  · simp [h]
  · simp [h]

theorem testBit_or_shiftLeft8 (b : UInt8) {s : ℕ} (hs : s < 8) (t : ℕ) :
    (b ||| (1 <<< UInt8.ofNat s)).toNat.testBit t = (b.toNat.testBit t || decide (t = s)) := by
  have hs' : (UInt8.ofNat s).toNat % 8 = s := by
    rw [UInt8.toNat_ofNat_of_lt' (by unfold UInt8.size; omega), Nat.mod_eq_of_lt hs]
  have hpow : 1 <<< s % 2 ^ 8 = 2 ^ s := by
    rw [Nat.one_shiftLeft]
    exact Nat.mod_eq_of_lt (Nat.pow_lt_pow_right (by omega) hs)
  rw [UInt8.toNat_or, UInt8.toNat_shiftLeft, hs', UInt8.toNat_one, hpow, Nat.testBit_or,
    Nat.testBit_two_pow]
  congr 1
  simp [eq_comm]

/-- Bit `s` of byte `i`; bytes past the end count as zero. -/
def byteBit (bytes : List UInt8) (i s : ℕ) : Bool := (bytes.getD i 0).toNat.testBit s

theorem byteBit_modify {bytes : List UInt8} {i s : ℕ} (hi : i < bytes.length) (hs : s < 8)
    (j t : ℕ) :
    byteBit (bytes.modify i (· ||| (1 <<< UInt8.ofNat s))) j t =
      (byteBit bytes j t || decide (j = i ∧ t = s)) := by
  unfold byteBit
  rw [List.getD_eq_getElem?_getD, List.getD_eq_getElem?_getD, List.getElem?_modify]
  by_cases hj : i = j
  · subst hj
    simp only [if_true, List.getElem?_eq_getElem hi, Option.map_eq_map, Option.map_some,
      Option.getD_some, true_and]
    exact testBit_or_shiftLeft8 _ hs t
  · have hj' : ¬ j = i := fun h => hj h.symm
    simp [hj, hj']

theorem byteBit_append_zero (bytes : List UInt8) (i s : ℕ) :
    byteBit (bytes ++ [0]) i s = byteBit bytes i s := by
  unfold byteBit
  rw [List.getD_eq_getElem?_getD, List.getD_eq_getElem?_getD]
  rcases Nat.lt_trichotomy i bytes.length with h | h | h
  · rw [List.getElem?_append_left h]
  · rw [h, List.getElem?_append_right (le_refl _), Nat.sub_self, List.getElem?_eq_none (le_refl _)]
    rfl
  · rw [List.getElem?_append_right (by omega), List.getElem?_eq_none (by simp; omega),
      List.getElem?_eq_none (by omega)]

theorem natBits_ofBits (c : ℕ) (l : List Bool) :
    natBits (2 ^ l.length * c + ofBits l) l.length = l := by
  induction l generalizing c with
  | nil => rfl
  | cons b l ih =>
    have hsplit : 2 ^ (b :: l).length * c + ofBits (b :: l) =
        2 ^ l.length * (2 * c + b.toNat) + ofBits l := by
      rw [ofBits_cons, List.length_cons, pow_succ]
      ring
    rw [hsplit, List.length_cons, natBits, ih, Nat.testBit_two_pow_mul_add _ (ofBits_lt l),
      if_neg (lt_irrefl _),
      Nat.sub_self, Nat.testBit_zero]
    cases b
    · simp
    · simp

theorem natBits_getD {v n k : ℕ} (hk : k < n) :
    (natBits v n).getD k false = v.testBit (n - 1 - k) := by
  induction n generalizing k with
  | zero => omega
  | succ n ih =>
    cases k with
    | zero => rfl
    | succ k =>
      rw [natBits, List.getD_cons_succ, ih (by omega)]
      congr 1
      omega

/-- The bits of a byte string, most significant bit of each byte first. -/
def bytesBits (bytes : List UInt8) : List Bool := bytes.flatMap fun b => natBits b.toNat 8

@[simp] theorem length_bytesBits (bytes : List UInt8) :
    (bytesBits bytes).length = bytes.length * 8 := by
  induction bytes with
  | nil => rfl
  | cons b bytes ih =>
    rw [bytesBits] at ih
    rw [bytesBits, List.flatMap_cons, List.length_append, length_natBits, ih, List.length_cons]
    omega

theorem bytesBits_getD (bytes : List UInt8) (p : ℕ) :
    (bytesBits bytes).getD p false = byteBit bytes (p / 8) (7 - p % 8) := by
  induction bytes generalizing p with
  | nil => simp [bytesBits, byteBit]
  | cons b bytes ih =>
    have hlen := length_natBits b.toNat 8
    rw [bytesBits] at ih
    rw [bytesBits, List.flatMap_cons]
    by_cases hp : p < 8
    · rw [List.getD_append _ _ _ _ (by omega), natBits_getD hp, byteBit, Nat.div_eq_of_lt hp,
        Nat.mod_eq_of_lt hp,
        List.getD_cons_zero]
    · obtain ⟨q, rfl⟩ := Nat.exists_eq_add_of_le' (not_lt.mp hp)
      rw [List.getD_append_right _ _ _ _ (by omega), hlen, Nat.add_sub_cancel, ih, byteBit, byteBit,
        Nat.add_div_right _ (by omega), Nat.add_mod_right, List.getD_cons_succ]

/-- A byte string that holds the bits `l`, and zeros behind them. -/
theorem bytesBits_eq {bytes : List UInt8} {l : List Bool} (hroom : l.length ≤ bytes.length * 8)
    (h : ∀ p, byteBit bytes (p / 8) (7 - p % 8) = l.getD p false) :
    bytesBits bytes = l ++ List.replicate (bytes.length * 8 - l.length) false := by
  apply List.ext_getElem?
  intro p
  have hlen := length_bytesBits bytes
  by_cases hp : p < bytes.length * 8
  · have hget := bytesBits_getD bytes p
    rw [h, List.getD_eq_getElem?_getD, List.getElem?_eq_getElem (by omega), Option.getD_some] at hget
    rw [List.getElem?_eq_getElem (by omega), hget]
    by_cases hlt : p < l.length
    · rw [List.getElem?_append_left hlt, List.getD_eq_getElem?_getD, List.getElem?_eq_getElem hlt,
        Option.getD_some]
    · rw [List.getElem?_append_right (by omega), List.getElem?_replicate, if_pos (by omega),
        List.getD_eq_getElem?_getD, List.getElem?_eq_none (by omega), Option.getD_none]
  · rw [List.getElem?_eq_none (by omega), List.getElem?_eq_none (by simp; omega)]

theorem getD_concat (l : List Bool) (bit : Bool) (p : ℕ) :
    (l ++ [bit]).getD p false = (l.getD p false || (bit && decide (p = l.length))) := by
  rw [List.getD_eq_getElem?_getD, List.getD_eq_getElem?_getD]
  rcases Nat.lt_trichotomy p l.length with hp | hp | hp
  · rw [List.getElem?_append_left hp]
    simp [Nat.ne_of_lt hp]
  · subst hp
    simp
  · rw [List.getElem?_append_right (by omega), List.getElem?_eq_none (by simp; omega),
      List.getElem?_eq_none (by omega)]
    simp [Nat.ne_of_gt hp]

theorem bytesBits_injective : Function.Injective bytesBits := by
  intro xs
  induction xs with
  | nil =>
    intro ys h
    have hlen := congrArg List.length h
    rw [length_bytesBits, length_bytesBits, List.length_nil] at hlen
    exact (List.length_eq_zero_iff.mp (by omega)).symm
  | cons x xs ih =>
    intro ys h
    cases ys with
    | nil =>
      have hlen := congrArg List.length h
      rw [length_bytesBits, length_bytesBits, List.length_cons, List.length_nil] at hlen
      omega
    | cons y ys =>
      rw [bytesBits, bytesBits, List.flatMap_cons, List.flatMap_cons] at h
      obtain ⟨hbits, hrest⟩ := List.append_inj h (by rw [length_natBits, length_natBits])
      have hx := ofBits_natBits x.toNat 8
      rw [hbits, ofBits_natBits, Nat.mod_eq_of_lt x.toNat_lt, Nat.mod_eq_of_lt y.toNat_lt] at hx
      rw [ih hrest, UInt8.toNat_inj.mp hx]

end Lib
