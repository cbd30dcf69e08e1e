import BitcoinData.Lib.Bits
import BitcoinData.Spec.EliasDelta

/-! The bit writer, the bit reader and the Elias-delta code, over lists of bits: a
value that was written is read back, and the reader then stands behind it. -/

namespace BitcoinData

open Lib

/-! ## Writer and reader -/

/-- The writer holds the bits `l`, padded with zeros to whole bytes. -/
structure Writes (w : BitWriter) (l : List Bool) : Prop where
  bitLen : w.bitLen = l.length
  length : w.bytes.length = (l.length + 7) / 8
  bits : ∀ p, byteBit w.bytes (p / 8) (7 - p % 8) = l.getD p false

theorem writes_default : Writes BitWriter.default [] where
  bitLen := rfl
  length := rfl
  bits := by
    intro p
    simp [byteBit, BitWriter.default]

theorem Writes.pushBit {w : BitWriter} {l : List Bool} (h : Writes w l) (bit : Bool) :
    Writes (w.pushBit bit) (l ++ [bit]) := by
  obtain ⟨hlen, hbytes, hbits⟩ := h
  -- room for one more bit
  set bytes := if w.bitLen % 8 = 0 then w.bytes ++ [0] else w.bytes with hb
  have hbytes' : bytes.length = l.length / 8 + 1 := by
    rw [hb, hlen]
    split_ifs with h8
    · rw [List.length_append, hbytes, List.length_singleton]
      omega
    · rw [hbytes]
      omega
  have hbits' : ∀ i s, byteBit bytes i s = byteBit w.bytes i s := by
    intro i s
    rw [hb]
    split_ifs
    · exact byteBit_append_zero _ _ _
    · rfl
  refine ⟨by simp [BitWriter.pushBit, hlen], ?_, fun p => ?_⟩
  · rw [BitWriter.pushBit, ← hb, List.length_append, List.length_singleton]
    cases bit
    · simp only [Bool.false_eq_true, if_false, hbytes']
      omega
    · simp only [if_true, List.length_modify, hbytes']
      omega
  · rw [getD_concat, BitWriter.pushBit, ← hb, ← hbits p]
    cases bit
    · simp only [Bool.false_eq_true, if_false, hbits', Bool.false_and, Bool.or_false]
    · have hlt : w.bitLen / 8 < bytes.length := by
        rw [hbytes', hlen]
        omega
      simp only [if_true, Bool.true_and]
      rw [byteBit_modify hlt (by omega), hbits', hlen]
      congr 1
      rw [decide_eq_decide]
      omega

theorem Writes.pushBits {w : BitWriter} {l : List Bool} (h : Writes w l) (value : UInt64)
    {bits : ℕ} (hle : bits ≤ 64) :
    Writes (w.pushBits value bits) (l ++ natBits value.toNat bits) := by
  unfold BitWriter.pushBits
  induction bits generalizing w l with
  | zero => simpa [natBits] using h
  | succ bits ih =>
    rw [List.range_succ, List.reverse_append, List.reverse_singleton, List.singleton_append,
      List.foldl_cons, natBits, ← List.singleton_append (l := natBits value.toNat bits),
      ← List.append_assoc]
    have hbit : ((value >>> UInt64.ofNat bits) &&& 1 == 1) = value.toNat.testBit bits := by
      rw [and_one_of_shiftRight64 value (by omega)]
      cases value.toNat.testBit bits <;> rfl
    rw [hbit]
    exact ih (h.pushBit _) (by omega)

/-- The bits `l` stand in front of the reader. -/
structure Reads (r : BitReader) (l : List Bool) : Prop where
  room : r.bitPos + l.length ≤ r.bytes.length * 8
  bits : ∀ k, k < l.length → byteBit r.bytes ((r.bitPos + k) / 8) (7 - (r.bitPos + k) % 8) =
    l.getD k false

theorem Reads.readBit {r : BitReader} {b : Bool} {l : List Bool} (h : Reads r (b :: l)) :
    r.readBit = some (b, { r with bitPos := r.bitPos + 1 }) ∧
      Reads { r with bitPos := r.bitPos + 1 } l := by
  have hroom := h.room
  rw [List.length_cons] at hroom
  constructor
  · have h0 := h.bits 0 (by simp)
    rw [Nat.add_zero, byteBit] at h0
    unfold BitReader.readBit
    rw [if_neg (by omega)]
    dsimp only
    rw [and_one_of_shiftRight8 _ (by omega), h0]
    cases b <;> rfl
  · refine ⟨by simp only; omega, fun k hk => ?_⟩
    have hk' := h.bits (k + 1) (by simpa using hk)
    rw [List.getD_cons_succ] at hk'
    rw [← hk']
    simp only [Nat.add_assoc, Nat.add_comm 1 k]

theorem shiftLeft_or_bit {pre : List Bool} (hlen : pre.length < 64) (b : Bool) :
    (UInt64.ofNat (ofBits pre) <<< 1) ||| (if b then 1 else 0) =
      UInt64.ofNat (ofBits (pre ++ [b])) := by
  have hlt := ofBits_lt pre
  have hpow : 2 ^ (pre.length + 1) ≤ 2 ^ 64 := Nat.pow_le_pow_right (by omega) (by omega)
  rw [pow_succ] at hpow
  have happ : ofBits (pre ++ [b]) = 2 * ofBits pre + b.toNat := by
    rw [ofBits, List.foldl_append]
    rfl
  have hb : b.toNat ≤ 1 := Bool.toNat_le b
  apply UInt64.toNat_inj.mp
  have h1 : (1 : UInt64).toNat % 64 = 1 := rfl
  rw [happ, UInt64.toNat_or, UInt64.toNat_shiftLeft, h1, UInt64.toNat_ofNat', UInt64.toNat_ofNat',
    Nat.mod_eq_of_lt (by omega : ofBits pre < 2 ^ 64), Nat.shiftLeft_eq, pow_one,
    Nat.mod_eq_of_lt (by omega : ofBits pre * 2 < 2 ^ 64),
    Nat.mod_eq_of_lt (by omega : 2 * ofBits pre + b.toNat < 2 ^ 64)]
  cases b
  · simp only [Bool.false_eq_true, if_false, UInt64.toNat_zero, Nat.or_zero, Bool.toNat_false]
    omega
  · have hor := Nat.two_pow_add_eq_or_of_lt (by omega : 1 < 2 ^ 1) (ofBits pre)
    simp only [if_true, UInt64.toNat_one, Bool.toNat_true]
    rw [pow_one] at hor
    rw [Nat.mul_comm (ofBits pre) 2, ← hor]

theorem Reads.readBits_loop {l' : List Bool} (l : List Bool) :
    ∀ (rounds : List ℕ) (pre : List Bool) (r : BitReader), rounds.length = l.length →
      pre.length + l.length ≤ 64 → Reads r (l ++ l') →
      rounds.foldlM (fun (acc : UInt64 × BitReader) _ => do
        let (bit, r) ← acc.2.readBit
        return ((acc.1 <<< 1) ||| (if bit then 1 else 0), r)) (UInt64.ofNat (ofBits pre), r) =
        some (UInt64.ofNat (ofBits (pre ++ l)), { r with bitPos := r.bitPos + l.length }) ∧
      Reads { r with bitPos := r.bitPos + l.length } l' := by
  induction l with
  | nil =>
    intro rounds pre r hrounds _ hr
    rw [List.length_nil, List.length_eq_zero_iff] at hrounds
    subst hrounds
    rw [List.append_nil]
    exact ⟨rfl, hr⟩
  | cons b l ih =>
    intro rounds pre r hrounds hlen hr
    obtain ⟨hbit, hr'⟩ := hr.readBit
    rw [List.length_cons] at hlen
    cases rounds with
    | nil => cases hrounds
    | cons i rounds =>
      have hrest := ih rounds (pre ++ [b]) _ (by simpa using hrounds) (by simp; omega) hr'
      rw [List.append_assoc, List.singleton_append, ← shiftLeft_or_bit (by omega)] at hrest
      simp only [Nat.add_assoc, Nat.add_comm 1] at hrest
      rw [List.foldlM_cons]
      simp only [hbit, Option.bind_eq_bind, Option.bind_some, Option.pure_def]
      exact hrest

theorem Reads.readBits {r : BitReader} {l l' : List Bool} (h : Reads r (l ++ l'))
    (hle : l.length ≤ 64) :
    r.readBits l.length = some (UInt64.ofNat (ofBits l), { r with bitPos := r.bitPos + l.length }) ∧
      Reads { r with bitPos := r.bitPos + l.length } l' := by
  have hloop := Reads.readBits_loop l (List.range l.length) [] r (List.length_range) (by simpa) h
  rw [List.nil_append] at hloop
  exact hloop

theorem Reads.readNat {r : BitReader} {v n : ℕ} {l : List Bool} (h : Reads r (natBits v n ++ l))
    (hn : n ≤ 64) (msg : String) :
    ∃ r', (if n = 0 then .ok (0, r) else okOr (r.readBits n) msg) =
      .ok (UInt64.ofNat (ofBits (natBits v n)), r') ∧ Reads r' l := by
  by_cases h0 : n = 0
  · subst h0
    exact ⟨r, rfl, h⟩
  · obtain ⟨hread, hr⟩ := h.readBits (by rwa [length_natBits])
    rw [length_natBits] at hread
    rw [length_natBits] at hr
    exact ⟨_, by rw [if_neg h0, hread, okOr_some], hr⟩

/-! ## One value -/

theorem bitLength_bounds {v : ℕ} (hv : v ≠ 0) :
    2 ^ (bitLength v - 1) ≤ v ∧ v < 2 ^ bitLength v ∧ 1 ≤ bitLength v := by
  rw [bitLength, if_neg hv, Nat.add_sub_cancel]
  exact ⟨Nat.log2_self_le hv, Nat.lt_log2_self, by omega⟩

theorem bitLength_le {v n : ℕ} (hv : v < 2 ^ n) : bitLength v ≤ n := by
  by_cases h0 : v = 0
  · simp [bitLength, h0]
  · obtain ⟨hlo, -, -⟩ := bitLength_bounds h0
    by_contra hlt
    have := Nat.pow_le_pow_right (show 0 < 2 by omega) (show n ≤ bitLength v - 1 by omega)
    omega

theorem sub_leadingZeros {width n : ℕ} (h : bitLength n ≤ width) :
    width - leadingZeros width n = bitLength n := by
  rw [leadingZeros]
  omega

/-- The Elias-delta code of `v`: the length of the length in zeros, the length, and the
bits below the top one. -/
def eliasDeltaBits (v : ℕ) : List Bool :=
  List.replicate (bitLength (bitLength v) - 1) false ++
    (natBits (bitLength v) (bitLength (bitLength v)) ++ natBits v (bitLength v - 1))

theorem pushZeros_writes {w : BitWriter} {l : List Bool} (h : Writes w l) (n : ℕ) :
    Writes ((List.range n).foldl (fun w _ => w.pushBit false) w)
      (l ++ List.replicate n false) := by
  induction n with
  | zero => simpa using h
  | succ n ih =>
    rw [List.range_succ, List.foldl_append, List.replicate_succ', ← List.append_assoc]
    exact ih.pushBit false

/-- Below the top bit, clearing the top bit changes nothing. -/
theorem natBits_xor_top (v k : ℕ) : natBits (v ^^^ 2 ^ k) k = natBits v k := by
  have h : ∀ n ≤ k, natBits (v ^^^ 2 ^ k) n = natBits v n := by
    intro n
    induction n with
    | zero => exact fun _ => rfl
    | succ n ih =>
      intro hn
      rw [natBits, natBits, ih (by omega), Nat.testBit_xor, Nat.testBit_two_pow_of_ne (by omega),
        Bool.xor_false]
  exact h k (le_refl _)

theorem encodeOne_writes {w : BitWriter} {l : List Bool} (h : Writes w l) {value : UInt64}
    (hv : value ≠ 0) :
    ∃ w', encodeOne value w = .ok w' ∧ Writes w' (l ++ eliasDeltaBits value.toNat) := by
  have hv0 : value.toNat ≠ 0 := fun h0 => hv (UInt64.toNat_inj.mp h0)
  have hn64 : bitLength value.toNat ≤ 64 := bitLength_le value.toNat_lt
  have hl7 : bitLength (bitLength value.toNat) ≤ 7 :=
    bitLength_le (lt_of_le_of_lt hn64 (by decide))
  have hpos := (bitLength_bounds hv0).2.2
  have hone : 1 ≤ value := by
    rw [UInt64.le_iff_toNat_le, UInt64.toNat_one]
    omega
  have hnBits := sub_leadingZeros hn64
  have hlenBits : 32 - leadingZeros 32 (bitLength value.toNat) =
      bitLength (bitLength value.toNat) := sub_leadingZeros (by omega)
  unfold encodeOne
  rw [ensure_of hone, ok_bind]
  simp only [hnBits, hlenBits]
  have hw := (pushZeros_writes h (bitLength (bitLength value.toNat) - 1)).pushBits
    (UInt64.ofNat (bitLength value.toNat)) (by omega : bitLength (bitLength value.toNat) ≤ 64)
  rw [UInt64.toNat_ofNat_of_lt' (by unfold UInt64.size; omega)] at hw
  rw [eliasDeltaBits, ← List.append_assoc, ← List.append_assoc]
  by_cases h1 : bitLength value.toNat > 1
  · rw [if_pos h1]
    refine ⟨_, rfl, ?_⟩
    have hshift : ((1 : UInt64) <<< UInt64.ofNat (bitLength value.toNat - 1)).toNat =
        2 ^ (bitLength value.toNat - 1) := by
      rw [UInt64.toNat_shiftLeft, UInt64.toNat_ofNat_of_lt' (by unfold UInt64.size; omega),
        Nat.mod_eq_of_lt (by omega : bitLength value.toNat - 1 < 64), UInt64.toNat_one,
        Nat.one_shiftLeft]
      exact Nat.mod_eq_of_lt (Nat.pow_lt_pow_right (by omega) (by omega))
    have hw' := hw.pushBits (value ^^^ ((1 : UInt64) <<< UInt64.ofNat (bitLength value.toNat - 1)))
      (by omega : bitLength value.toNat - 1 ≤ 64)
    rw [UInt64.toNat_xor, hshift, natBits_xor_top] at hw'
    exact hw'
  · rw [if_neg h1]
    refine ⟨_, rfl, ?_⟩
    rw [show bitLength value.toNat - 1 = 0 by omega]
    simpa [natBits] using hw

theorem readZeros_reads {l : List Bool} {z : ℕ} :
    ∀ {fuel zeros : ℕ} {r : BitReader}, z < fuel → zeros + z ≤ 63 →
      Reads r (List.replicate z false ++ true :: l) →
      ∃ r', readZeros fuel zeros r = .ok (zeros + z, r') ∧ Reads r' l := by
  induction z with
  | zero =>
    intro fuel zeros r hfuel _ hr
    obtain ⟨fuel, rfl⟩ := Nat.exists_eq_succ_of_ne_zero (by omega : fuel ≠ 0)
    obtain ⟨hbit, hr'⟩ := hr.readBit
    exact ⟨_, by simp [readZeros, hbit], hr'⟩
  | succ z ih =>
    intro fuel zeros r hfuel hzeros hr
    obtain ⟨fuel, rfl⟩ := Nat.exists_eq_succ_of_ne_zero (by omega : fuel ≠ 0)
    rw [List.replicate_succ, List.cons_append] at hr
    obtain ⟨hbit, hr'⟩ := hr.readBit
    obtain ⟨r', hread, hr''⟩ := ih (by omega : z < fuel) (by omega : zeros + 1 + z ≤ 63) hr'
    refine ⟨r', ?_, hr''⟩
    rw [Nat.succ_eq_add_one, readZeros, hbit]
    simp only
    rw [ensure_of (by omega), ok_bind, hread]
    congr 2
    omega

theorem shiftLeft_or_ofBits {v k : ℕ} (hk : k < 64) (hlo : 2 ^ k ≤ v) (hhi : v < 2 ^ (k + 1)) :
    ((1 : UInt64) <<< UInt64.ofNat k) ||| UInt64.ofNat (ofBits (natBits v k)) = UInt64.ofNat v := by
  have hpow : 2 ^ (k + 1) ≤ 2 ^ 64 := Nat.pow_le_pow_right (by omega) (by omega)
  have hlt : 2 ^ k < 2 ^ 64 := Nat.pow_lt_pow_right (by omega) hk
  apply UInt64.toNat_inj.mp
  rw [UInt64.toNat_or, UInt64.toNat_shiftLeft,
    UInt64.toNat_ofNat_of_lt' (by unfold UInt64.size; omega),
    Nat.mod_eq_of_lt hk, UInt64.toNat_one, Nat.mod_eq_of_lt (by rwa [Nat.one_shiftLeft]),
    ofBits_natBits,
      UInt64.toNat_ofNat_of_lt' (lt_of_lt_of_le (Nat.mod_lt _ (Nat.two_pow_pos k)) hlt.le),
    UInt64.toNat_ofNat_of_lt' (lt_of_lt_of_le hhi hpow)]
  exact or_mod_two_pow hlo hhi

theorem decodeOne_reads {r : BitReader} {l : List Bool} {value : UInt64} (hv : value ≠ 0)
    (h : Reads r (eliasDeltaBits value.toNat ++ l)) :
    ∃ r', decodeOne r = .ok (value, r') ∧ Reads r' l := by
  have hv0 : value.toNat ≠ 0 := fun h0 => hv (UInt64.toNat_inj.mp h0)
  obtain ⟨hvlo, hvhi, hnpos⟩ := bitLength_bounds hv0
  have hn64 : bitLength value.toNat ≤ 64 := bitLength_le value.toNat_lt
  obtain ⟨hnlo, hnhi, hlpos⟩ := bitLength_bounds (by omega : bitLength value.toNat ≠ 0)
  have hl7 : bitLength (bitLength value.toNat) ≤ 7 :=
    bitLength_le (lt_of_le_of_lt hn64 (by decide))
  -- the code is zeros, a one, the rest of the length, the rest of the value
  obtain ⟨z, hz⟩ : ∃ z, bitLength (bitLength value.toNat) = z + 1 :=
    ⟨_, (Nat.sub_add_cancel hlpos).symm⟩
  obtain ⟨t, ht⟩ : ∃ t, bitLength value.toNat = t + 1 := ⟨_, (Nat.sub_add_cancel hnpos).symm⟩
  rw [hz, ht, Nat.add_sub_cancel] at hnlo
  rw [hz, ht] at hnhi
  rw [ht, Nat.add_sub_cancel] at hvlo
  rw [ht] at hvhi
  have htop : (t + 1).testBit z = true := by
    rw [Nat.testBit_eq_decide_div_mod_eq]
    have hdiv : (t + 1) / 2 ^ z = 1 :=
      Nat.div_eq_of_lt_le (by omega) (by rw [pow_succ] at hnhi; omega)
    rw [hdiv]
    rfl
  rw [eliasDeltaBits, hz, ht, Nat.add_sub_cancel, Nat.add_sub_cancel, natBits, htop,
    List.append_assoc, List.cons_append, List.cons_append, List.append_assoc] at h
  obtain ⟨r₁, hzeros, hr₁⟩ := readZeros_reads (by omega : z < 64) (by omega : 0 + z ≤ 63) h
  rw [Nat.zero_add] at hzeros
  obtain ⟨r₂, hlow, hr₂⟩ := hr₁.readNat (by omega) "truncated Elias-delta length"
  obtain ⟨r₃, htail, hr₃⟩ := hr₂.readNat (by omega) "truncated Elias-delta value"
  replace hlow : (if z > 0 then okOr (r₁.readBits z) "truncated Elias-delta length"
      else .ok (0, r₁)) = .ok (UInt64.ofNat (ofBits (natBits (t + 1) z)), r₂) := by
    rw [← hlow]
    by_cases hz0 : z = 0
    · rw [if_neg (by omega), if_pos hz0]
    · rw [if_pos (by omega), if_neg hz0]
  have hnBits := shiftLeft_or_ofBits (by omega : z < 64) hnlo hnhi
  have hvalue := shiftLeft_or_ofBits (by omega : t < 64) hvlo hvhi
  have htn : (UInt64.ofNat (t + 1)).toNat = t + 1 :=
    UInt64.toNat_ofNat_of_lt' (by unfold UInt64.size; omega)
  have hrange : 1 ≤ UInt64.ofNat (t + 1) ∧ UInt64.ofNat (t + 1) ≤ 64 := by
    rw [UInt64.le_iff_toNat_le, UInt64.le_iff_toNat_le, htn]
    exact ⟨by simp, by simp; omega⟩
  have htailBits : (UInt64.ofNat (t + 1) - 1).toNat = t := by
    rw [UInt64.toNat_sub_of_le _ _ hrange.1, htn]
    rfl
  refine ⟨r₃, ?_, hr₃⟩
  unfold decodeOne
  rw [hzeros, ok_bind]
  dsimp only
  rw [ite_bind_eq, hlow, ok_bind]
  dsimp only
  rw [hnBits, ensure_of hrange, ok_bind, htailBits, ite_bind_eq, htail, ok_bind]
  simp only [hvalue, UInt64.ofNat_toNat]
  rfl

/-! ## A list of values -/

theorem encodeValues_writes {values : List UInt64} (hpos : ∀ v ∈ values, v ≠ 0) {w : BitWriter}
    {l : List Bool} (h : Writes w l) :
    ∃ w', values.foldlM (fun w value => encodeOne value w) w = .ok w' ∧
      Writes w' (l ++ values.flatMap fun v => eliasDeltaBits v.toNat) := by
  induction values generalizing w l with
  | nil => exact ⟨w, rfl, by simpa using h⟩
  | cons v values ih =>
    obtain ⟨w₁, hone, hw₁⟩ := encodeOne_writes h (hpos v List.mem_cons_self)
    obtain ⟨w', hrest, hw'⟩ := ih (fun v hv => hpos v (List.mem_cons_of_mem _ hv)) hw₁
    refine ⟨w', ?_, ?_⟩
    · rw [List.foldlM_cons, hone, ok_bind, hrest]
    · rwa [List.flatMap_cons, ← List.append_assoc]

theorem decodeValues_reads {values : List UInt64} (hpos : ∀ v ∈ values, v ≠ 0) {r : BitReader}
    (h : Reads r (values.flatMap fun v => eliasDeltaBits v.toNat)) :
    decodeValuesFrom values.length r = .ok values := by
  induction values generalizing r with
  | nil => rfl
  | cons v values ih =>
    rw [List.flatMap_cons] at h
    obtain ⟨r', hone, hr'⟩ := decodeOne_reads (hpos v List.mem_cons_self) h
    rw [List.length_cons, decodeValuesFrom, hone, ok_bind]
    simp only
    rw [ih (fun v hv => hpos v (List.mem_cons_of_mem _ hv)) hr', ok_bind]
    rfl

/-- The bytes of a writer are its bits and a padding of zeros. -/
theorem Writes.bytesBits {w : BitWriter} {l : List Bool} (h : Writes w l) :
    bytesBits w.bytes = l ++ List.replicate ((l.length + 7) / 8 * 8 - l.length) false := by
  have h' := bytesBits_eq (by rw [h.length]; omega) h.bits
  rwa [h.length] at h'

theorem reads_new {bytes : Bytes} {l : List Bool} :
    Reads (BitReader.new bytes) l ↔ l <+: Lib.bytesBits bytes := by
  constructor
  · intro h
    have hroom := h.room
    simp only [BitReader.new, Nat.zero_add] at hroom
    rw [List.prefix_iff_getElem?]
    intro k hk
    have hbit := h.bits k hk
    simp only [BitReader.new, Nat.zero_add] at hbit
    rw [← bytesBits_getD, List.getD_eq_getElem?_getD, List.getD_eq_getElem?_getD,
      List.getElem?_eq_getElem hk,
      List.getElem?_eq_getElem (by rw [length_bytesBits]; omega)] at hbit
    rw [List.getElem?_eq_getElem (by rw [length_bytesBits]; omega)]
    exact congrArg some hbit
  · rintro ⟨rest, hrest⟩
    have hlen := congrArg List.length hrest
    rw [List.length_append, length_bytesBits] at hlen
    refine ⟨by simp only [BitReader.new]; omega, fun k hk => ?_⟩
    simp only [BitReader.new, Nat.zero_add]
    rw [← bytesBits_getD, ← hrest, List.getD_append _ _ _ _ hk]

theorem eliasDelta_roundTrip {values : List UInt64} (hpos : ∀ v ∈ values, v ≠ 0) :
    ∃ bytes, encodeEliasDeltaValues values = .ok bytes ∧
      decodeEliasDeltaValues bytes values.length = .ok values := by
  obtain ⟨w, henc, hw⟩ := encodeValues_writes hpos writes_default
  rw [List.nil_append] at hw
  refine ⟨w.bytes, ?_, ?_⟩
  · rw [encodeEliasDeltaValues, henc, ok_bind]
    rfl
  · apply decodeValues_reads hpos
    refine ⟨?_, fun k _ => ?_⟩
    · have := hw.length
      simp only [BitReader.new]
      omega
    · rw [← hw.bits k]
      simp [BitReader.new]

/-! ## What a decoded stream held -/

theorem bitLength_eq {v k : ℕ} (hlo : 2 ^ k ≤ v) (hhi : v < 2 ^ (k + 1)) : bitLength v = k + 1 := by
  have hv : v ≠ 0 := by
    have := Nat.two_pow_pos k
    omega
  rw [bitLength, if_neg hv, (Nat.log2_eq_iff hv).mpr ⟨hlo, hhi⟩]

theorem readBit_eq_some {r r' : BitReader} {b : Bool} (h : r.readBit = some (b, r')) :
    Reads r [b] ∧ r' = { r with bitPos := r.bitPos + 1 } := by
  unfold BitReader.readBit at h
  split_ifs at h with hpos
  simp only [Option.some.injEq, Prod.mk.injEq] at h
  obtain ⟨hb, rfl⟩ := h
  refine ⟨⟨by simp only [List.length_singleton]; omega, fun k hk => ?_⟩, rfl⟩
  obtain rfl : k = 0 := by simpa using hk
  rw [Nat.add_zero, byteBit, List.getD_cons_zero, ← hb, and_one_of_shiftRight8 _ (by omega)]
  cases (r.bytes.getD (r.bitPos / 8) 0).toNat.testBit (7 - r.bitPos % 8) <;> rfl

theorem reads_nil {r : BitReader} (hroom : r.bitPos ≤ r.bytes.length * 8) : Reads r [] :=
  ⟨by simpa using hroom, fun k hk => absurd hk (Nat.not_lt_zero k)⟩

theorem Reads.append {r : BitReader} {l l' : List Bool} (h : Reads r l)
    (h' : Reads { r with bitPos := r.bitPos + l.length } l') : Reads r (l ++ l') := by
  have hroom := h'.room
  simp only at hroom
  refine ⟨by rw [List.length_append]; omega, fun k hk => ?_⟩
  by_cases hlt : k < l.length
  · rw [h.bits k hlt, List.getD_append _ _ _ _ hlt]
  · obtain ⟨j, rfl⟩ := Nat.exists_eq_add_of_le (not_lt.mp hlt)
    rw [List.length_append] at hk
    have hbit := h'.bits j (by omega)
    simp only [Nat.add_assoc] at hbit
    rw [hbit, List.getD_append_right _ _ _ _ (by omega), Nat.add_sub_cancel_left]

theorem readBits_loop_eq_some {rounds : List ℕ} {pre : List Bool} {r r' : BitReader} {v : UInt64}
    (hroom : r.bitPos ≤ r.bytes.length * 8) (hle : pre.length + rounds.length ≤ 64)
    (h : rounds.foldlM (fun (acc : UInt64 × BitReader) _ => do
        let (bit, r) ← acc.2.readBit
        return ((acc.1 <<< 1) ||| (if bit then 1 else 0),
          r)) (UInt64.ofNat (ofBits pre), r) = some (v, r')) :
    ∃ l, l.length = rounds.length ∧ Reads r l ∧ v = UInt64.ofNat (ofBits (pre ++ l)) ∧
      r' = { r with bitPos := r.bitPos + l.length } := by
  induction rounds generalizing pre r with
  | nil =>
    obtain ⟨rfl, rfl⟩ := Prod.mk.inj (Option.some.inj h)
    exact ⟨[], rfl, reads_nil hroom, by rw [List.append_nil], rfl⟩
  | cons i rounds ih =>
    rw [List.length_cons] at hle
    rw [List.foldlM_cons] at h
    simp only [Option.bind_eq_bind, Option.bind_eq_some_iff, Option.pure_def, Option.some.injEq] at h
    obtain ⟨acc, ⟨⟨bit, r₁⟩, hbit, rfl⟩, hrest⟩ := h
    obtain ⟨hone, rfl⟩ := readBit_eq_some hbit
    rw [shiftLeft_or_bit (by omega)] at hrest
    obtain ⟨l, hlen, hl, rfl, rfl⟩ := ih hone.room (by simp; omega) hrest
    refine ⟨bit :: l, by simp [hlen], hone.append hl, by simp, ?_⟩
    simp [Nat.add_assoc, Nat.add_comm 1]

theorem readField_eq_ok {r r' : BitReader} {n : ℕ} {v : UInt64} {msg : String}
    (hroom : r.bitPos ≤ r.bytes.length * 8) (hn : n ≤ 64)
    (h : (if n = 0 then .ok (0, r) else okOr (r.readBits n) msg) = .ok (v, r')) :
    ∃ l, l.length = n ∧ Reads r l ∧ v = UInt64.ofNat (ofBits l) ∧ r' = { r with bitPos := r.bitPos + n } := by
  split_ifs at h with h0
  · obtain ⟨rfl, rfl⟩ := Prod.mk.inj (Except.ok.inj h)
    exact ⟨[], h0.symm, reads_nil hroom, rfl, by rw [h0]; rfl⟩
  · obtain ⟨l, hlen, hl, hv, hr⟩ :=
      @readBits_loop_eq_some (List.range n) [] r r' v hroom (by simpa using hn) (okOr_eq_ok.mp h)
    rw [List.length_range] at hlen
    exact ⟨l, hlen, hl, hv, hlen ▸ hr⟩

theorem readZeros_eq_ok {fuel zeros z : ℕ} {r r' : BitReader}
    (h : readZeros fuel zeros r = .ok (z, r'))
    (hzeros : zeros ≤ 63) :
    ∃ k, z = zeros + k ∧ z ≤ 63 ∧ Reads r (List.replicate k false ++ [true]) ∧
      r' = { r with bitPos := r.bitPos + (k + 1) } := by
  induction fuel generalizing zeros r with
  | zero => cases h
  | succ fuel ih =>
    rw [readZeros] at h
    cases hbit : r.readBit with
    | none => simp [hbit] at h
    | some p =>
      obtain ⟨bit, r₁⟩ := p
      obtain ⟨hone, rfl⟩ := readBit_eq_some hbit
      rw [hbit] at h
      cases bit with
      | true =>
        obtain ⟨rfl, rfl⟩ := Prod.mk.inj (Except.ok.inj h)
        exact ⟨0, rfl, hzeros, hone, rfl⟩
      | false =>
        simp only [bind_eq_ok, ensure_eq_ok] at h
        obtain ⟨-, hle, hrest⟩ := h
        obtain ⟨k, rfl, hz, hk, rfl⟩ := ih hrest hle
        refine ⟨k + 1, by omega, hz, ?_, by simp only [Nat.add_assoc, Nat.add_comm 1]⟩
        rw [List.replicate_succ, List.cons_append]
        exact hone.append hk

theorem topBit_or_ofBits {l : List Bool} (hlen : l.length < 64) :
    (((1 : UInt64) <<< UInt64.ofNat l.length) ||| UInt64.ofNat (ofBits l)).toNat =
    2 ^ l.length + ofBits l := by
  have hlt := ofBits_lt l
  have hpow : 2 ^ (l.length + 1) ≤ 2 ^ 64 := Nat.pow_le_pow_right (by omega) (by omega)
  have hbits := natBits_ofBits 1 l
  rw [Nat.mul_one] at hbits
  rw [pow_succ] at hpow
  have h := shiftLeft_or_ofBits hlen (v := 2 ^ l.length + ofBits l) (by omega)
    (by rw [pow_succ]; omega)
  rw [hbits] at h
  rw [h]
  exact UInt64.toNat_ofNat_of_lt' (by unfold UInt64.size; omega)

/-- The code of a value, from the bits of its length and of the value below their top bits. -/
theorem eliasDeltaBits_eq {lens tail : List Bool}
    (hn : 2 ^ lens.length + ofBits lens = tail.length + 1) :
    eliasDeltaBits (2 ^ tail.length + ofBits tail) =
      List.replicate lens.length false ++ [true] ++ lens ++ tail := by
  have hlens := ofBits_lt lens
  have htail := ofBits_lt tail
  have hv : bitLength (2 ^ tail.length + ofBits tail) = tail.length + 1 :=
    bitLength_eq (by omega) (by rw [pow_succ]; omega)
  have hl : bitLength (tail.length + 1) = lens.length + 1 :=
    bitLength_eq (by omega) (by rw [pow_succ]; omega)
  have htop : (tail.length + 1).testBit lens.length = true := by
    rw [← hn, ← Nat.mul_one (2 ^ lens.length), Nat.testBit_two_pow_mul_add _ hlens,
      if_neg (lt_irrefl _),
      Nat.sub_self]
    rfl
  have hlens' := natBits_ofBits 1 lens
  have htail' := natBits_ofBits 1 tail
  rw [Nat.mul_one] at hlens' htail'
  rw [hn] at hlens'
  rw [eliasDeltaBits, hv, hl, Nat.add_sub_cancel, Nat.add_sub_cancel, natBits, htop, hlens', htail']
  simp

/-- A value that was decoded is positive, and its code was read. -/
theorem decodeOne_eq_ok {r r' : BitReader} {v : UInt64} (h : decodeOne r = .ok (v, r')) :
    v ≠ 0 ∧ Reads r (eliasDeltaBits v.toNat) ∧
      r' = { r with bitPos := r.bitPos + (eliasDeltaBits v.toNat).length } := by
  unfold decodeOne at h
  rw [bind_eq_ok] at h
  obtain ⟨⟨z, r₁⟩, hzeros, h⟩ := h
  simp only [ite_bind_eq] at h
  obtain ⟨k, rfl, hz, hk, rfl⟩ := readZeros_eq_ok hzeros (by omega)
  rw [Nat.zero_add] at h hz
  rw [bind_eq_ok] at h
  obtain ⟨⟨low, r₂⟩, hlow, h⟩ := h
  simp only [gt_iff_lt, Nat.pos_iff_ne_zero, ne_eq, ite_not] at hlow
  have hroom₁ := hk.room
  rw [List.length_append, List.length_replicate, List.length_singleton] at hroom₁
  obtain ⟨lens, rfl, hlens, rfl, rfl⟩ := readField_eq_ok hroom₁ (by omega) hlow
  rw [bind_eq_ok] at h
  obtain ⟨_, hrange, h⟩ := h
  rw [ensure_eq_ok] at hrange
  rw [bind_eq_ok] at h
  obtain ⟨⟨low, r₃⟩, htail, h⟩ := h
  dsimp only at hrange htail h
  have hn := topBit_or_ofBits (by omega : lens.length < 64)
  obtain ⟨hlo, hhi⟩ := hrange
  rw [UInt64.le_iff_toNat_le, hn] at hlo hhi
  have htailBits : ((1 <<< UInt64.ofNat lens.length ||| UInt64.ofNat (ofBits lens)) - 1).toNat =
      2 ^ lens.length + ofBits lens - 1 := by
    rw [UInt64.toNat_sub_of_le _ _ (by rw [UInt64.le_iff_toNat_le, hn]; exact hlo), hn]
    rfl
  have h64 : (64 : UInt64).toNat = 64 := rfl
  rw [htailBits] at htail h
  rw [UInt64.toNat_one] at hlo
  rw [h64] at hhi
  obtain ⟨tail, htailLen, htailReads, rfl, rfl⟩ := readField_eq_ok hlens.room (by omega) htail
  obtain ⟨rfl, rfl⟩ := Prod.mk.inj (Except.ok.inj h)
  have hlen : 2 ^ lens.length + ofBits lens = tail.length + 1 := by omega
  have hv := topBit_or_ofBits (by omega : tail.length < 64)
  rw [← htailLen, ← UInt64.toNat_inj.ne, hv, eliasDeltaBits_eq hlen]
  refine ⟨?_, ?_, ?_⟩
  · simp
  · refine (hk.append ?_).append ?_
    · simpa using hlens
    · simpa [Nat.add_assoc, Nat.add_comm 1] using htailReads
  · simp [Nat.add_assoc, Nat.add_comm 1]

/-- The values that were decoded are positive, and their codes were read one after the other. -/
theorem decodeValuesFrom_eq_ok {count : ℕ} {r : BitReader} {values : List UInt64}
    (hroom : r.bitPos ≤ r.bytes.length * 8) (h : decodeValuesFrom count r = .ok values) :
    values.length = count ∧ (∀ v ∈ values,
      v ≠ 0) ∧ Reads r (values.flatMap fun v => eliasDeltaBits v.toNat) := by
  induction count generalizing r values with
  | zero =>
    rw [decodeValuesFrom, Except.ok.injEq] at h
    rw [← h]
    exact ⟨rfl, by simp, reads_nil hroom⟩
  | succ count ih =>
    simp only [decodeValuesFrom, bind_eq_ok, pure_eq_ok, Except.ok.injEq] at h
    obtain ⟨⟨value, r'⟩, hone, rest, hrest, rfl⟩ := h
    obtain ⟨hv, hreads, rfl⟩ := decodeOne_eq_ok hone
    obtain ⟨hlen, hpos, hrest'⟩ := ih hreads.room hrest
    refine ⟨by rw [List.length_cons, hlen], ?_, ?_⟩
    · intro v hmem
      rcases List.mem_cons.mp hmem with rfl | hmem
      · exact hv
      · exact hpos v hmem
    · rw [List.flatMap_cons]
      exact hreads.append hrest'

end BitcoinData
