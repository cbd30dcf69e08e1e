import Mathlib.Data.Nat.Bitwise
import BitcoinData.Sanity.SpentTxOuts
import BitcoinData.Spec.Leb128
import BitcoinData.Spec.Stats.Block

/-! LEB128 streams. The decoder takes groups of at most ten bytes and returns their numbers modulo
2^64: of the tenth byte only the lowest bit is left. What the encoder writes is read back, and it is
as long as the stats scan estimates. -/

namespace BitcoinData.Leb128

open Lib

/-! ## Bytes -/

theorem and_seven_bits (byte : UInt8) : (byte &&& 0x7f).toUInt64.toNat = byte.toNat % 128 := by
  rw [UInt8.toNat_toUInt64, UInt8.toNat_and]
  exact Nat.and_two_pow_sub_one_eq_mod _ 7

theorem and_top_bit (byte : UInt8) : byte &&& 0x80 = 0 ↔ continues byte = false := by
  have hlt := byte.toNat_lt
  have hand : (byte &&& 0x80).toNat = (byte.toNat.testBit 7).toNat * 2 ^ 7 := by
    rw [UInt8.toNat_and]
    exact Nat.and_two_pow _ 7
  rw [← UInt8.toNat_inj, hand, continues, Nat.testBit_eq_decide_div_mod_eq]
  by_cases h : 128 ≤ byte.toNat
  · have hbit : byte.toNat / 2 ^ 7 % 2 = 1 := by omega
    rw [hbit]
    simp [h]
  · have hbit : byte.toNat / 2 ^ 7 % 2 = 0 := by omega
    rw [hbit]
    simp [h]

theorem or_shiftLeft {value : UInt64} (payload : UInt64) {shift : ℕ}
    (hvalue : value.toNat < 2 ^ shift) (hshift : shift < 64) :
    (value ||| (payload <<< UInt64.ofNat shift)).toNat =
      (value.toNat + 2 ^ shift * payload.toNat) % 2 ^ 64 := by
  have hpow : 2 ^ 64 = 2 ^ shift * 2 ^ (64 - shift) := by
    rw [← pow_add]
    congr 1
    omega
  have hto : (UInt64.ofNat shift).toNat = shift :=
    UInt64.toNat_ofNat_of_lt' (by unfold UInt64.size; omega)
  rw [UInt64.toNat_or, UInt64.toNat_shiftLeft, hto, Nat.mod_eq_of_lt hshift, Nat.shiftLeft_eq,
    Nat.mul_comm, hpow, Nat.mul_mod_mul_left, Nat.or_comm, ← Nat.two_pow_add_eq_or_of_lt hvalue,
    Nat.mod_mul, Nat.add_mul_mod_self_left, Nat.mod_eq_of_lt hvalue, Nat.add_mul_div_left _ _ (Nat.two_pow_pos _),
    Nat.div_eq_of_lt hvalue, Nat.zero_add, Nat.add_comm]

theorem groupValue_cons (byte : UInt8) (group : Bytes) :
    groupValue (byte :: group) = byte.toNat % 128 + 128 * groupValue group := rfl

theorem groupValue_append (g g' : Bytes) :
    groupValue (g ++ g') = groupValue g + 128 ^ g.length * groupValue g' := by
  rw [groupValue, List.map_append, Nat.ofDigits_append, List.length_map]
  rfl

theorem groupValue_lt (group : Bytes) : groupValue group < 128 ^ group.length := by
  have h := Nat.ofDigits_lt_base_pow_length (b := 128)
    (l := group.map fun byte => byte.toNat % 128) (by decide) (by
      intro x hx
      obtain ⟨byte, -, rfl⟩ := List.mem_map.mp hx
      exact Nat.mod_lt _ (by decide))
  rwa [List.length_map] at h

/-! ## One value -/

theorem two_pow_next (k : ℕ) : 2 ^ (7 * (k + 1)) = 2 ^ (7 * k) * 128 := by
  rw [Nat.mul_succ, pow_add]
  rfl

/-- Below the tenth byte nothing is shifted out. -/
theorem next_lt {k : ℕ} {value : UInt64} (hvalue : value.toNat < 2 ^ (7 * k)) (byte : UInt8) (hk : k < 9) :
    value.toNat + 2 ^ (7 * k) * (byte.toNat % 128) < 2 ^ (7 * (k + 1)) ∧
      2 ^ (7 * (k + 1)) ≤ 2 ^ 64 := by
  have hdigit : byte.toNat % 128 ≤ 127 := Nat.le_of_lt_succ (Nat.mod_lt _ (by decide))
  have hmul := Nat.mul_le_mul_left (2 ^ (7 * k)) hdigit
  refine ⟨?_, Nat.pow_le_pow_right (by decide) (by omega)⟩
  rw [two_pow_next]
  omega

theorem add_next (k value digit rest : ℕ) :
    value + 2 ^ (7 * k) * digit + 2 ^ (7 * (k + 1)) * rest =
      value + 2 ^ (7 * k) * (digit + 128 * rest) := by
  rw [two_pow_next, Nat.mul_add, Nat.mul_assoc, Nat.add_assoc]

def orByte (value : UInt64) (shift : ℕ) (byte : UInt8) : UInt64 :=
  value ||| ((byte &&& 0x7f).toUInt64 <<< UInt64.ofNat shift)

theorem orByte_toNat {value : UInt64} {shift : ℕ} (hvalue : value.toNat < 2 ^ shift)
    (hshift : shift < 64) (byte : UInt8) :
    (orByte value shift byte).toNat = (value.toNat + 2 ^ shift * (byte.toNat % 128)) % 2 ^ 64 := by
  rw [orByte, or_shiftLeft _ hvalue hshift, and_seven_bits]

theorem decodeOne_last {byte : UInt8} (h : continues byte = false) (shift : ℕ) (value : UInt64)
    (bytes : Bytes) :
    decodeOne shift value (byte :: bytes) = .ok (orByte value shift byte, bytes) := by
  rw [decodeOne]
  exact if_pos ((and_top_bit byte).mpr h)

theorem decodeOne_more {byte : UInt8} (h : continues byte = true) (shift : ℕ) (value : UInt64)
    (bytes : Bytes) {decoded : UInt64 × Bytes} :
    decodeOne shift value (byte :: bytes) = .ok decoded ↔
      shift + 7 < 64 ∧ decodeOne (shift + 7) (orByte value shift byte) bytes = .ok decoded := by
  have hmore : ¬ byte &&& 0x80 = 0 := by
    rw [and_top_bit, h]
    decide
  rw [decodeOne, if_neg hmore, bind_eq_ok]
  simp only [orFailed_eq_ok, ensure_eq_ok, exists_const]
  rfl

/-- The inner loop after `k` bytes: it takes the rest of the group, if that has no more than ten
bytes in all. -/
theorem decodeOne_eq_ok {k : ℕ} (hk : k ≤ 9) {value : UInt64} (hvalue : value.toNat < 2 ^ (7 * k))
    {bytes rest : Bytes} {decoded : UInt64} :
    decodeOne (7 * k) value bytes = .ok (decoded, rest) ↔
      ∃ group, IsGroup continues group ∧ k + group.length ≤ 10 ∧ bytes = group ++ rest ∧
        decoded.toNat = (value.toNat + 2 ^ (7 * k) * groupValue group) % 2 ^ 64 := by
  induction bytes generalizing k value with
  | nil =>
    refine ⟨nofun, ?_⟩
    rintro ⟨group, hgroup, -, heq, -⟩
    exact absurd (List.append_eq_nil_iff.mp heq.symm).1 hgroup.ne_nil
  | cons byte bytes ih =>
    have hor := orByte_toNat hvalue (by omega) byte
    cases hcont : continues byte with
    | false =>
      rw [decodeOne_last hcont, Except.ok.injEq, Prod.mk.injEq, ← UInt64.toNat_inj, hor]
      refine ⟨?_, ?_⟩
      · rintro ⟨hdecoded, rfl⟩
        refine ⟨[byte], .last hcont, by simp; omega, rfl, ?_⟩
        rw [← hdecoded, groupValue_cons]
        rfl
      · rintro ⟨group, hgroup, -, heq, hdecoded⟩
        obtain ⟨rfl, rfl⟩ := (IsGroup.last hcont).append_inj hgroup heq
        rw [hdecoded, groupValue_cons]
        exact ⟨rfl, rfl⟩
    | true =>
      rw [decodeOne_more hcont]
      by_cases hk9 : k = 9
      · -- seven more bits would begin at bit 70
        refine ⟨fun h => absurd h.1 (by omega), ?_⟩
        rintro ⟨_, hgroup, hlen, heq, -⟩
        obtain ⟨group, rfl, hgroup, -⟩ := hgroup.tail_of_continues hcont heq
        have hpos := List.length_pos_iff.mpr hgroup.ne_nil
        rw [List.length_cons] at hlen
        omega
      · obtain ⟨hbound, h64⟩ := next_lt hvalue byte (by omega : k < 9)
        rw [Nat.mod_eq_of_lt (hbound.trans_le h64)] at hor
        have hnext := ih (k := k + 1) (by omega) (hor ▸ hbound)
        rw [hor] at hnext
        rw [and_iff_right (by omega : 7 * k + 7 < 64)]
        refine hnext.trans ⟨?_, ?_⟩
        · rintro ⟨group, hgroup, hlen, rfl, hdecoded⟩
          refine ⟨byte :: group, .more hcont hgroup, by rw [List.length_cons]; omega, rfl, ?_⟩
          rw [hdecoded, groupValue_cons, add_next]
        · rintro ⟨_, hgroup, hlen, heq, hdecoded⟩
          obtain ⟨group, rfl, hgroup, rfl⟩ := hgroup.tail_of_continues hcont heq
          rw [List.length_cons] at hlen
          rw [groupValue_cons, ← add_next] at hdecoded
          exact ⟨group, hgroup, by omega, rfl, hdecoded⟩

/-! ## Streams -/

theorem decodeValues_eq_ok {count : ℕ} {bytes : Bytes} {decoded : List UInt64} :
    decodeValues count bytes = .ok decoded ↔
      ∃ groups rest, SplitsInto continues bytes groups rest ∧ groups.length = count ∧
        (∀ group ∈ groups, group.length ≤ 10) ∧
        decoded.map UInt64.toNat = groups.map fun group => groupValue group % 2 ^ 64 := by
  induction count generalizing bytes decoded with
  | zero =>
    rw [decodeValues, Except.ok.injEq]
    refine ⟨?_, ?_⟩
    · rintro rfl
      exact ⟨[], bytes, splitsInto_nil.mpr rfl, rfl, nofun, rfl⟩
    · rintro ⟨groups, rest, -, hlen, -, hdecoded⟩
      rw [List.length_eq_zero_iff.mp hlen, List.map_nil, List.map_eq_nil_iff] at hdecoded
      exact hdecoded.symm
  | succ count ih =>
    have hone : ∀ value rest, decodeOne 0 0 bytes = .ok (value, rest) ↔ ∃ group, IsGroup continues group ∧
        group.length ≤ 10 ∧ bytes = group ++ rest ∧ value.toNat = groupValue group % 2 ^ 64 := by
      intro value rest
      simpa using @decodeOne_eq_ok 0 (Nat.zero_le _) 0 (by decide) bytes rest value
    simp only [decodeValues, bind_eq_ok, Prod.exists, hone, ih, pure_eq_ok, Except.ok.injEq]
    refine ⟨?_, ?_⟩
    · rintro ⟨value, bytes', ⟨group, hgroup, hle, rfl, hvalue⟩, values,
        ⟨groups, rest, hsplit, rfl, hall, hvalues⟩, rfl⟩
      refine ⟨group :: groups, rest, splitsInto_cons.mpr ⟨hgroup, _, rfl, hsplit⟩, rfl,
        List.forall_mem_cons.mpr ⟨hle, hall⟩, ?_⟩
      rw [List.map_cons, List.map_cons, hvalue, hvalues]
    · rintro ⟨groups, rest, hsplit, hlen, hall, hdecoded⟩
      obtain ⟨group, groups, rfl⟩ := List.exists_cons_of_length_eq_add_one hlen
      obtain ⟨hgroup, bytes', rfl, htail⟩ := splitsInto_cons.mp hsplit
      rw [List.forall_mem_cons] at hall
      obtain ⟨value, values, rfl, hvalue, hvalues⟩ := List.map_eq_cons_iff.mp hdecoded
      exact ⟨value, bytes', ⟨group, hgroup, hall.1, rfl, hvalue⟩, values,
        ⟨groups, rest, htail, Nat.succ.inj hlen, hall.2, hvalues⟩, rfl⟩

theorem decodeLeb128Values_eq_ok {bytes : Bytes} {count : ℕ} {decoded : List UInt64} :
    decodeLeb128Values bytes count = .ok decoded ↔ count * U64_SIZE ≤ ISIZE_MAX ∧
      ∃ groups rest, SplitsInto continues bytes groups rest ∧ groups.length = count ∧
        (∀ group ∈ groups, group.length ≤ 10) ∧
        decoded.map UInt64.toNat = groups.map fun group => groupValue group % 2 ^ 64 := by
  simp only [decodeLeb128Values, bind_eq_ok, withCapacity_eq_ok, exists_const, decodeValues_eq_ok]

/-- A group of ten bytes is below 2^64 if the last is 0 or 1, a shorter one always. -/
theorem groupValue_lt_iff {group : Bytes} (hgroup : IsGroup continues group) (hle : group.length ≤ 10) :
    groupValue group < 2 ^ 64 ↔
      ∀ init last, group = init ++ [last] → init.length = 9 → last.toNat ≤ 1 := by
  obtain ⟨init, last, rfl, hlast⟩ := hgroup.exists_last
  have hlt := groupValue_lt init
  have hbyte : last.toNat < 128 := by simpa [continues] using hlast
  have hvalue : groupValue (init ++ [last]) = groupValue init + 128 ^ init.length * last.toNat := by
    rw [groupValue_append, groupValue_cons, Nat.mod_eq_of_lt hbyte]
    rfl
  rw [List.length_append, List.length_singleton] at hle
  by_cases hnine : init.length = 9
  · have hpow : 128 ^ init.length = 2 ^ 63 := by
      rw [hnine]
      decide
    rw [hvalue, hpow]
    rw [hpow] at hlt
    refine ⟨?_, ?_⟩
    · intro h init' last' heq _
      obtain ⟨-, hlast'⟩ := List.append_inj' heq rfl
      obtain rfl := (List.cons_eq_cons.mp hlast').1
      omega
    · intro h
      have := h init last rfl hnine
      omega
  · have hshort := groupValue_lt (init ++ [last])
    have hpow : 128 ^ (init ++ [last]).length ≤ 2 ^ 63 := by
      rw [List.length_append, List.length_singleton, show 2 ^ 63 = 128 ^ 9 by decide]
      exact Nat.pow_le_pow_right (by decide) (by omega)
    refine ⟨?_, fun _ => by omega⟩
    intro _ init' last' heq hnine'
    have hlen := congrArg List.length heq
    simp only [List.length_append, List.length_singleton] at hlen
    omega

/-- Where the tenth bytes fit, the groups that were read are below 2^64. -/
theorem TenthBytesFit.groupValue_lt {bytes : Bytes} {count : ℕ} (h : TenthBytesFit bytes count)
    {groups : List Bytes} {rest : Bytes} (hsplit : SplitsInto continues bytes groups rest)
    (hlen : groups.length = count) (hall : ∀ group ∈ groups, group.length ≤ 10) {group : Bytes}
    (hmem : group ∈ groups) : groupValue group < 2 ^ 64 := by
  rw [groupValue_lt_iff (hsplit.isGroup group hmem) (hall group hmem)]
  rintro init last rfl
  exact h groups rest hsplit hlen hall init last hmem

/-- A stream is read exactly unless it is accepted with a tenth byte above 1. -/
theorem reads_exactly_iff (bytes : Bytes) (count : ℕ) :
    ReadsExactly bytes count ↔ (count * U64_SIZE ≤ ISIZE_MAX → TenthBytesFit bytes count) := by
  refine ⟨?_, ?_⟩
  · intro h hcap groups rest hsplit hlen hall init last hmem hnine
    have hdecoded : (groups.map fun group => UInt64.ofNat (groupValue group)).map UInt64.toNat =
        groups.map fun group => groupValue group % 2 ^ 64 := by
      rw [List.map_map]
      exact List.map_congr_left fun group _ => UInt64.toNat_ofNat'
    obtain ⟨groups', rest', hsplit', hlen', hvalues⟩ :=
      h.values _ (decodeLeb128Values_eq_ok.mpr ⟨hcap, groups, rest, hsplit, hlen, hall, hdecoded⟩)
    obtain rfl := hsplit.eq_of_length hsplit' (hlen.trans hlen'.symm)
    rw [hdecoded] at hvalues
    have hlt : groupValue (init ++ [last]) < 2 ^ 64 := by
      rw [← List.map_inj_left.mp hvalues _ hmem]
      exact Nat.mod_lt _ (by decide)
    exact (groupValue_lt_iff (hsplit.isGroup _ hmem) (hall _ hmem)).mp hlt init last rfl hnine
  · intro h
    refine ⟨?_, ?_⟩
    · intro decoded hok
      obtain ⟨hcap, groups, rest, hsplit, hlen, hall, hdecoded⟩ := decodeLeb128Values_eq_ok.mp hok
      refine ⟨groups, rest, hsplit, hlen, hdecoded.trans ?_⟩
      exact List.map_congr_left fun group hmem =>
        Nat.mod_eq_of_lt ((h hcap).groupValue_lt hsplit hlen hall hmem)
    · rintro groups rest hsplit hle ⟨group, hmem, hlarge⟩ decoded hok
      obtain ⟨hcap, groups', rest', hsplit', hlen', hall', -⟩ := decodeLeb128Values_eq_ok.mp hok
      have hmem' := (hsplit.prefix_of_le hsplit' (hle.trans_eq hlen'.symm)).subset hmem
      have hlt := (h hcap).groupValue_lt hsplit' hlen' hall' hmem'
      omega

/-- 2^64 in ten bytes is read as 0. -/
theorem tenth_byte_lost :
    decodeLeb128Values (List.replicate 9 0x80 ++ [0x02]) 1 = .ok [0] ∧
      ¬ ReadsExactly (List.replicate 9 0x80 ++ [0x02]) 1 := by
  have hok : decodeLeb128Values (List.replicate 9 0x80 ++ [0x02]) 1 = .ok [0] := by decide
  have hgroup : IsGroup continues (List.replicate 9 0x80 ++ [0x02]) := by
    refine isGroup_append (fun byte hmem => ?_) rfl
    rw [List.eq_of_mem_replicate hmem]
    rfl
  have hlarge : 2 ^ 64 ≤ groupValue (List.replicate 9 0x80 ++ [0x02]) := by decide
  refine ⟨hok, fun h => ?_⟩
  exact h.rejects [_] [] ⟨rfl, List.forall_mem_singleton.mpr hgroup⟩ (le_refl _)
    ⟨_, List.mem_singleton_self _, hlarge⟩ _ hok

/-! ## The encoder -/

theorem low_bits (value : UInt64) : (value &&& 0x7f).toUInt8.toNat = value.toNat % 128 := by
  rw [UInt64.toNat_toUInt8, UInt64.toNat_and]
  have hand : value.toNat &&& (0x7f : UInt64).toNat = value.toNat % 128 :=
    Nat.and_two_pow_sub_one_eq_mod _ 7
  rw [hand]
  omega

theorem or_top_bit {byte : UInt8} (h : byte.toNat < 128) : (byte ||| 0x80).toNat = byte.toNat + 128 := by
  have hor := Nat.two_pow_add_eq_or_of_lt (i := 7) h 1
  rw [UInt8.toNat_or, Nat.or_comm, Nat.add_comm]
  exact hor.symm

/-- What `encode_one` appends for a value: a group with this number, counted by the stats loop
whatever rounds that has, if they suffice. -/
structure EncodesTo (value : UInt64) (group : Bytes) : Prop where
  appends : ∀ out, encodeOne value out = out ++ group
  isGroup : IsGroup continues group
  value_eq : groupValue group = value.toNat
  length_le : ∀ n, value.toNat < 128 ^ (n + 1) → group.length ≤ n + 1
  counted : ∀ fuel bytes, value.toNat < 128 ^ (fuel + 1) →
    Stats.leb128Loop fuel value.toNat bytes + 1 = bytes + group.length

theorem encodesTo_exists (value : UInt64) : ∃ group, EncodesTo value group := by
  induction hn : value.toNat using Nat.strongRecOn generalizing value with
  | ind n ih =>
    subst hn
    have hlow := low_bits value
    have hlt : (value &&& 0x7f).toUInt8.toNat < 128 := hlow ▸ Nat.mod_lt _ (by decide)
    by_cases hnext : value >>> 7 = 0
    · have hsmall : value.toNat < 128 := by
        have h0 := shiftRight_seven value
        rw [hnext] at h0
        change 0 = _ at h0
        omega
      refine ⟨[(value &&& 0x7f).toUInt8], ?_, ?_, ?_, ?_, ?_⟩
      · intro out
        rw [encodeOne]
        exact if_neg (not_not.mpr hnext)
      · exact .last (decide_eq_false (by omega))
      · rw [groupValue_cons, hlow]
        change _ + 128 * 0 = _
        omega
      · intro n _
        exact Nat.succ_le_succ (Nat.zero_le n)
      · intro fuel bytes _
        cases fuel with
        | zero => rfl
        | succ fuel =>
          rw [Stats.leb128Loop, if_neg (by omega)]
          rfl
    · have hshift := shiftRight_seven value
      have hnext0 : (value >>> 7).toNat ≠ 0 := fun h0 => hnext (UInt64.toNat_inj.mp h0)
      obtain ⟨group, hgroup⟩ := ih _ (shiftRight_seven_lt hnext) (value >>> 7) rfl
      have hor := or_top_bit hlt
      refine ⟨((value &&& 0x7f).toUInt8 ||| 0x80) :: group, ?_, ?_, ?_, ?_, ?_⟩
      · intro out
        rw [encodeOne]
        refine (if_pos hnext).trans ?_
        rw [hgroup.appends, List.append_assoc, List.singleton_append]
      · exact .more (decide_eq_true (by omega)) hgroup.isGroup
      · rw [groupValue_cons, hgroup.value_eq, hor, hlow, hshift]
        omega
      · intro n hn
        cases n with
        | zero => omega
        | succ n =>
          have hle := hgroup.length_le n (by rw [hshift, pow_succ] at *; omega)
          rw [List.length_cons]
          omega
      · intro fuel bytes hfuel
        cases fuel with
        | zero => omega
        | succ fuel =>
          have hcount := hgroup.counted fuel (bytes + 1) (by rw [hshift, pow_succ] at *; omega)
          rw [Stats.leb128Loop, if_pos (by omega), List.length_cons]
          rw [hshift] at hcount
          rw [Nat.shiftRight_eq_div_pow, show 2 ^ 7 = 128 from rfl]
          omega

theorem encodesTo (value : UInt64) : EncodesTo value (encodeOne value []) := by
  obtain ⟨group, hgroup⟩ := encodesTo_exists value
  rw [hgroup.appends, List.nil_append]
  exact hgroup

theorem encodeLeb128Values_eq (values : List UInt64) :
    encodeLeb128Values values = (values.map fun value => encodeOne value []).flatten := by
  have hfold : ∀ out, values.foldl (fun out v => encodeOne v out) out =
      out ++ (values.map fun value => encodeOne value []).flatten := by
    induction values with
    | nil => exact fun out => (List.append_nil out).symm
    | cons value values ih =>
      intro out
      rw [List.foldl_cons, ih, (encodesTo value).appends, List.map_cons, List.flatten_cons,
        List.append_assoc]
  exact hfold []

theorem leb128LenU64_eq (value : UInt64) :
    Stats.leb128LenU64 value.toNat = (encodeOne value []).length := by
  have hcount := (encodesTo value).counted 10 1 (value.toNat_lt.trans_le (by decide))
  rw [Stats.leb128LenU64]
  omega

/-- What is encoded is read back, and its length is the sum of the estimated lengths. -/
theorem leb128_round_trip (slice : U64Slice) :
    decodeLeb128Values (encodeLeb128Values slice.values) slice.values.length = .ok slice.values ∧
      (encodeLeb128Values slice.values).length =
        (slice.values.map fun value => Stats.leb128LenU64 value.toNat).sum := by
  rw [encodeLeb128Values_eq]
  refine ⟨?_, ?_⟩
  · have hsplit : SplitsInto continues (slice.values.map fun value => encodeOne value []).flatten
        (slice.values.map fun value => encodeOne value []) [] := by
      refine ⟨(List.append_nil _).symm, ?_⟩
      rw [List.forall_mem_map]
      exact fun value _ => (encodesTo value).isGroup
    rw [decodeLeb128Values_eq_ok]
    refine ⟨slice.size_le, _, [], hsplit, List.length_map _, ?_, ?_⟩
    · rw [List.forall_mem_map]
      exact fun value _ => (encodesTo value).length_le 9 (value.toNat_lt.trans_le (by decide))
    · rw [List.map_map]
      refine List.map_congr_left fun value _ => ?_
      rw [Function.comp_apply, (encodesTo value).value_eq, Nat.mod_eq_of_lt value.toNat_lt]
  · rw [List.length_flatten, List.map_map]
    congr 1
    exact List.map_congr_left fun value _ => (leb128LenU64_eq value).symm

end BitcoinData.Leb128
