import BitcoinData.Lib.Lists
import BitcoinData.Spec.SpentTxOuts

/-! Every reader of the spent-outputs decoder takes the encoding of one value off the front of the
input, and panics nowhere except where it allocates. -/

namespace BitcoinData

open Lib

/-! ## Positions and panics -/

namespace Cursor

def rest (self : Cursor) : Bytes := self.bytes.drop self.pos

def skip (self : Cursor) (count : ℕ) : Cursor := { self with pos := self.pos + count }

/-- The position is not behind the end. -/
def Inside (self : Cursor) : Prop := self.pos ≤ self.bytes.length

@[simp] theorem rest_skip (c : Cursor) (n : ℕ) : (c.skip n).rest = c.rest.drop n := by
  rw [rest, rest, skip, List.drop_drop]

@[simp] theorem skip_skip (c : Cursor) (m n : ℕ) : (c.skip m).skip n = c.skip (m + n) := by
  rw [skip, skip, skip, Nat.add_assoc]

theorem length_rest (c : Cursor) : c.rest.length = c.remaining := List.length_drop

theorem Inside.skip {c : Cursor} (hc : c.Inside) {w : Bytes} (hw : w <+: c.rest) :
    (c.skip w.length).Inside := by
  have hlen := hw.length_le
  rw [length_rest, remaining] at hlen
  unfold Inside at hc
  change c.pos + w.length ≤ c.bytes.length
  omega

end Cursor

/-- The computation ends with a result or an error. -/
structure NoPanic {α : Type} (x : Except DecodeFault α) : Prop where
  capacity : x ≠ .error .capacityOverflow
  slice : x ≠ .error .sliceOutOfRange

theorem noPanic_ok {α : Type} (a : α) : NoPanic (.ok a) := ⟨nofun, nofun⟩

theorem noPanic_orFailed {α : Type} (x : Except String α) : NoPanic (orFailed x) := by
  cases x <;> exact ⟨nofun, nofun⟩

theorem NoPanic.bind {α β : Type} {x : Except DecodeFault α} {f : α → Except DecodeFault β}
    (hx : NoPanic x) (hf : ∀ a, x = .ok a → NoPanic (f a)) : NoPanic (x >>= f) := by
  cases x with
  | ok a => exact hf a rfl
  | error e => exact ⟨fun h => hx.capacity (by cases h; rfl), fun h => hx.slice (by cases h; rfl)⟩

theorem noPanic_bind_iff {α β : Type} {x : Except DecodeFault α} {f : α → Except DecodeFault β}
    (hx : NoPanic x) : NoPanic (x >>= f) ↔ ∀ a, x = .ok a → NoPanic (f a) := by
  refine ⟨?_, hx.bind⟩
  rintro h a rfl
  exact h

theorem NoPanic.of_bind {α β : Type} {x : Except DecodeFault α} {f : α → Except DecodeFault β}
    (h : NoPanic (x >>= f)) : NoPanic x := by
  cases x with
  | ok a => exact noPanic_ok a
  | error e => exact ⟨fun he => h.capacity (by rw [he]; rfl), fun he => h.slice (by rw [he]; rfl)⟩

@[simp] theorem orFailed_eq_ok {α : Type} {x : Except String α} {a : α} :
    orFailed x = .ok a ↔ x = .ok a := by
  cases x <;> simp [orFailed]

theorem withCapacity_of {size capacity : ℕ} (h : capacity * size ≤ ISIZE_MAX) :
    withCapacity size capacity = .ok () := if_pos h

@[simp] theorem withCapacity_eq_ok {size capacity : ℕ} {u : Unit} :
    withCapacity size capacity = .ok u ↔ capacity * size ≤ ISIZE_MAX := by
  unfold withCapacity
  split_ifs with h <;> simp [h]

theorem noPanic_withCapacity {size capacity : ℕ} :
    NoPanic (withCapacity size capacity) ↔ capacity * size ≤ ISIZE_MAX := by
  unfold withCapacity
  split_ifs with h
  · exact ⟨fun _ => h, fun _ => noPanic_ok ()⟩
  · exact ⟨fun hp => absurd rfl hp.capacity, fun hle => absurd hle h⟩

/-- A read at `c` that takes the encoding of one valid value, and panics never. -/
structure Cursor.Reads {α : Type} (c : Cursor) (x : Except DecodeFault (α × Cursor)) (valid : α → Prop)
    (encode : α → Bytes) : Prop where
  eq_ok : ∀ {a c'}, x = .ok (a, c') ↔
    valid a ∧ encode a <+: c.rest ∧ c' = c.skip (encode a).length
  noPanic : NoPanic x

/-! ## Integers -/

variable {c : Cursor}

theorem readU8_reads (c : Cursor) : c.Reads c.readU8 (fun _ => True) fun byte => [byte] := by
  unfold Cursor.readU8
  have hhead : c.bytes[c.pos]? = c.rest[0]? := by rw [Cursor.rest, List.getElem?_drop, Nat.add_zero]
  rw [hhead]
  cases hrest : c.rest with
  | nil => exact ⟨by simp [hrest], ⟨nofun, nofun⟩⟩
  | cons byte rest =>
    refine ⟨fun {a c'} => ?_, noPanic_ok _⟩
    simp only [hrest, List.getElem?_cons_zero, Except.ok.injEq, Prod.mk.injEq, true_and,
      List.cons_prefix_cons, List.nil_prefix, and_true, List.length_singleton]
    exact and_congr eq_comm eq_comm

theorem readExact_reads (hc : c.Inside) (len : ℕ) :
    c.Reads (c.readExact len) (fun w => w.length = len) fun w => w := by
  unfold Cursor.Inside at hc
  have hslice : len ≤ c.remaining →
      c.slice c.pos (c.pos + len) = .ok (c.rest.take len) := by
    intro hlen
    unfold Cursor.remaining at hlen
    rw [Cursor.slice, if_pos ⟨by omega, by omega⟩, Nat.add_sub_cancel_left]
    rfl
  refine ⟨?_, ?_⟩
  · intro w c'
    simp only [Cursor.readExact, bind_eq_ok, orFailed_eq_ok, ensure_eq_ok, exists_const, pure_eq_ok,
      Except.ok.injEq, Prod.mk.injEq]
    refine ⟨?_, ?_⟩
    · rintro ⟨hlen, slice, hs, rfl, rfl⟩
      rw [hslice hlen, Except.ok.injEq] at hs
      subst hs
      have hw : (c.rest.take len).length = len := by
        rw [List.length_take, Cursor.length_rest]
        exact min_eq_left hlen
      exact ⟨hw, List.take_prefix _ _, by rw [hw]; rfl⟩
    · rintro ⟨rfl, hw, rfl⟩
      have hlen : w.length ≤ c.remaining := c.length_rest ▸ hw.length_le
      exact ⟨hlen, w, by rw [hslice hlen, ← List.prefix_iff_eq_take.mp hw], rfl, rfl⟩
  · unfold Cursor.readExact
    refine (noPanic_orFailed _).bind fun _ hlen => ?_
    rw [orFailed_eq_ok, ensure_eq_ok] at hlen
    simp only [hslice hlen, ok_bind]
    exact noPanic_ok _

theorem readWide_reads (hc : c.Inside) (width least : ℕ) :
    c.Reads (c.readWide width least) (fun n => least ≤ n ∧ n < 256 ^ width) (digits width) := by
  have hread := readExact_reads hc width
  refine ⟨?_, ?_⟩
  · intro n c'
    simp only [Cursor.readWide, bind_eq_ok, orFailed_eq_ok, ensure_eq_ok, exists_const, pure_eq_ok,
      Except.ok.injEq, Prod.mk.injEq, Prod.exists, hread.eq_ok]
    refine ⟨?_, ?_⟩
    · rintro ⟨w, _, ⟨rfl, hw, rfl⟩, hleast, rfl, rfl⟩
      rw [digits_fromDigits]
      exact ⟨⟨hleast, fromDigits_lt w⟩, hw, rfl⟩
    · rintro ⟨⟨hleast, hlt⟩, hw, rfl⟩
      have hn := fromDigits_digits hlt
      exact ⟨digits width n, _, ⟨length_digits _ _, hw, rfl⟩, hn.symm ▸ hleast, hn, rfl⟩
  · unfold Cursor.readWide
    exact hread.noPanic.bind fun _ _ => (noPanic_orFailed _).bind fun _ _ => noPanic_ok _

theorem readMarked_eq_ok (hc : c.Inside) {marker : UInt8} (hmarker : [marker] <+: c.rest)
    {width least n : ℕ} {c' : Cursor} :
    (c.skip 1).readWide width least = .ok (n, c') ↔ (least ≤ n ∧ n < 256 ^ width) ∧
      marker :: digits width n <+: c.rest ∧ c' = c.skip (marker :: digits width n).length := by
  have hinside : (c.skip 1).Inside := hc.skip hmarker
  rw [(readWide_reads hinside width least).eq_ok, Cursor.rest_skip, Cursor.skip_skip, length_digits,
    List.length_cons, length_digits, Nat.add_comm 1 width, ← List.singleton_append, append_prefix_iff]
  simp only [hmarker, List.length_singleton, true_and]

theorem compactSize_byte {n : ℕ} (h : n ≤ 0xfc) : compactSize n = [UInt8.ofNat n] := if_pos h

theorem compactSize_fd {n : ℕ} (hlo : 0xfd ≤ n) (hhi : n < 256 ^ 2) :
    compactSize n = 0xfd :: digits 2 n := by
  rw [compactSize, if_neg (by omega), if_pos (by omega)]

theorem compactSize_fe {n : ℕ} (hlo : 0xffff + 1 ≤ n) (hhi : n < 256 ^ 4) :
    compactSize n = 0xfe :: digits 4 n := by
  rw [compactSize, if_neg (by omega), if_neg (by omega), if_pos (by omega)]

theorem compactSize_ff {n : ℕ} (hlo : 0xffffffff + 1 ≤ n) : compactSize n = 0xff :: digits 8 n := by
  rw [compactSize, if_neg (by omega), if_neg (by omega), if_neg (by omega)]

theorem marker_cases {first : UInt8} (h : ¬ first ≤ 0xfc) :
    first = 0xfd ∨ first = 0xfe ∨ first = 0xff := by
  have hlt := first.toNat_lt
  rw [UInt8.le_iff_toNat_le, show (0xfc : UInt8).toNat = 252 from rfl] at h
  simp only [← UInt8.toNat_inj, show (0xfd : UInt8).toNat = 253 from rfl,
    show (0xfe : UInt8).toNat = 254 from rfl, show (0xff : UInt8).toNat = 255 from rfl]
  omega

theorem readCompactSize_reads (hc : c.Inside) :
    c.Reads c.readCompactSize (fun n => n ≤ U64_MAX) compactSize := by
  have hbyte := readU8_reads c
  refine ⟨?_, ?_⟩
  · intro n c'
    simp only [Cursor.readCompactSize, bind_eq_ok, Prod.exists, hbyte.eq_ok, true_and]
    refine ⟨?_, ?_⟩
    · rintro ⟨first, _, ⟨hfirst, rfl⟩, h⟩
      rw [List.length_singleton] at h
      by_cases hsmall : first ≤ 0xfc
      · rw [if_pos hsmall, pure_eq_ok, Except.ok.injEq, Prod.mk.injEq] at h
        obtain ⟨rfl, rfl⟩ := h
        have hle : first.toNat ≤ 0xfc := UInt8.le_iff_toNat_le.mp hsmall
        rw [compactSize_byte hle, UInt8.ofNat_toNat]
        exact ⟨hle.trans (by decide), hfirst, rfl⟩
      · rw [if_neg hsmall] at h
        rcases marker_cases hsmall with rfl | rfl | rfl
        · rw [if_pos rfl, readMarked_eq_ok hc hfirst] at h
          obtain ⟨⟨hlo, hhi⟩, hw, rfl⟩ := h
          rw [compactSize_fd hlo hhi]
          exact ⟨hhi.le.trans (by decide), hw, rfl⟩
        · rw [if_neg (by decide), if_pos rfl, readMarked_eq_ok hc hfirst] at h
          obtain ⟨⟨hlo, hhi⟩, hw, rfl⟩ := h
          rw [compactSize_fe hlo hhi]
          exact ⟨hhi.le.trans (by decide), hw, rfl⟩
        · rw [if_neg (by decide), if_neg (by decide), readMarked_eq_ok hc hfirst] at h
          obtain ⟨⟨hlo, hhi⟩, hw, rfl⟩ := h
          rw [compactSize_ff hlo]
          exact ⟨Nat.le_sub_one_of_lt hhi, hw, rfl⟩
    · rintro ⟨hn, hw, hc'⟩
      have hhead : ∀ {marker : UInt8} {k : ℕ}, marker :: digits k n <+: c.rest → [marker] <+: c.rest :=
        fun h => (append_prefix_iff.mp h).1
      by_cases h₁ : n ≤ 0xfc
      · rw [compactSize_byte h₁] at hw hc'
        have hto : (UInt8.ofNat n).toNat = n := UInt8.toNat_ofNat_of_lt' (h₁.trans_lt (by decide))
        refine ⟨UInt8.ofNat n, _, ⟨hw, rfl⟩, ?_⟩
        have hle : UInt8.ofNat n ≤ 0xfc := UInt8.le_iff_toNat_le.mpr (hto.le.trans h₁)
        rw [if_pos hle, hto, hc']
        rfl
      · by_cases h₂ : n < 256 ^ 2
        · rw [compactSize_fd (by omega) h₂] at hw hc'
          refine ⟨0xfd, _, ⟨hhead hw, rfl⟩, ?_⟩
          rw [if_neg (by decide), if_pos rfl]
          exact (readMarked_eq_ok hc (hhead hw)).mpr ⟨⟨by omega, h₂⟩, hw, hc'⟩
        · by_cases h₃ : n < 256 ^ 4
          · rw [compactSize_fe (by omega) h₃] at hw hc'
            refine ⟨0xfe, _, ⟨hhead hw, rfl⟩, ?_⟩
            rw [if_neg (by decide), if_neg (by decide), if_pos rfl]
            exact (readMarked_eq_ok hc (hhead hw)).mpr ⟨⟨by omega, h₃⟩, hw, hc'⟩
          · rw [compactSize_ff (by omega)] at hw hc'
            refine ⟨0xff, _, ⟨hhead hw, rfl⟩, ?_⟩
            rw [if_neg (by decide), if_neg (by decide), if_neg (by decide)]
            refine (readMarked_eq_ok hc (hhead hw)).mpr ⟨⟨by omega, ?_⟩, hw, hc'⟩
            exact Nat.lt_of_le_pred (by decide) hn
  · unfold Cursor.readCompactSize
    refine hbyte.noPanic.bind ?_
    rintro ⟨first, c₁⟩ h
    obtain ⟨-, hfirst, rfl⟩ := hbyte.eq_ok.mp h
    have hwide := fun width least => (readWide_reads (hc.skip hfirst) width least).noPanic
    simp only
    split_ifs
    · exact noPanic_ok _
    · exact hwide _ _
    · exact hwide _ _
    · exact hwide _ _

theorem i64FromLeBytes_nonneg {b : Bytes} (hlen : b.length = 8) :
    0 ≤ Cursor.i64FromLeBytes b ↔ fromDigits b ≤ I64_MAX := by
  have hlt := fromDigits_lt b
  rw [hlen] at hlt
  unfold Cursor.i64FromLeBytes I64_MAX
  split_ifs <;> omega

theorem readTxoutValue_reads (hc : c.Inside) :
    c.Reads c.readTxoutValue (fun v => v.toNat ≤ I64_MAX) fun v => digits 8 v.toNat := by
  have hread := readExact_reads hc 8
  refine ⟨?_, ?_⟩
  · intro v c'
    simp only [Cursor.readTxoutValue, bind_eq_ok, orFailed_eq_ok, ensure_eq_ok, exists_const, pure_eq_ok,
      Except.ok.injEq, Prod.mk.injEq, Prod.exists, hread.eq_ok]
    refine ⟨?_, ?_⟩
    · rintro ⟨b, _, ⟨hlen, hb, rfl⟩, hvalue, rfl, rfl⟩
      have hle := (i64FromLeBytes_nonneg hlen).mp hvalue
      have hto : (UInt64.ofNat (Cursor.i64FromLeBytes b).toNat).toNat = fromDigits b := by
        rw [Cursor.i64FromLeBytes, if_pos hle, Int.toNat_natCast]
        exact UInt64.toNat_ofNat_of_lt' (hle.trans_lt (by decide))
      rw [hto, ← hlen, digits_fromDigits]
      exact ⟨hle, hb, rfl⟩
    · rintro ⟨hle, hb, rfl⟩
      have hdigits : fromDigits (digits 8 v.toNat) = v.toNat := fromDigits_digits v.toNat_lt
      have hlen : (digits 8 v.toNat).length = 8 := length_digits _ _
      refine ⟨_, _, ⟨hlen, hb, rfl⟩, (i64FromLeBytes_nonneg hlen).mpr (hdigits.symm ▸ hle), ?_, rfl⟩
      rw [Cursor.i64FromLeBytes, hdigits, if_pos hle, Int.toNat_natCast, UInt64.ofNat_toNat]
  · unfold Cursor.readTxoutValue
    exact hread.noPanic.bind fun _ _ => (noPanic_orFailed _).bind fun _ _ => noPanic_ok _

theorem readRawScript_reads (hc : c.Inside) :
    c.Reads c.readRawScript (fun script => script.length ≤ U64_MAX)
      fun script => compactSize script.length ++ script := by
  have hlen := readCompactSize_reads hc
  refine ⟨?_, ?_⟩
  · intro script c'
    simp only [Cursor.readRawScript, bind_eq_ok, Prod.exists, hlen.eq_ok, append_prefix_iff]
    refine ⟨?_, ?_⟩
    · rintro ⟨len, _, ⟨hle, hw, rfl⟩, h⟩
      rw [(readExact_reads (hc.skip hw) len).eq_ok, Cursor.rest_skip, Cursor.skip_skip] at h
      obtain ⟨rfl, hscript, rfl⟩ := h
      rw [List.length_append]
      exact ⟨hle, ⟨hw, hscript⟩, rfl⟩
    · rintro ⟨hle, ⟨hw, hscript⟩, rfl⟩
      refine ⟨script.length, _, ⟨hle, hw, rfl⟩, ?_⟩
      rw [(readExact_reads (hc.skip hw) _).eq_ok, Cursor.rest_skip, Cursor.skip_skip, List.length_append]
      exact ⟨rfl, hscript, rfl⟩
  · unfold Cursor.readRawScript
    refine hlen.noPanic.bind ?_
    rintro ⟨len, c₁⟩ h
    obtain ⟨-, hw, rfl⟩ := hlen.eq_ok.mp h
    exact (readExact_reads (hc.skip hw) len).noPanic

/-! ## Outputs and transactions -/

theorem readOutput_eq_ok (hc : c.Inside) {valueSat : UInt64} {script : Bytes} {c' : Cursor} :
    (∃ c₁, c.readTxoutValue = .ok (valueSat, c₁) ∧ c₁.readRawScript = .ok (script, c')) ↔
      SpentTxOut.Held ⟨valueSat, script⟩ ∧ SpentTxOut.encoded ⟨valueSat, script⟩ <+: c.rest ∧
        c' = c.skip (SpentTxOut.encoded ⟨valueSat, script⟩).length := by
  simp only [(readTxoutValue_reads hc).eq_ok, SpentTxOut.encoded, @append_prefix_iff _ (digits _ _)]
  refine ⟨?_, ?_⟩
  · rintro ⟨_, ⟨hvalue, hw, rfl⟩, h⟩
    rw [(readRawScript_reads (hc.skip hw)).eq_ok, Cursor.rest_skip, Cursor.skip_skip] at h
    obtain ⟨hscript, hs, rfl⟩ := h
    exact ⟨⟨hvalue, hscript⟩, ⟨hw, hs⟩, by rw [← List.length_append]⟩
  · rintro ⟨hheld, ⟨hw, hs⟩, rfl⟩
    refine ⟨_, ⟨hheld.value, hw, rfl⟩, ?_⟩
    rw [(readRawScript_reads (hc.skip hw)).eq_ok, Cursor.rest_skip, Cursor.skip_skip, ← List.length_append]
    exact ⟨hheld.script, hs, rfl⟩

theorem readSpentInputs_reads (hc : c.Inside) (count : ℕ) :
    c.Reads (readSpentInputs count c) (fun inputs => inputs.length = count ∧ ∀ o ∈ inputs, o.Held)
      fun inputs => inputs.flatMap SpentTxOut.encoded := by
  induction count generalizing c with
  | zero =>
    refine ⟨fun {inputs c'} => ?_, noPanic_ok _⟩
    rw [readSpentInputs, Except.ok.injEq, Prod.mk.injEq]
    refine ⟨?_, ?_⟩
    · rintro ⟨rfl, rfl⟩
      exact ⟨⟨rfl, nofun⟩, List.nil_prefix, rfl⟩
    · rintro ⟨⟨hlen, -⟩, -, rfl⟩
      obtain rfl := List.length_eq_zero_iff.mp hlen
      exact ⟨rfl, rfl⟩
  | succ count ih =>
    refine ⟨?_, ?_⟩
    · intro inputs c'
      simp only [readSpentInputs, bind_eq_ok, Prod.exists, pure_eq_ok, Except.ok.injEq, Prod.mk.injEq]
      refine ⟨?_, ?_⟩
      · rintro ⟨valueSat, c₁, hvalue, script, c₂, hscript, rest, _, hrest, rfl, rfl⟩
        obtain ⟨hheld, hw, rfl⟩ := (readOutput_eq_ok hc).mp ⟨c₁, hvalue, hscript⟩
        rw [(ih (hc.skip hw)).eq_ok, Cursor.rest_skip, Cursor.skip_skip] at hrest
        obtain ⟨⟨hlen, hall⟩, hws, rfl⟩ := hrest
        rw [List.flatMap_cons, append_prefix_iff, List.length_append, List.length_cons, hlen,
          List.forall_mem_cons]
        exact ⟨⟨rfl, hheld, hall⟩, ⟨hw, hws⟩, rfl⟩
      · rintro ⟨⟨hlen, hall⟩, hw, rfl⟩
        obtain ⟨⟨valueSat, script⟩, rest, rfl⟩ := List.exists_cons_of_length_eq_add_one hlen
        rw [List.flatMap_cons, append_prefix_iff] at hw
        rw [List.forall_mem_cons] at hall
        obtain ⟨c₁, hvalue, hscript⟩ := (readOutput_eq_ok hc).mpr ⟨hall.1, hw.1, rfl⟩
        have hrest := (ih (hc.skip hw.1)).eq_ok.mpr
          ⟨⟨Nat.succ.inj hlen, hall.2⟩, (Cursor.rest_skip _ _).symm ▸ hw.2, rfl⟩
        refine ⟨valueSat, c₁, hvalue, script, _, hscript, rest, _, hrest, rfl, ?_⟩
        rw [Cursor.skip_skip, List.flatMap_cons, List.length_append]
    · rw [readSpentInputs]
      refine (readTxoutValue_reads hc).noPanic.bind ?_
      rintro ⟨valueSat, c₁⟩ hvalue
      obtain ⟨-, hw, rfl⟩ := (readTxoutValue_reads hc).eq_ok.mp hvalue
      refine (readRawScript_reads (hc.skip hw)).noPanic.bind ?_
      rintro ⟨script, c₂⟩ hscript
      obtain ⟨-, hw', rfl⟩ := (readOutput_eq_ok hc).mp ⟨_, hvalue, hscript⟩
      exact (ih (hc.skip hw')).noPanic.bind fun _ _ => noPanic_ok _

theorem readTx_eq_ok (hc : c.Inside) {inputs : List SpentTxOut} {c' : Cursor} :
    (∃ count c₁, c.readCompactSize = .ok (count, c₁) ∧ count * SPENT_TXOUT_SIZE ≤ ISIZE_MAX ∧
      readSpentInputs count c₁ = .ok (inputs, c')) ↔
      InputsHeld inputs ∧ encodedInputs inputs <+: c.rest ∧ c' = c.skip (encodedInputs inputs).length := by
  simp only [(readCompactSize_reads hc).eq_ok, encodedInputs, append_prefix_iff]
  refine ⟨?_, ?_⟩
  · rintro ⟨count, _, ⟨-, hw, rfl⟩, hcap, h⟩
    rw [(readSpentInputs_reads (hc.skip hw) count).eq_ok, Cursor.rest_skip, Cursor.skip_skip] at h
    obtain ⟨⟨rfl, hall⟩, hws, rfl⟩ := h
    exact ⟨⟨hall, hcap⟩, ⟨hw, hws⟩, by rw [List.length_append]⟩
  · rintro ⟨hheld, ⟨hw, hws⟩, rfl⟩
    have hcap := hheld.capacity
    refine ⟨inputs.length, _, ⟨?_, hw, rfl⟩, hcap, ?_⟩
    · unfold ISIZE_MAX SPENT_TXOUT_SIZE VEC_SIZE at hcap
      unfold U64_MAX
      omega
    · rw [(readSpentInputs_reads (hc.skip hw) _).eq_ok, Cursor.rest_skip, Cursor.skip_skip,
        List.length_append]
      exact ⟨⟨rfl, hheld.outputs⟩, hws, rfl⟩

theorem readSpentTxs_eq_ok (hc : c.Inside) {count : ℕ} {txs : List (List SpentTxOut)} {c' : Cursor} :
    readSpentTxs count c = .ok (txs, c') ↔ (txs.length = count ∧ ∀ inputs ∈ txs, InputsHeld inputs) ∧
      txs.flatMap encodedInputs <+: c.rest ∧ c' = c.skip (txs.flatMap encodedInputs).length := by
  induction count generalizing c txs c' with
  | zero =>
    rw [readSpentTxs, Except.ok.injEq, Prod.mk.injEq]
    refine ⟨?_, ?_⟩
    · rintro ⟨rfl, rfl⟩
      exact ⟨⟨rfl, nofun⟩, List.nil_prefix, rfl⟩
    · rintro ⟨⟨hlen, -⟩, -, rfl⟩
      obtain rfl := List.length_eq_zero_iff.mp hlen
      exact ⟨rfl, rfl⟩
  | succ count ih =>
    simp only [readSpentTxs, bind_eq_ok, Prod.exists, withCapacity_eq_ok, exists_const, pure_eq_ok,
      Except.ok.injEq, Prod.mk.injEq]
    refine ⟨?_, ?_⟩
    · rintro ⟨inputCount, c₁, hcount, hcap, inputs, c₂, hinputs, rest, _, hrest, rfl, rfl⟩
      obtain ⟨hheld, hw, rfl⟩ := (readTx_eq_ok hc).mp ⟨inputCount, c₁, hcount, hcap, hinputs⟩
      rw [ih (hc.skip hw), Cursor.rest_skip, Cursor.skip_skip] at hrest
      obtain ⟨⟨hlen, hall⟩, hws, rfl⟩ := hrest
      rw [List.flatMap_cons, append_prefix_iff, List.length_append, List.length_cons, hlen,
        List.forall_mem_cons]
      exact ⟨⟨rfl, hheld, hall⟩, ⟨hw, hws⟩, rfl⟩
    · rintro ⟨⟨hlen, hall⟩, hw, rfl⟩
      obtain ⟨inputs, rest, rfl⟩ := List.exists_cons_of_length_eq_add_one hlen
      rw [List.flatMap_cons, append_prefix_iff] at hw
      rw [List.forall_mem_cons] at hall
      obtain ⟨inputCount, c₁, hcount, hcap, hinputs⟩ := (readTx_eq_ok hc).mpr ⟨hall.1, hw.1, rfl⟩
      have hrest := (ih (hc.skip hw.1)).mpr
        ⟨⟨Nat.succ.inj hlen, hall.2⟩, (Cursor.rest_skip _ _).symm ▸ hw.2, rfl⟩
      refine ⟨inputCount, c₁, hcount, hcap, inputs, _, hinputs, rest, _, hrest, rfl, ?_⟩
      rw [Cursor.skip_skip, List.flatMap_cons, List.length_append]

/-! ## Panics -/

/-- Behind any complete transactions, fewer than `count`, the next count of inputs fits a `Vec`. -/
def InputsFit (count : ℕ) (rest : Bytes) : Prop :=
  ∀ txs : List (List SpentTxOut), (∀ inputs ∈ txs, InputsHeld inputs) → txs.length < count →
    ∀ inputCount ≤ U64_MAX, txs.flatMap encodedInputs ++ compactSize inputCount <+: rest →
      inputCount * SPENT_TXOUT_SIZE ≤ ISIZE_MAX

theorem inputsFit_succ {count : ℕ} {rest : Bytes} : InputsFit (count + 1) rest ↔
    (∀ inputCount ≤ U64_MAX, compactSize inputCount <+: rest →
      inputCount * SPENT_TXOUT_SIZE ≤ ISIZE_MAX) ∧
    ∀ inputs, InputsHeld inputs → encodedInputs inputs <+: rest →
      InputsFit count (rest.drop (encodedInputs inputs).length) := by
  refine ⟨?_, ?_⟩
  · intro h
    refine ⟨fun inputCount hle hw => h [] nofun (Nat.succ_pos _) inputCount hle hw, ?_⟩
    intro inputs hheld hw txs hall hlen inputCount hle hws
    refine h (inputs :: txs) (List.forall_mem_cons.mpr ⟨hheld, hall⟩) (Nat.succ_lt_succ hlen) inputCount hle ?_
    rw [List.flatMap_cons, List.append_assoc, append_prefix_iff]
    exact ⟨hw, hws⟩
  · rintro ⟨hfirst, hnext⟩ txs hall hlen inputCount hle hw
    cases txs with
    | nil => exact hfirst inputCount hle hw
    | cons inputs txs =>
      rw [List.forall_mem_cons] at hall
      rw [List.flatMap_cons, List.append_assoc, append_prefix_iff] at hw
      exact hnext inputs hall.1 hw.1 txs hall.2 (Nat.lt_of_succ_lt_succ hlen) inputCount hle hw.2

theorem noPanic_readSpentTxs (hc : c.Inside) (count : ℕ) :
    NoPanic (readSpentTxs count c) ↔ InputsFit count c.rest := by
  induction count generalizing c with
  | zero => exact ⟨fun _ _ _ hlt => absurd hlt (Nat.not_lt_zero _), fun _ => noPanic_ok _⟩
  | succ count ih =>
    have hsize := readCompactSize_reads hc
    rw [readSpentTxs, noPanic_bind_iff hsize.noPanic, inputsFit_succ]
    refine ⟨?_, ?_⟩
    · intro h
      have hfirst : ∀ inputCount ≤ U64_MAX, compactSize inputCount <+: c.rest →
          inputCount * SPENT_TXOUT_SIZE ≤ ISIZE_MAX := by
        intro inputCount hle hw
        exact noPanic_withCapacity.mp (h _ (hsize.eq_ok.mpr ⟨hle, hw, rfl⟩)).of_bind
      refine ⟨hfirst, fun inputs hheld hw => ?_⟩
      obtain ⟨inputCount, c₁, hcount, hcap, hinputs⟩ := (readTx_eq_ok hc).mpr ⟨hheld, hw, rfl⟩
      have hp := h _ hcount
      simp only [withCapacity_of hcap, ok_bind, hinputs] at hp
      rw [← Cursor.rest_skip, ← ih (hc.skip hw)]
      exact hp.of_bind
    · rintro ⟨hfirst, hnext⟩ ⟨inputCount, c₁⟩ hcount
      obtain ⟨hle, hw, rfl⟩ := hsize.eq_ok.mp hcount
      have hread := readSpentInputs_reads (hc.skip hw) inputCount
      refine (noPanic_withCapacity.mpr (hfirst inputCount hle hw)).bind fun _ hcap => hread.noPanic.bind ?_
      rw [withCapacity_eq_ok] at hcap
      rintro ⟨inputs, c₂⟩ hinputs
      obtain ⟨hheld, hws, rfl⟩ := (readTx_eq_ok hc).mp ⟨inputCount, _, hcount, hcap, hinputs⟩
      refine NoPanic.bind ?_ fun _ _ => noPanic_ok _
      exact (ih (hc.skip hws)).mpr ((Cursor.rest_skip _ _).symm ▸ hnext inputs hheld hws)

/-! ## The decoder -/

theorem inside_new (bytes : Bytes) : (Cursor.new bytes).Inside := Nat.zero_le _

theorem isEmpty_skip (bytes w : Bytes) (h : w <+: bytes) :
    ((Cursor.new bytes).skip w.length).isEmpty = true ↔ bytes = w := by
  have hpos : ((Cursor.new bytes).skip w.length).isEmpty = decide (w.length = bytes.length) := by
    simp [Cursor.isEmpty, Cursor.skip, Cursor.new]
  rw [hpos, decide_eq_true_eq]
  exact ⟨fun hlen => (h.eq_of_length hlen).symm, fun heq => by rw [heq]⟩

/-- What the decoder accepts, and what it makes of it. -/
theorem decodeSpentTxouts_eq_ok {bytes : Bytes} {block : BlockSpentTxOuts} :
    decodeSpentTxoutsPayload bytes = .ok block ↔ block.Held ∧ bytes = block.encoded := by
  have hc := inside_new bytes
  have hsize := readCompactSize_reads hc
  simp only [decodeSpentTxoutsPayload, bind_eq_ok, Prod.exists, hsize.eq_ok, withCapacity_eq_ok,
    exists_const, orFailed_eq_ok, ensure_eq_ok, pure_eq_ok, Except.ok.injEq]
  refine ⟨?_, ?_⟩
  · rintro ⟨count, _, ⟨-, hw, rfl⟩, hcap, txs, c', htxs, hend, rfl⟩
    rw [readSpentTxs_eq_ok (hc.skip hw), Cursor.rest_skip, Cursor.skip_skip, ← List.length_append] at htxs
    obtain ⟨⟨rfl, hall⟩, hws, rfl⟩ := htxs
    have hprefix : compactSize txs.length ++ txs.flatMap encodedInputs <+: bytes :=
      append_prefix_iff.mpr ⟨hw, hws⟩
    exact ⟨⟨hall, hcap⟩, (isEmpty_skip _ _ hprefix).mp hend⟩
  · rintro ⟨hheld, rfl⟩
    have hcap := hheld.capacity
    have hw : compactSize block.txs.length <+: block.encoded := List.prefix_append _ _
    refine ⟨_, _, ⟨?_, hw, rfl⟩, hcap, block.txs,
      (Cursor.new block.encoded).skip block.encoded.length, ?_, ?_, rfl⟩
    · unfold ISIZE_MAX VEC_SIZE at hcap
      unfold U64_MAX
      omega
    · rw [readSpentTxs_eq_ok (hc.skip hw), Cursor.rest_skip, Cursor.skip_skip, ← List.length_append]
      refine ⟨⟨rfl, hheld.inputs⟩, ?_, rfl⟩
      change _ <+: block.encoded.drop _
      rw [BlockSpentTxOuts.encoded, List.drop_left]
    · exact (isEmpty_skip _ _ (List.prefix_refl _)).mpr rfl

theorem noPanic_decodeSpentTxouts (bytes : Bytes) :
    NoPanic (decodeSpentTxoutsPayload bytes) ↔ CountsFit bytes := by
  have hc := inside_new bytes
  have hsize := readCompactSize_reads hc
  rw [decodeSpentTxoutsPayload, noPanic_bind_iff hsize.noPanic]
  refine ⟨?_, ?_⟩
  · intro h
    have hcap : ∀ count ≤ U64_MAX, compactSize count <+: bytes → count * VEC_SIZE ≤ ISIZE_MAX := by
      intro count hle hw
      exact noPanic_withCapacity.mp (h _ (hsize.eq_ok.mpr ⟨hle, hw, rfl⟩)).of_bind
    refine ⟨hcap, fun count hle txs hall hlen inputCount hinput hw => ?_⟩
    obtain ⟨hw, hws⟩ := append_prefix_iff.mp hw
    have hp := h _ (hsize.eq_ok.mpr ⟨hle, hw, rfl⟩)
    simp only [withCapacity_of (hcap count hle hw), ok_bind] at hp
    have hfit : InputsFit count (bytes.drop (compactSize count).length) := by
      change InputsFit count ((Cursor.new bytes).rest.drop _)
      rw [← Cursor.rest_skip, ← noPanic_readSpentTxs (hc.skip hw)]
      exact hp.of_bind
    exact hfit txs hall hlen inputCount hinput hws
  · rintro hfit ⟨count, c₁⟩ hcount
    obtain ⟨hle, hw, rfl⟩ := hsize.eq_ok.mp hcount
    refine (noPanic_withCapacity.mpr (hfit.txs count hle hw)).bind fun _ _ => ?_
    refine NoPanic.bind ?_ fun _ _ => (noPanic_orFailed _).bind fun _ _ => noPanic_ok _
    rw [noPanic_readSpentTxs (hc.skip hw), Cursor.rest_skip]
    intro txs hall hlen inputCount hinput hws
    exact hfit.inputs count hle txs hall hlen inputCount hinput (append_prefix_iff.mpr ⟨hw, hws⟩)

end BitcoinData
