import BitcoinData.Lib.Bits
import BitcoinData.Sanity.Valid

/-! The skipped-transaction bitmap as a set of positions. -/

namespace BitcoinData

open Lib

/-- Bit `p` of a bitmap, lowest bit of each byte first. -/
def txBit (bitmap : Bytes) (p : ℕ) : Bool := byteBit bitmap (p / 8) (p % 8)

/-- A bitmap for `n` transactions: the right length, and no bit set behind them. -/
structure BitmapOk (n : ℕ) (bitmap : Bytes) : Prop where
  length : bitmap.length = (n + 7) / 8
  padding : ∀ p, n ≤ p → txBit bitmap p = false

theorem paddingMask_eq_zero (b : UInt8) {u : ℕ} (hu : u < 8) :
    b &&& ~~~((1 <<< UInt8.ofNat u) - 1) = 0 ↔ ∀ t, u ≤ t → b.toNat.testBit t = false := by
  have hshift : (1 <<< UInt8.ofNat u : UInt8).toNat = 2 ^ u := by
    rw [UInt8.toNat_shiftLeft, UInt8.toNat_ofNat_of_lt' (by unfold UInt8.size; omega),
      Nat.mod_eq_of_lt hu, UInt8.toNat_one, Nat.one_shiftLeft]
    exact Nat.mod_eq_of_lt (Nat.pow_lt_pow_right (by omega) hu)
  have hpos := Nat.two_pow_pos u
  have hmask : ((1 <<< UInt8.ofNat u) - 1 : UInt8).toNat = 2 ^ u - 1 := by
    rw [UInt8.toNat_sub_of_le _ _ (by rw [UInt8.le_iff_toNat_le, hshift, UInt8.toNat_one]; omega),
      hshift, UInt8.toNat_one]
  have hbit : ∀ t, (b &&& ~~~((1 <<< UInt8.ofNat u) - 1)).toNat.testBit t =
      (b.toNat.testBit t && (decide (t < 8) && !decide (t < u))) := by
    intro t
    rw [UInt8.toNat_and, UInt8.toNat_not, hmask, Nat.testBit_and]
    congr 1
    have hlt : 2 ^ u - 1 < 2 ^ 8 := by
      have := Nat.pow_lt_pow_right (show 1 < 2 by omega) hu
      omega
    rw [show UInt8.size - 1 - (2 ^ u - 1) = 2 ^ 8 - (2 ^ u - 1 + 1) by unfold UInt8.size; omega,
      Nat.testBit_two_pow_sub_succ hlt, Nat.testBit_two_pow_sub_one]
  have hlt8 : ∀ t, 8 ≤ t → b.toNat.testBit t = false := fun t ht =>
    Nat.testBit_lt_two_pow (lt_of_lt_of_le b.toNat_lt (Nat.pow_le_pow_right (by omega) ht))
  rw [← UInt8.toNat_inj, UInt8.toNat_zero]
  constructor
  · intro h t ht
    by_cases h8 : t < 8
    · have := hbit t
      rw [h, Nat.zero_testBit] at this
      simpa [h8, not_lt.mpr ht] using this.symm
    · exact hlt8 t (by omega)
  · intro h
    apply Nat.eq_of_testBit_eq
    intro t
    rw [hbit, Nat.zero_testBit]
    by_cases ht : u ≤ t
    · rw [h t ht]
      rfl
    · simp [not_le.mp ht]

theorem validateSkippedTxs_eq_ok {txCount : UInt16} {bitmap : Bytes} {u : Unit} :
    validateSkippedTxsForTweaks txCount bitmap = .ok u ↔ BitmapOk txCount.toNat bitmap := by
  unfold validateSkippedTxsForTweaks skippedTxBitmapLen
  simp only [bind_eq_ok, ensure_eq_ok]
  have hmod : txCount.toNat % 8 < 8 := Nat.mod_lt _ (by omega)
  rw [paddingMask_eq_zero _ hmod]
  have hlast : ∀ t, (bitmap.getLastD 0).toNat.testBit t = byteBit bitmap (bitmap.length - 1) t := by
    intro t
    rw [byteBit, List.getLastD_eq_getLast?, List.getLast?_eq_getElem?, List.getD_eq_getElem?_getD]
  constructor
  · rintro ⟨_, hlen, hpad⟩
    refine ⟨hlen, fun p hp => ?_⟩
    by_cases hin : p / 8 < bitmap.length
    · have h := hpad ⟨by omega, fun h0 => by rw [h0] at hin; simp at hin⟩ (p % 8) (by omega)
      rw [hlast, show bitmap.length - 1 = p / 8 by omega] at h
      exact h
    · rw [txBit, byteBit, List.getD_eq_getElem?_getD, List.getElem?_eq_none (by omega)]
      simp
  · rintro ⟨hlen, hpad⟩
    refine ⟨(), hlen, ?_⟩
    rintro ⟨hused, hne⟩ t ht
    have hpos := List.length_pos_iff.mpr hne
    rw [hlast]
    by_cases h8 : t < 8
    · have h := hpad (8 * (bitmap.length - 1) + t) (by omega)
      rw [txBit, show (8 * (bitmap.length - 1) + t) / 8 = bitmap.length - 1 by omega,
        show (8 * (bitmap.length - 1) + t) % 8 = t by omega] at h
      exact h
    · rw [byteBit]
      exact Nat.testBit_lt_two_pow (lt_of_lt_of_le (UInt8.toNat_lt _)
        (Nat.pow_le_pow_right (by omega) (by omega)))

theorem isSkippedTx_eq {txCount txIndex : UInt16} {bitmap : Bytes}
    (h : BitmapOk txCount.toNat bitmap) (hlt : txIndex.toNat < txCount.toNat) :
    isSkippedTxInBitmap txCount bitmap txIndex = .ok (txBit bitmap txIndex.toNat) := by
  unfold isSkippedTxInBitmap
  rw [validateSkippedTxs_eq_ok (u := ()) |>.mpr h, ok_bind,
    ensure_of (UInt16.lt_iff_toNat_lt.mpr hlt), ok_bind]
  dsimp only
  rw [and_one_of_shiftRight8 _ (Nat.mod_lt _ (by omega)), txBit, byteBit]
  cases (bitmap.getD (txIndex.toNat / 8) 0).toNat.testBit (txIndex.toNat % 8) <;> rfl

theorem setSkippedTx_eq {txCount txIndex : UInt16} {bitmap : Bytes}
    (h : BitmapOk txCount.toNat bitmap) (hlt : txIndex.toNat < txCount.toNat) :
    ∃ bitmap', setSkippedTxInBitmap txCount bitmap txIndex = .ok bitmap' ∧
      BitmapOk txCount.toNat bitmap' ∧
      ∀ p, txBit bitmap' p = (txBit bitmap p || decide (p = txIndex.toNat)) := by
  have hbits : ∀ p, txBit (bitmap.modify (txIndex.toNat / 8)
      (· ||| (1 <<< UInt8.ofNat (txIndex.toNat % 8)))) p =
      (txBit bitmap p || decide (p = txIndex.toNat)) := by
    intro p
    have hlen := h.length
    rw [txBit, byteBit_modify (by omega) (Nat.mod_lt _ (by omega)), ← txBit]
    congr 1
    rw [decide_eq_decide]
    omega
  refine ⟨_, ?_, ⟨by rw [List.length_modify]; exact h.length, fun p hp => ?_⟩, hbits⟩
  · unfold setSkippedTxInBitmap
    rw [validateSkippedTxs_eq_ok (u := ()) |>.mpr h, ok_bind,
      ensure_of (UInt16.lt_iff_toNat_lt.mpr hlt), ok_bind]
    rfl
  · rw [hbits, h.padding p hp, Bool.false_or, decide_eq_false (by omega)]

/-! ## Counting -/

def skippedCount (n : ℕ) (bitmap : Bytes) : ℕ := (List.range n).countP (txBit bitmap)

/-- The transactions that are not skipped, in order. -/
def tweakPositions (n : ℕ) (bitmap : Bytes) : List ℕ := (List.range n).filter fun p => !txBit bitmap p

theorem length_tweakPositions (n : ℕ) (bitmap : Bytes) :
    (tweakPositions n bitmap).length + skippedCount n bitmap = n := by
  rw [tweakPositions, ← List.countP_eq_length_filter, skippedCount]
  have h := List.length_eq_countP_add_countP (txBit bitmap) (l := List.range n)
  rw [List.length_range] at h
  simp only [Bool.not_eq_true, Bool.decide_eq_false] at h
  omega

theorem skippedTxsCount_eq {txCount : UInt16} {bitmap : Bytes}
    (h : BitmapOk txCount.toNat bitmap) :
    skippedTxsForTweaksCount txCount bitmap =
      .ok (UInt16.ofNat (skippedCount txCount.toNat bitmap)) := by
  unfold skippedTxsForTweaksCount
  rw [validateSkippedTxs_eq_ok (u := ()) |>.mpr h, ok_bind]
  have hn := txCount.toNat_lt
  have hloop : ∀ m ≤ txCount.toNat, (List.range m).foldlM (fun (count : UInt16) txIndex => do
      if ← isSkippedTxInBitmap txCount bitmap (UInt16.ofNat txIndex) then
        okOr (checkedAdd16 count 1) "skipped tx count overflow"
      else return count) 0 = .ok (UInt16.ofNat (skippedCount m bitmap)) := by
    intro m
    induction m with
    | zero => exact fun _ => rfl
    | succ m ih =>
      intro hm
      have hidx : (UInt16.ofNat m).toNat = m := UInt16.toNat_ofNat_of_lt' (by unfold UInt16.size; omega)
      have hle : skippedCount m bitmap ≤ m := by
        have := length_tweakPositions m bitmap
        omega
      have hsucc : skippedCount (m + 1) bitmap =
          skippedCount m bitmap + if txBit bitmap m then 1 else 0 := by
        rw [skippedCount, List.range_succ, List.countP_append, List.countP_singleton]
        rfl
      rw [List.range_succ, List.foldlM_append, ih (by omega), ok_bind, List.foldlM_cons,
        isSkippedTx_eq h (by rw [hidx]; omega), hidx, ok_bind, hsucc]
      cases txBit bitmap m with
      | false => rfl
      | true =>
        have hadd : checkedAdd16 (UInt16.ofNat (skippedCount m bitmap)) 1 =
            some (UInt16.ofNat (skippedCount m bitmap + 1)) := by
          rw [checkedAdd16_eq_some, UInt16.toNat_ofNat_of_lt' (by unfold UInt16.size; omega),
            UInt16.toNat_ofNat_of_lt' (by unfold UInt16.size; omega)]
          rfl
        simp only [if_true, hadd, okOr_some]
        rfl
  exact hloop _ (le_refl _)

theorem skippedCount_set {n j : ℕ} {bitmap bitmap' : Bytes} (hj : j < n)
    (hclear : txBit bitmap j = false)
    (hset : ∀ p, txBit bitmap' p = (txBit bitmap p || decide (p = j))) :
    skippedCount n bitmap' = skippedCount n bitmap + 1 := by
  have h : ∀ m, skippedCount m bitmap' = skippedCount m bitmap + if j < m then 1 else 0 := by
    intro m
    induction m with
    | zero => rfl
    | succ m ih =>
      rw [skippedCount, List.range_succ, List.countP_append, List.countP_singleton, ← skippedCount,
        ih, hset m, skippedCount, skippedCount, List.range_succ, List.countP_append,
        List.countP_singleton]
      by_cases hm : m = j
      · subst hm
        simp [hclear]
      · have hlt : j < m + 1 ↔ j < m := by omega
        simp only [hm, decide_false, Bool.or_false, hlt]
        omega
  rw [h n, if_pos hj]

theorem deriveTweakTxIndexes_eq {txCount : UInt16} {bitmap : Bytes}
    (h : BitmapOk txCount.toNat bitmap) :
    deriveStoredTweakTxIndexes txCount bitmap (tweakPositions txCount.toNat bitmap).length =
      .ok ((tweakPositions txCount.toNat bitmap).map UInt16.ofNat) := by
  have hn := txCount.toNat_lt
  have hloop : ∀ (ps : List ℕ) (indexes : List UInt16) (count : ℕ), (∀ p ∈ ps, p < txCount.toNat) →
      indexes.length + (ps.filter fun p => !txBit bitmap p).length = count →
      collectTweakTxIndexes txCount bitmap count ps indexes =
        .ok (indexes ++ (ps.filter fun p => !txBit bitmap p).map UInt16.ofNat) := by
    intro ps
    induction ps with
    | nil =>
      intro indexes count _ _
      simp [collectTweakTxIndexes]
    | cons p ps ih =>
      intro indexes count hps hcount
      have hp : (UInt16.ofNat p).toNat = p := UInt16.toNat_ofNat_of_lt' (by
        have := hps p List.mem_cons_self
        unfold UInt16.size
        omega)
      have hps' : ∀ p ∈ ps, p < txCount.toNat := fun p hp => hps p (List.mem_cons_of_mem _ hp)
      rw [collectTweakTxIndexes]
      by_cases hlt : indexes.length < count
      · rw [if_pos hlt, isSkippedTx_eq h (by rw [hp]; exact hps p List.mem_cons_self), hp, ok_bind]
        cases hbit : txBit bitmap p with
        | true =>
          simp only [if_true]
          rw [List.filter_cons_of_neg (by simp [hbit])] at hcount ⊢
          exact ih indexes count hps' hcount
        | false =>
          simp only [Bool.false_eq_true, if_false]
          rw [List.filter_cons_of_pos (by simp [hbit]), List.length_cons] at hcount
          rw [ih (indexes ++ [UInt16.ofNat p]) count hps' (by simp; omega),
            List.filter_cons_of_pos (by simp [hbit]), List.map_cons, List.append_assoc]
          rfl
      · rw [if_neg hlt]
        have hnil : (p :: ps).filter (fun p => !txBit bitmap p) = [] :=
          List.length_eq_zero_iff.mp (by omega)
        rw [hnil, List.map_nil, List.append_nil]
  unfold deriveStoredTweakTxIndexes
  rw [validateSkippedTxs_eq_ok (u := ()) |>.mpr h, ok_bind,
    hloop (List.range txCount.toNat) [] (tweakPositions txCount.toNat bitmap).length
      (fun p hp => List.mem_range.mp hp) (Nat.zero_add _), ok_bind, ensure_of (by rw [List.nil_append, List.length_map]; rfl), ok_bind]
  rfl

theorem bitmapValid_iff {txCount : UInt16} {bitmap : Bytes} {tweakCount : ℕ} :
    BitmapValid txCount bitmap tweakCount ↔ BitmapOk txCount.toNat bitmap ∧
      (tweakPositions txCount.toNat bitmap).length = tweakCount := by
  have hn := txCount.toNat_lt
  have hsum := length_tweakPositions txCount.toNat bitmap
  have hcount : (UInt16.ofNat (skippedCount txCount.toNat bitmap)).toNat =
      skippedCount txCount.toNat bitmap := UInt16.toNat_ofNat_of_lt' (by unfold UInt16.size; omega)
  constructor
  · rintro ⟨hpad, ⟨skipped, hskipped, htx⟩, -⟩
    have hok := validateSkippedTxs_eq_ok.mp hpad
    rw [skippedTxsCount_eq hok, Except.ok.injEq] at hskipped
    rw [← hskipped, hcount] at htx
    exact ⟨hok, by omega⟩
  · rintro ⟨hok, hlen⟩
    refine ⟨validateSkippedTxs_eq_ok.mpr hok, ⟨_, skippedTxsCount_eq hok, ?_⟩, ?_⟩
    · rw [hcount]
      omega
    · rw [MAX_U16_SECTION_COUNT, U16_MAX]
      omega

theorem BitmapValid.derive {txCount : UInt16} {bitmap : Bytes} {tweakCount : ℕ}
    (h : BitmapValid txCount bitmap tweakCount) :
    deriveStoredTweakTxIndexes txCount bitmap tweakCount =
      .ok ((tweakPositions txCount.toNat bitmap).map UInt16.ofNat) := by
  obtain ⟨hok, hlen⟩ := bitmapValid_iff.mp h
  rw [← hlen]
  exact deriveTweakTxIndexes_eq hok

end BitcoinData
