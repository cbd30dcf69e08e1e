import BitcoinData.Spec.Stats.Block

/-! Which streams of spent IDs can be measured. The costs of a value and the range of the IDs are
sums of `u64`, so the ID 0 meets neither the greatest anchor nor the greatest ID. -/

namespace BitcoinData.Stats

open Lib

theorem checkedAddU64_eq_ok {a b c : ℕ} : checkedAddU64 a b = .ok c ↔ a + b = c ∧ c ≤ U64_MAX := by
  unfold checkedAddU64
  split_ifs with h
  · rw [Except.ok.injEq]
    exact ⟨fun hc => ⟨hc, hc ▸ h⟩, fun hc => hc.1⟩
  · refine ⟨fun hc => (by cases hc), ?_⟩
    rintro ⟨rfl, hle⟩
    exact absurd hle h

theorem checkedAddU64_of_le {a b : ℕ} (h : a + b ≤ U64_MAX) : checkedAddU64 a b = .ok (a + b) :=
  checkedAddU64_eq_ok.mpr ⟨rfl, h⟩

/-! ## The costs of a value -/

theorem riceBits_isOk {value k : ℕ} (hv : value < U64_MAX) (hk : k < RICE_K_COUNT) :
    ∃ bits, riceBits value k = .ok bits := by
  unfold U64_MAX at hv
  unfold RICE_K_COUNT at hk
  have hle : value >>> k + 1 + k ≤ U64_MAX := by
    rw [Nat.shiftRight_eq_div_pow, U64_MAX]
    obtain rfl | hpos := Nat.eq_zero_or_pos k
    · omega
    · have hhalf : value / 2 ^ k ≤ value / 2 ^ 1 :=
        Nat.div_le_div_left (Nat.pow_le_pow_right (by decide) hpos) (by decide)
      omega
  exact ⟨_, by rw [riceBits, checkedAddU64_of_le (by omega), ok_bind, checkedAddU64_of_le hle]⟩

theorem newCosts_isOk {value : ℕ} (hv : value < U64_MAX) (zeroable : Bool) :
    ∃ costs, CodecValueCosts.new value zeroable = .ok costs := by
  obtain ⟨rice, hrice⟩ : ∃ rice, (List.range RICE_K_COUNT).mapM (riceBits value) = .ok rice :=
    mapM_isOk fun k hk => riceBits_isOk hv (List.mem_range.mp hk)
  obtain ⟨escaped, hescaped⟩ : ∃ escaped, (ESCAPED_RICE_THRESHOLDS.mapM fun threshold =>
      (List.range ESCAPED_RICE_K_COUNT).mapM fun k =>
        if value < threshold then do return 1 + (← riceBits value k)
        else return 1 + 8 * leb128LenU64 value) = .ok escaped := by
    refine mapM_isOk fun threshold _ => mapM_isOk fun k hk => ?_
    obtain ⟨bits, hbits⟩ := riceBits_isOk hv ((List.mem_range.mp hk).trans (by decide))
    split_ifs
    · exact ⟨_, by rw [hbits, ok_bind]; rfl⟩
    · exact ⟨_, rfl⟩
  exact ⟨_, by rw [CodecValueCosts.new, hrice, ok_bind, hescaped, ok_bind]; rfl⟩

/-- The parameter 0 adds one to the value itself. -/
theorem newCosts_eq_ok {value : ℕ} {zeroable : Bool} {costs : CodecValueCosts}
    (h : CodecValueCosts.new value zeroable = .ok costs) : value < U64_MAX ∧
      costs.eliasDeltaBits = eliasDeltaBits (if zeroable then min (value + 1) U64_MAX else value) := by
  simp only [CodecValueCosts.new, bind_eq_ok, pure_eq_ok, Except.ok.injEq] at h
  obtain ⟨rice, hrice, escaped, -, rfl⟩ := h
  obtain ⟨bits, hbits⟩ := ok_of_mem_mapM hrice (List.mem_range.mpr (show 0 < RICE_K_COUNT by decide))
  simp only [riceBits, bind_eq_ok, checkedAddU64_eq_ok, Nat.shiftRight_zero] at hbits
  obtain ⟨sum, ⟨rfl, hsum⟩, -⟩ := hbits
  exact ⟨hsum, rfl⟩

/-! ## The loop over the IDs -/

theorem measureDelta_isOk {loop : MeasureLoop} {uid : ℕ} (h : uid - loop.prev < U64_MAX) :
    ∃ loop', measureDelta loop uid = .ok loop' := by
  obtain ⟨costs, hcosts⟩ := newCosts_isOk h false
  exact ⟨_, by rw [measureDelta, hcosts, ok_bind]; rfl⟩

theorem measureDelta_eq_ok {loop loop' : MeasureLoop} {uid : ℕ} (h : measureDelta loop uid = .ok loop') :
    loop'.prev = uid ∧ loop'.blockCombined.eliasDeltaBits =
      loop.blockCombined.eliasDeltaBits + eliasDeltaBits (uid - loop.prev) := by
  simp only [measureDelta, bind_eq_ok, pure_eq_ok, Except.ok.injEq] at h
  obtain ⟨costs, hcosts, rfl⟩ := h
  exact ⟨rfl, congrArg (loop.blockCombined.eliasDeltaBits + ·) (newCosts_eq_ok hcosts).2⟩

theorem foldlM_measureDelta_isOk {uids : List ℕ} {loop : MeasureLoop} {bottom top : ℕ}
    (hprev : bottom ≤ loop.prev) (huids : ∀ uid ∈ uids, bottom ≤ uid ∧ uid ≤ top)
    (hrange : top - bottom < U64_MAX) : ∃ loop', uids.foldlM measureDelta loop = .ok loop' := by
  induction uids generalizing loop with
  | nil => exact ⟨loop, rfl⟩
  | cons uid uids ih =>
    obtain ⟨hbottom, htop⟩ := huids uid List.mem_cons_self
    obtain ⟨next, hnext⟩ := @measureDelta_isOk loop uid (by omega)
    obtain ⟨hprev', -⟩ := measureDelta_eq_ok hnext
    rw [List.foldlM_cons, hnext, ok_bind]
    exact ih (hprev' ▸ hbottom) fun uid' h => huids uid' (List.mem_cons_of_mem _ h)

variable {uids rest : List ℕ} {anchor first : ℕ} {stats stats' : SortedUidCodecStats}
  {estimate : SortedUidBlockEstimate}

theorem sorted_ascending (hnd : uids.Nodup) : (uids.insertionSort (· ≤ ·)).Pairwise (· < ·) := by
  have hsorted := List.pairwise_insertionSort (· ≤ ·) uids
  have hdistinct : (uids.insertionSort (· ≤ ·)).Nodup :=
    (List.perm_insertionSort (· ≤ ·) uids).nodup_iff.mpr hnd
  exact (hsorted.and hdistinct).imp fun h => lt_of_le_of_ne h.1 h.2

theorem sorted_bounds (hsort : uids.insertionSort (· ≤ ·) = first :: rest) {uid : ℕ} (huid : uid ∈ uids) :
    first ≤ uid ∧ uid ≤ (first :: rest).getLastD 0 := by
  have hsorted := List.pairwise_insertionSort (· ≤ ·) uids
  have hmem := (List.perm_insertionSort (· ≤ ·) uids).mem_iff.mpr huid
  rw [hsort] at hsorted hmem
  refine ⟨?_, ?_⟩
  · rcases List.mem_cons.mp hmem with rfl | hmem
    · exact le_rfl
    · exact (List.pairwise_cons.mp hsorted).1 uid hmem
  · rw [List.getLastD_eq_getLast?, List.getLast?_eq_getLast_of_ne_nil (List.cons_ne_nil _ _)]
    exact hsorted.rel_getLast hmem

theorem sorted_first_mem (hsort : uids.insertionSort (· ≤ ·) = first :: rest) : first ∈ uids :=
  (List.perm_insertionSort (· ≤ ·) uids).mem_iff.mp (hsort ▸ List.mem_cons_self)

theorem sorted_last_mem (hsort : uids.insertionSort (· ≤ ·) = first :: rest) :
    (first :: rest).getLastD 0 ∈ uids := by
  refine (List.perm_insertionSort (· ≤ ·) uids).mem_iff.mp ?_
  rw [hsort, List.getLastD_eq_getLast?, List.getLast?_eq_getLast_of_ne_nil (List.cons_ne_nil _ _)]
  exact List.getLast_mem _

/-- The stream is measured when the anchor and every ID are less than `u64::MAX` above the first. -/
theorem measureSortedUidStream_isOk (hnd : uids.Nodup) (hsort : uids.insertionSort (· ≤ ·) = first :: rest)
    (hle : first ≤ anchor) (hanchor : anchor - first < U64_MAX)
    (hrange : (first :: rest).getLastD 0 - first < U64_MAX) (stats : SortedUidCodecStats) :
    ∃ r, measureSortedUidStream uids anchor stats = .ok r := by
  have hascending := sorted_ascending hnd
  rw [hsort] at hascending
  obtain ⟨costs, hcosts⟩ := newCosts_isOk hanchor true
  obtain ⟨start, hstart, hprev⟩ : ∃ start, measureStart first anchor stats = .ok start ∧ start.prev = first :=
    ⟨_, by rw [measureStart, hcosts, ok_bind]; rfl, rfl⟩
  have hmem : ∀ uid ∈ rest, uid ∈ uids := fun uid h =>
    (List.perm_insertionSort (· ≤ ·) uids).mem_iff.mp (hsort ▸ List.mem_cons_of_mem _ h)
  obtain ⟨loop, hloop⟩ := foldlM_measureDelta_isOk hprev.ge
    (fun uid h => sorted_bounds hsort (hmem uid h)) hrange
  unfold measureSortedUidStream
  rw [hsort]
  dsimp only
  rw [ensure_of (hascending.isChain.imp fun _ _ => ne_of_lt), ok_bind, ensure_of hle, ok_bind, hstart,
    ok_bind, hloop, ok_bind, checkedAddU64_of_le hrange]
  exact ⟨_, rfl⟩

end BitcoinData.Stats
