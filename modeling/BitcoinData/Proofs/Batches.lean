import BitcoinData.Spec.Pipeline

/-! Streams of blocks by height and by batches of heights deliver the same blocks. The batches split
the range of heights: each begins where the one before ends, and the last takes what is left. -/

namespace BitcoinData

open Lib

section
variable {startHeight count batchSize buffer : ℕ}

/-! ## Batch bounds -/

theorem le_divCeilU64_mul (hsize : 0 < batchSize) : count ≤ divCeilU64 count batchSize * batchSize := by
  have hdiv := Nat.div_add_mod' count batchSize
  have hmod := Nat.mod_lt count hsize
  unfold divCeilU64
  split_ifs with h
  · rw [Nat.succ_mul]
    omega
  · omega

theorem mul_lt_of_mem_batchIndexes {batchIdx : ℕ} (hsize : 0 < batchSize)
    (h : batchIdx ∈ batchIndexes count batchSize) : batchIdx * batchSize < count := by
  have hdiv := Nat.div_add_mod' count batchSize
  rw [batchIndexes, List.mem_range] at h
  split_ifs at h with hcount
  · exact absurd h (Nat.not_lt_zero _)
  · unfold divCeilU64 at h
    split_ifs at h with hrest
    · have := Nat.mul_le_mul_right batchSize (Nat.le_of_lt_succ h)
      omega
    · have := Nat.mul_le_mul_right batchSize (Nat.succ_le_of_lt h)
      rw [Nat.succ_mul] at this
      omega

/-- The heights of a batch. -/
def batchBounds (startHeight count batchSize batchIdx : ℕ) : ℕ × ℕ :=
  (startHeight + batchIdx * batchSize, min (count - batchIdx * batchSize) batchSize)

/-- No sum, difference or product leaves the range of `u64`. -/
theorem batchRequest_eq (hfits : startHeight + count ≤ U64_MAX) (hsize : 0 < batchSize) {batchIdx : ℕ}
    (h : batchIdx ∈ batchIndexes count batchSize) :
    batchRequest startHeight count batchSize batchIdx =
      .ok (batchBounds startHeight count batchSize batchIdx) := by
  have hlt := mul_lt_of_mem_batchIndexes hsize h
  rw [batchRequest, mulU64, if_pos (by omega), ok_bind, addU64, if_pos (by omega), ok_bind, addU64,
    if_pos hfits, ok_bind, subU64, if_pos (by omega), ok_bind, Nat.add_sub_add_left]
  rfl

theorem batchBounds_inside (hsize : 0 < batchSize) {batchIdx : ℕ}
    (h : batchIdx ∈ batchIndexes count batchSize) :
    startHeight ≤ (batchBounds startHeight count batchSize batchIdx).1 ∧
      1 ≤ (batchBounds startHeight count batchSize batchIdx).2 ∧
      (batchBounds startHeight count batchSize batchIdx).1 +
        (batchBounds startHeight count batchSize batchIdx).2 ≤ startHeight + count := by
  have hlt := mul_lt_of_mem_batchIndexes hsize h
  dsimp only [batchBounds]
  omega

theorem batches_flatMap (n : ℕ) :
    (((List.range n).map (batchBounds startHeight count batchSize)).flatMap fun r => List.range' r.1 r.2) =
      List.range' startHeight (min count (n * batchSize)) := by
  induction n with
  | zero => simp
  | succ n ih =>
    rw [List.range_succ, List.map_append, List.flatMap_append, ih, List.map_singleton,
      List.flatMap_singleton, Nat.succ_mul]
    dsimp only [batchBounds]
    by_cases hle : n * batchSize ≤ count
    · rw [min_eq_right hle, List.range'_append_1]
      congr 1
      omega
    · rw [min_eq_left (by omega), Nat.sub_eq_zero_of_le (by omega), Nat.zero_min, List.range'_zero,
        List.append_nil, min_eq_left (by omega)]

theorem allBatches_flatMap (hsize : 0 < batchSize) :
    (((batchIndexes count batchSize).map (batchBounds startHeight count batchSize)).flatMap
      fun r => List.range' r.1 r.2) = List.range' startHeight count := by
  rw [batchIndexes, batches_flatMap]
  congr 1
  split_ifs with hcount
  · omega
  · exact min_eq_left (le_divCeilU64_mul hsize)

/-! ## Streams -/

theorem streamHeights_eq (hfits : startHeight + count ≤ U64_MAX) :
    streamHeights startHeight count = .ok (List.range' startHeight count) := by
  rw [streamHeights, addU64, if_pos hfits, ok_bind, Nat.add_sub_cancel_left]
  rfl

theorem ServesRange.batchItems_eq {source : RawBlockSource} {frame : ℕ → RawBlockFrame}
    (h : ServesRange source frame startHeight count) {request : ℕ × ℕ}
    (hfirst : startHeight ≤ request.1) (hlast : request.1 + request.2 ≤ startHeight + count) :
    batchItems (source.getBatch request) =
      (List.range' request.1 request.2).map source.getBlockByHeight := by
  rw [RawBlockSource.getBatch, h.range _ _ hfirst hlast, batchItems, List.map_map]
  refine List.map_congr_left fun height hmem => ?_
  rw [List.mem_range'_1] at hmem
  rw [h.byHeight height (by omega) (by omega)]
  rfl

/-- For a source whose ranges are its blocks one by one, both streams deliver the blocks of the
heights in order, whatever is answered first. The batches cover every height once, none of them
reaches outside, and their bounds do not overflow. -/
theorem batched_stream_exact {source : RawBlockSource} {frame : ℕ → RawBlockFrame}
    (hsource : ServesRange source frame startHeight count) (hfits : startHeight + count ≤ U64_MAX)
    (hbuffer : 1 ≤ buffer) (batchSize : ℕ) :
    streamHeights startHeight count = .ok (List.range' startHeight count) ∧
      Delivers buffer heightRequest source.getBlockByHeight (List.range' startHeight count)
        (List.range' startHeight count) ∧
      ∃ requests,
        Delivers buffer (batchRequest startHeight count (max batchSize 1)) source.getBatch
          (batchIndexes count (max batchSize 1)) requests ∧
        (requests.map source.getBatch).flatMap batchItems =
          (List.range' startHeight count).map source.getBlockByHeight ∧
        (requests.flatMap fun r => List.range' r.1 r.2) = List.range' startHeight count ∧
        ∀ r ∈ requests, startHeight ≤ r.1 ∧ 1 ≤ r.2 ∧ r.1 + r.2 ≤ startHeight + count := by
  have hsize : 0 < max batchSize 1 := by omega
  have hheights : Delivers buffer heightRequest source.getBlockByHeight (List.range' startHeight count)
      ((List.range' startHeight count).map id) := buffered_delivers hbuffer fun _ _ => rfl
  rw [List.map_id] at hheights
  have hinside : ∀ r ∈ (batchIndexes count (max batchSize 1)).map
      (batchBounds startHeight count (max batchSize 1)),
      startHeight ≤ r.1 ∧ 1 ≤ r.2 ∧ r.1 + r.2 ≤ startHeight + count := by
    rw [List.forall_mem_map]
    exact fun batchIdx hmem => batchBounds_inside hsize hmem
  refine ⟨streamHeights_eq hfits, hheights, _, buffered_delivers hbuffer fun batchIdx hmem =>
    batchRequest_eq hfits hsize hmem, ?_, allBatches_flatMap hsize, hinside⟩
  rw [← allBatches_flatMap hsize, List.map_flatMap, List.flatMap_map]
  refine List.flatMap_congr fun r hr => ?_
  obtain ⟨hfirst, -, hlast⟩ := hinside r hr
  exact hsource.batchItems_eq hfirst hlast

end

def emptyBlockSource : RawBlockSource where
  getBlockByHeight h := .ok ⟨h, FixedBytes.fill 32 0, [], none⟩
  getBlockRangeByHeight first n :=
    .ok ((List.range' first n).map fun h => ⟨h, FixedBytes.fill 32 0, [], none⟩)

/-- Seven blocks in batches of three, two at a time. -/
theorem batched_stream_sample : ∃ requests,
    Delivers 2 (batchRequest 5 7 3) emptyBlockSource.getBatch (batchIndexes 7 3) requests ∧
      (requests.map emptyBlockSource.getBatch).flatMap batchItems =
        (List.range' 5 7).map emptyBlockSource.getBlockByHeight := by
  have hserves : ServesRange emptyBlockSource (fun h => ⟨h, FixedBytes.fill 32 0, [], none⟩) 5 7 :=
    ⟨fun _ _ _ => rfl, fun _ _ _ _ => rfl⟩
  obtain ⟨-, -, requests, hdelivers, hitems, -⟩ :=
    batched_stream_exact hserves (by decide) (by decide : 1 ≤ 2) 3
  exact ⟨requests, hdelivers, hitems⟩

end BitcoinData
