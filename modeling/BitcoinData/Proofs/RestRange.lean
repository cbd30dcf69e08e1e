import BitcoinData.Proofs.SpentPayload
import BitcoinData.Sanity.NodeSample
import BitcoinData.Spec.RestRange

/-! The batched requests of the REST source agree with the plain ones: whatever the order in which
the answers of a stage arrive, a range is the frames that the default method of the trait fetches
one height after the other. -/

namespace BitcoinData

open Lib

theorem addU64_eq_ok {a b c : ℕ} : addU64 a b = .ok c ↔ a + b ≤ U64_MAX ∧ a + b = c := by
  unfold addU64
  split_ifs with h <;> simp [h]

/-! ## One stage -/

theorem collectSorted_eq {α β : Type} {key : α → ℕ} {request : α → Except DecodeFault β}
    {tasks order : List α} (hperm : order.Perm tasks) (hkey : (tasks.map key).Pairwise (· < ·)) :
    collectSorted key request order = tasks.mapM request := by
  have hpairs : (order.map fun task => (key task, request task)).Perm
      (tasks.map fun task => (key task, request task)) := hperm.map _
  have hnodup : ((order.map fun task => (key task, request task)).map (·.1)).Nodup := by
    rw [List.map_map]
    exact (hperm.map key).nodup_iff.mpr (hkey.imp fun h => h.ne)
  have hsorted : (tasks.map fun task => (key task, request task)).Pairwise fun a b => a.1 ≤ b.1 := by
    rw [List.pairwise_map] at hkey ⊢
    exact hkey.imp fun h => h.le
  have hsort := insertionSort_of_perm hpairs hnodup
  rw [collectSorted, hsort, hsorted.insertionSort_eq, List.mapM_map]
  rfl

section
variable [HexCrate] {self : RestSource} {schedule : RestSchedule}

theorem RestSchedule.Possible.hashes_eq (hs : schedule.Possible) {heights : List ℕ}
    (hne : heights ≠ []) (hsorted : heights.Pairwise (· < ·)) :
    collectSorted id (fun height => orFailed (self.getBlockHash height)) (schedule.hashes heights) =
      heights.mapM fun height => orFailed (self.getBlockHash height) := by
  have hperm := (hs.hashes heights hne).perm
  rw [List.nil_append] at hperm
  exact collectSorted_eq hperm (by rwa [List.map_id])

omit [HexCrate] in
theorem pairwise_zipIdx {α : Type} (l : List α) : (l.zipIdx.map (·.2)).Pairwise (· < ·) := by
  rw [List.zipIdx_map_snd]
  exact List.pairwise_lt_range'

omit [HexCrate] in
theorem RestSchedule.Possible.blocks_eq (hs : schedule.Possible) {hashes : List BlockHashBytes}
    (hne : hashes ≠ []) :
    self.getBlocksRaw schedule hashes = hashes.mapM fun hash => orFailed (self.getBlockRaw hash) := by
  have hperm := (hs.blocks hashes.zipIdx (by simpa using hne)).perm
  rw [List.nil_append] at hperm
  rw [RestSource.getBlocksRaw, collectSorted_eq hperm (pairwise_zipIdx hashes)]
  conv_rhs => rw [← List.zipIdx_map_fst 0 hashes, List.mapM_map]
  rfl

theorem RestSchedule.Possible.undo_eq (hs : schedule.Possible) {hashes : List BlockHashBytes}
    (hne : hashes ≠ []) :
    self.getBlocksSpentTxouts schedule hashes = hashes.mapM self.getBlockSpentTxouts := by
  have hperm := (hs.undo hashes.zipIdx (by simpa using hne)).perm
  rw [List.nil_append] at hperm
  rw [RestSource.getBlocksSpentTxouts, collectSorted_eq hperm (pairwise_zipIdx hashes)]
  conv_rhs => rw [← List.zipIdx_map_fst 0 hashes, List.mapM_map]
  rfl

end

/-! ## A range -/

theorem getBlockByHeight_eq_ok {getBlockHash : ℕ → Except DecodeFault BlockHashBytes}
    {getBlockRaw : BlockHashBytes → Except DecodeFault Bytes}
    {getBlockSpentTxouts : BlockHashBytes → Except DecodeFault (Option BlockSpentTxOuts)}
    {height : ℕ} {frame : RawBlockFrame} :
    defaultGetBlockByHeight getBlockHash getBlockRaw getBlockSpentTxouts height = .ok frame ↔
      frame.height = height ∧ getBlockHash height = .ok frame.hash ∧
        getBlockRaw frame.hash = .ok frame.bytes ∧
        getBlockSpentTxouts frame.hash = .ok frame.spentTxouts := by
  unfold defaultGetBlockByHeight
  simp only [bind_eq_ok, pure_eq_ok, Except.ok.injEq]
  refine ⟨?_, ?_⟩
  · rintro ⟨hash, hhash, bytes, hbytes, undo, hundo, rfl⟩
    exact ⟨rfl, hhash, hbytes, hundo⟩
  · rintro ⟨rfl, hhash, hbytes, hundo⟩
    exact ⟨_, hhash, _, hbytes, _, hundo, rfl⟩

/-- One round of requests over all the frames, for each of their parts, or one request after
another for each frame. -/
theorem rounds_iff {getBlockHash : ℕ → Except DecodeFault BlockHashBytes}
    {getBlockRaw : BlockHashBytes → Except DecodeFault Bytes}
    {getBlockSpentTxouts : BlockHashBytes → Except DecodeFault (Option BlockSpentTxOuts)}
    {heights : List ℕ} {frames : List RawBlockFrame} :
    (heights.mapM (defaultGetBlockByHeight getBlockHash getBlockRaw getBlockSpentTxouts) = .ok frames) ↔
      frames.map (·.height) = heights ∧ heights.mapM getBlockHash = .ok (frames.map (·.hash)) ∧
        (frames.map (·.hash)).mapM getBlockRaw = .ok (frames.map (·.bytes)) ∧
        (frames.map (·.hash)).mapM getBlockSpentTxouts = .ok (frames.map (·.spentTxouts)) := by
  simp only [mapM_eq_ok, List.forall₂_map_right_iff, List.forall₂_map_left_iff, List.forall₂_same]
  induction frames generalizing heights with
  | nil => simp [eq_comm]
  | cons frame frames ih =>
    rw [List.forall₂_cons_right_iff]
    simp only [List.map_cons, List.forall_mem_cons, List.forall₂_cons_right_iff]
    refine ⟨?_, ?_⟩
    · rintro ⟨height, rest, hframe, hrest, rfl⟩
      obtain ⟨rfl, hhash, hbytes, hundo⟩ := getBlockByHeight_eq_ok.mp hframe
      obtain ⟨rfl, hhashes, hblocks, hundos⟩ := ih.mp hrest
      exact ⟨rfl, ⟨_, _, hhash, hhashes, rfl⟩, ⟨hbytes, hblocks⟩, hundo, hundos⟩
    · rintro ⟨rfl, ⟨height, rest, hhash, hhashes, heq⟩, ⟨hbytes, hblocks⟩, hundo, hundos⟩
      obtain ⟨rfl, rfl⟩ := List.cons.inj heq
      exact ⟨_, _, getBlockByHeight_eq_ok.mpr ⟨rfl, hhash, hbytes, hundo⟩,
        ih.mpr ⟨rfl, hhashes, hblocks, hundos⟩, rfl⟩

/-- The frames of the given parts, from `startHeight` on. -/
def framesOf (startHeight : ℕ) (hashes : List BlockHashBytes) (blocks : List Bytes)
    (undo : List (Option BlockSpentTxOuts)) : List RawBlockFrame :=
  ((hashes.zip blocks).zip undo).zipIdx.map fun item =>
    { height := startHeight + item.2
      hash := item.1.1.1
      bytes := item.1.1.2
      spentTxouts := item.1.2 }

theorem framesOf_eq_iff {startHeight : ℕ} {hashes : List BlockHashBytes} {blocks : List Bytes}
    {undo : List (Option BlockSpentTxOuts)} {frames : List RawBlockFrame}
    (hblocks : blocks.length = hashes.length) (hundo : undo.length = hashes.length) :
    framesOf startHeight hashes blocks undo = frames ↔
      frames.map (·.height) = List.range' startHeight hashes.length ∧ frames.map (·.hash) = hashes ∧
        frames.map (·.bytes) = blocks ∧ frames.map (·.spentTxouts) = undo := by
  unfold framesOf
  induction hashes generalizing startHeight blocks undo frames with
  | nil =>
    obtain rfl := List.length_eq_zero_iff.mp hblocks
    obtain rfl := List.length_eq_zero_iff.mp hundo
    cases frames <;> simp
  | cons hash hashes ih =>
    obtain ⟨bytes, blocks, rfl⟩ := List.exists_cons_of_length_eq_add_one hblocks
    obtain ⟨spent, undo, rfl⟩ := List.exists_cons_of_length_eq_add_one hundo
    have hshift : (((hashes.zip blocks).zip undo).zipIdx 1).map (fun item : _ × ℕ =>
          ({ height := startHeight + item.2, hash := item.1.1.1, bytes := item.1.1.2,
             spentTxouts := item.1.2 } : RawBlockFrame)) =
        ((hashes.zip blocks).zip undo).zipIdx.map fun item : _ × ℕ =>
          { height := startHeight + 1 + item.2, hash := item.1.1.1, bytes := item.1.1.2,
            spentTxouts := item.1.2 } := by
      rw [List.zipIdx_succ, List.map_map]
      refine List.map_congr_left fun item _ => ?_
      simp only [Function.comp_apply, Nat.add_assoc, Nat.add_comm 1]
    simp only [List.length_cons, Nat.add_right_cancel_iff] at hblocks hundo
    rw [List.zip_cons_cons, List.zip_cons_cons, List.zipIdx_cons, Nat.zero_add, List.map_cons, hshift]
    cases frames with
    | nil => simp
    | cons frame frames =>
      obtain ⟨h, k, b, u⟩ := frame
      simp only [List.cons.injEq, RawBlockFrame.mk.injEq, List.map_cons, List.length_cons,
        List.range'_succ, ih hblocks hundo]
      refine ⟨?_, ?_⟩
      · rintro ⟨⟨rfl, rfl, rfl, rfl⟩, hh, hk, hb, hu⟩
        exact ⟨⟨rfl, hh⟩, ⟨rfl, hk⟩, ⟨rfl, hb⟩, rfl, hu⟩
      · rintro ⟨⟨rfl, hh⟩, ⟨rfl, hk⟩, ⟨rfl, hb⟩, rfl, hu⟩
        exact ⟨⟨rfl, rfl, rfl, rfl⟩, hh, hk, hb, hu⟩

theorem heights_iff {startHeight count : ℕ} {heights : List ℕ} :
    List.Forall₂ (fun offset height => startHeight + offset ≤ U64_MAX ∧ startHeight + offset = height)
        (List.range count) heights ↔
      (∀ offset < count, startHeight + offset ≤ U64_MAX) ∧ List.range' startHeight count = heights := by
  have hrange : (List.range count).map (startHeight + ·) = List.range' startHeight count := by
    rw [List.range_eq_range', List.map_add_range', Nat.add_zero]
  simp only [List.forall₂_and_left, List.mem_range, ← hrange]
  rw [← List.forall₂_eq_eq_eq, List.forall₂_map_left_iff]

theorem heights_eq_ok {startHeight count : ℕ} {heights : List ℕ} :
    ((List.range count).mapM fun offset => orFailed (addU64 startHeight offset)) = .ok heights ↔
      (∀ offset < count, startHeight + offset ≤ U64_MAX) ∧ List.range' startHeight count = heights := by
  simp only [mapM_eq_ok, orFailed_eq_ok, addU64_eq_ok]
  exact heights_iff

theorem range_mapM_iff {getBlockByHeight : ℕ → Except DecodeFault RawBlockFrame} {startHeight count : ℕ}
    {frames : List RawBlockFrame} :
    defaultGetBlockRangeByHeight getBlockByHeight startHeight count = .ok frames ↔
      (∀ offset < count, startHeight + offset ≤ U64_MAX) ∧
        (List.range' startHeight count).mapM getBlockByHeight = .ok frames := by
  have hrange : (List.range count).map (startHeight + ·) = List.range' startHeight count := by
    rw [List.range_eq_range', List.map_add_range', Nat.add_zero]
  unfold defaultGetBlockRangeByHeight
  simp only [mapM_eq_ok, bind_eq_ok, orFailed_eq_ok, addU64_eq_ok, ← hrange, List.forall₂_map_left_iff,
    and_assoc, exists_and_left, exists_eq_left', List.forall₂_and_left, List.mem_range]

section
variable [HexCrate] {self : RestSource} {schedule : RestSchedule}

theorem restRange_eq_ok (hs : schedule.Possible) {startHeight count : ℕ} (hcount : 0 < count)
    {frames : List RawBlockFrame} :
    self.getBlockRangeByHeight schedule startHeight count = .ok frames ↔
      (∀ offset < count, startHeight + offset ≤ U64_MAX) ∧
        frames.map (·.height) = List.range' startHeight count ∧
        ((List.range' startHeight count).mapM fun height => orFailed (self.getBlockHash height)) =
          .ok (frames.map (·.hash)) ∧
        ((frames.map (·.hash)).mapM fun hash => orFailed (self.getBlockRaw hash)) =
          .ok (frames.map (·.bytes)) ∧
        (frames.map (·.hash)).mapM self.getBlockSpentTxouts = .ok (frames.map (·.spentTxouts)) := by
  have hne : List.range' startHeight count ≠ [] := by
    rw [Ne, List.range'_eq_nil_iff]
    exact hcount.ne'
  have hlength : ∀ hashes, ((List.range' startHeight count).mapM fun height =>
      orFailed (self.getBlockHash height)) = .ok hashes → hashes.length = count ∧ hashes ≠ [] := by
    intro hashes h
    have hlen := (mapM_eq_ok.mp h).length_eq
    rw [List.length_range'] at hlen
    exact ⟨hlen.symm, List.ne_nil_of_length_pos (by omega)⟩
  simp only [RestSource.getBlockRangeByHeight, RestSource.getBlockHashesByHeight, bind_eq_ok,
    heights_eq_ok, orFailed_eq_ok, ensure_eq_ok, pure_eq_ok, Except.ok.injEq]
  refine ⟨?_, ?_⟩
  · rintro ⟨hashes, ⟨heights, ⟨hfit, rfl⟩, hhashes⟩, blocks, hblocks, undo, hundo, _, hlen, _, hlen', hframes⟩
    rw [hs.hashes_eq hne List.pairwise_lt_range'] at hhashes
    obtain ⟨hlength, hsome⟩ := hlength hashes hhashes
    rw [hs.blocks_eq hsome] at hblocks
    rw [hs.undo_eq hsome] at hundo
    obtain ⟨hheights, rfl, rfl, rfl⟩ := (framesOf_eq_iff hlen hlen').mp hframes
    exact ⟨hfit, hlength ▸ hheights, hhashes, hblocks, hundo⟩
  · rintro ⟨hfit, hheights, hhashes, hblocks, hundo⟩
    obtain ⟨hlength, hsome⟩ := hlength _ hhashes
    refine ⟨_, ⟨_, ⟨hfit, rfl⟩, (hs.hashes_eq hne List.pairwise_lt_range').trans hhashes⟩, _,
      (hs.blocks_eq hsome).trans hblocks, _, (hs.undo_eq hsome).trans hundo, (), by simp, (), by simp, ?_⟩
    exact (framesOf_eq_iff (by simp) (by simp)).mpr ⟨by rw [hlength, hheights], rfl, rfl, rfl⟩

end

section
attribute [local instance] sampleHexCrate

end

end BitcoinData
