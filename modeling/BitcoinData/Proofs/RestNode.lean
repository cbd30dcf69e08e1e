import BitcoinData.Proofs.RestForms
import BitcoinData.Proofs.RestRange
import BitcoinData.Proofs.RpcBatch
import BitcoinData.Sanity.Decode
import BitcoinData.Sanity.NodeSample

/-! A node behind its REST interface is an honest source. The hash of a height is read back from
its display, the raw block and its undo data belong to that hash, and undo data in either form is
decoded. -/

namespace BitcoinData

open Lib

section
variable [HexCrate] {startHeight : ℕ} {chain : List NodeBlock} {source : RestSource}

omit [HexCrate] in
theorem all_hexdigit (hash : BlockHashBytes) :
    (asBytes (displayHash hash)).length = 64 ∧ (asBytes (displayHash hash)).all isAsciiHexdigit = true := by
  rw [displayHash, asBytes_hexEncode]
  refine ⟨?_, List.all_eq_true.mpr fun d hd => (mem_hexText hd).1⟩
  rw [length_hexText, List.length_reverse, hash.length_eq]

theorem RestNode.getBlockHash_ok (hn : RestNode startHeight chain source) (hhex : DecodesHex)
    {height : ℕ} {b : NodeBlock} (hb : (b, height) ∈ chain.zipIdx startHeight) :
    source.getBlockHash height = .ok b.block.blockHash := by
  obtain ⟨hle, hget⟩ := List.mk_mem_zipIdx_iff_le_and_getElem?_sub.mp hb
  have htext := hn.hash _ b hget
  rw [Nat.add_sub_cancel' hle] at htext
  rw [RestSource.getBlockHash, htext, ok_bind]
  dsimp only
  rw [ensure_of (all_hexdigit _), ok_bind]
  exact hhex.hashOfDisplay_displayHash _

theorem RestNode.getBlockSpentTxouts_ok (hn : RestNode startHeight chain source) (hhex : DecodesHex)
    {b : NodeBlock} (hb : b ∈ chain) :
    source.getBlockSpentTxouts b.block.blockHash = .ok (some b.undo) := by
  obtain ⟨body, hbody, hform⟩ := hn.undo b hb
  have hzero := zero_mem_payload (hn.values b hb)
  have hdecode : decodeRestBinaryOrHex body "spenttxouts" = .ok b.undo.encoded := by
    cases hform with
    | binary => exact decodeRest_of_zero_mem hzero _
    | hex upper before after hbefore hafter =>
      exact hhex.decodeRest_hexText (List.ne_nil_of_mem hzero) upper hbefore hafter _
  rw [RestSource.getBlockSpentTxouts, hbody]
  simp only [orFailed, hdecode, ok_bind, decodeSpentTxouts_eq_ok.mpr ⟨hn.held b hb, rfl⟩, pure_eq_ok]

omit [HexCrate] in
theorem mem_of_mem_slice {first count : ℕ} (hstart : startHeight ≤ first) {p : NodeBlock × ℕ}
    (hp : p ∈ ((chain.drop (first - startHeight)).take count).zipIdx first) :
    p ∈ chain.zipIdx startHeight := by
  have hslice : ((chain.drop (first - startHeight)).take count).zipIdx first =
      ((chain.zipIdx startHeight).drop (first - startHeight)).take count := by
    rw [zipIdx_drop, zipIdx_take, Nat.add_sub_cancel' hstart]
  rw [hslice] at hp
  exact List.mem_of_mem_drop (List.mem_of_mem_take hp)

omit [HexCrate] in
theorem slice_numbers {first count : ℕ} (hstart : startHeight ≤ first)
    (hend : 0 < count → first + count ≤ startHeight + chain.length) :
    (((chain.drop (first - startHeight)).take count).zipIdx first).map (·.2) =
      List.range' first count := by
  rw [List.zipIdx_map_snd, List.length_take, List.length_drop, Nat.min_eq_left (by omega)]

omit [HexCrate] in
theorem fst_mem_of_mem_zipIdx {p : NodeBlock × ℕ} (hp : p ∈ chain.zipIdx startHeight) : p.1 ∈ chain :=
  List.mem_of_getElem? (List.mk_mem_zipIdx_iff_le_and_getElem?_sub.mp hp).2

theorem RestNode.range_ok (hn : RestNode startHeight chain source) (hhex : DecodesHex)
    (hheights : startHeight + chain.length ≤ U64_MAX + 1) {schedule : RestSchedule}
    (hp : schedule.Possible) {first count : ℕ} (hstart : startHeight ≤ first) (hcount : 0 < count)
    (hend : first + count ≤ startHeight + chain.length) :
    source.getBlockRangeByHeight schedule first count =
      .ok ((((chain.drop (first - startHeight)).take count).zipIdx first).map fullFrame) := by
  have hmem : ∀ p ∈ ((chain.drop (first - startHeight)).take count).zipIdx first,
      p ∈ chain.zipIdx startHeight := fun p hp => mem_of_mem_slice hstart hp
  have hnumbers := @slice_numbers startHeight chain first count hstart fun _ => hend
  refine (restRange_eq_ok hp hcount).mpr ⟨fun offset hlt => by omega, ?_, ?_, ?_, ?_⟩
  · rw [List.map_map]
    exact hnumbers
  · rw [← hnumbers, List.map_map, mapM_eq_ok, List.forall₂_map_left_iff, List.forall₂_map_right_iff,
      List.forall₂_same]
    exact fun p hp => orFailed_eq_ok.mpr (hn.getBlockHash_ok hhex (hmem p hp))
  · rw [List.map_map, List.map_map, mapM_eq_ok, List.forall₂_map_left_iff, List.forall₂_map_right_iff,
      List.forall₂_same]
    exact fun p hp => orFailed_eq_ok.mpr (hn.block p.1 (fst_mem_of_mem_zipIdx (hmem p hp)))
  · rw [List.map_map, List.map_map, mapM_eq_ok, List.forall₂_map_left_iff, List.forall₂_map_right_iff,
      List.forall₂_same]
    exact fun p hp => hn.getBlockSpentTxouts_ok hhex (fst_mem_of_mem_zipIdx (hmem p hp))

theorem RestNode.undo_ok (hn : RestNode startHeight chain source) (hhex : DecodesHex)
    {schedule : RestSchedule} (hp : schedule.Possible) {blocks : List NodeBlock} (hne : blocks ≠ [])
    (hsub : blocks ⊆ chain) : source.getBlocksSpentTxouts schedule (blocks.map (·.block.blockHash)) =
      .ok (blocks.map (some ·.undo)) := by
  have hhashes : blocks.map (·.block.blockHash) ≠ [] := by simpa using hne
  refine (hp.undo_eq hhashes).trans ?_
  rw [mapM_eq_ok, List.forall₂_map_left_iff, List.forall₂_map_right_iff, List.forall₂_same]
  exact fun b hb => hn.getBlockSpentTxouts_ok hhex (hsub hb)

/-- Whatever the order in which the answers of a stage arrive. -/
theorem rest_node_serves (hn : RestNode startHeight chain source) (hhex : DecodesHex)
    (hheights : startHeight + chain.length ≤ U64_MAX + 1) {schedule undoSchedule : RestSchedule}
    (hp : schedule.Possible) (hup : undoSchedule.Possible) :
    ServesFrames startHeight chain (source.toBlockSource schedule) (source.toBlockSource undoSchedule) where
  range first count hstart hcount hend := by
    refine ⟨_, hn.range_ok hhex hheights hp hstart hcount hend, ?_⟩
    rw [List.forall₂_map_right_iff, List.forall₂_same]
    exact fun p _ => ⟨rfl, rfl, rfl, .inr rfl⟩
  beyond first count hstart hcount hend := by
    cases h : (source.toBlockSource schedule).getBlockRangeByHeight first count with
    | error e => exact ⟨e, rfl⟩
    | ok frames =>
      obtain ⟨-, -, hhashes, -⟩ := (restRange_eq_ok hp hcount).mp h
      have hlast : first + count - 1 ∈ List.range' first count := by
        rw [List.mem_range'_1]
        omega
      obtain ⟨hash, hhash⟩ := ok_of_mem_mapM hhashes hlast
      obtain ⟨e, he⟩ := hn.beyond (first + count - 1) (by omega)
      rw [orFailed_eq_ok, RestSource.getBlockHash, he] at hhash
      cases hhash
  undo blocks hne hsub := hn.undo_ok hhex hup hne hsub

end

section
attribute [local instance] sampleHexCrate

theorem rest_node_serves_sample : ServesFrames 100 sampleNodeChain
    (sampleRestSource.toBlockSource swappedRest) (sampleRestSource.toBlockSource plainRest) :=
  rest_node_serves sampleRestNode sampleHexCrate_decodes (by decide) swappedRest_possible
    plainRest_possible

end

end BitcoinData
