import BitcoinData.Proofs.UidDomain
import BitcoinData.Sanity.Valid

/-! Whatever the indexer builds can be stored. Most of what the storage validator
checks was already checked by the response the builder derives; what is left are the
lengths, the slot domain, the two hash blobs and the creation heights, and the last
of these needs the history of the state. -/

namespace BitcoinData

open Lib

section
variable [Externals] {state state' : P2trIndexerState} {block : BlockScanInput}
  {applied : AppliedBlock}

/-- Every entry that a sequence of blocks leaves in an empty map was created by one of
them. -/
theorem creationHeight_of_applyBlocks {blocks : List BlockScanInput} {all : List AppliedBlock}
    (h : state.applyBlocks blocks = .ok (state', all)) {outpoint : OutPointKey}
    {spend : SpendLookup} (hl : state'.outpointToSpend.lookup outpoint = some spend) :
    state.outpointToSpend.lookup outpoint = some spend ∨
      ∃ block ∈ blocks, spend.creationHeight = block.height := by
  induction blocks generalizing state all with
  | nil =>
    rw [P2trIndexerState.applyBlocks, Except.ok.injEq, Prod.mk.injEq] at h
    rw [h.1]
    exact Or.inl hl
  | cons block blocks ih =>
    obtain ⟨state₁, first, rest, h₁, h₂, rfl⟩ := applyBlocks_cons_eq_ok.mp h
    rcases ih h₂ with hold | ⟨b, hb, hh⟩
    · have hs := applyBlockWithStats_spec h₁
      rcases hs.lookup_origin hold with hold | ⟨created, hc, hpair⟩
      · exact Or.inl hold
      · refine Or.inr ⟨block, List.mem_cons_self, ?_⟩
        have := hs.created_creationHeight hc
        rwa [hpair] at this
    · exact Or.inr ⟨b, List.mem_cons_of_mem _ hb, hh⟩

/-- The validator accepts an applied block once its height and its number of native
P2TR outputs fit and no entry of the map lies above it. -/
theorem AppliedSpec.storedValid (hs : AppliedSpec state block state' applied)
    (hheight : block.height ≤ U32_MAX) (hslots : block.p2trSlots.length ≤ U16_MAX)
    (hmap : ∀ outpoint spend, state.outpointToSpend.lookup outpoint = some spend →
      spend.creationHeight ≤ block.height) :
    StoredValid applied.storageBlock := by
  have htotal := hs.total
  have hlight := toResponse_valid hs.response
  have hbitmap : BitmapValid applied.storageBlock.txCount applied.storageBlock.skippedTxsForTweaks
      applied.storageBlock.tweaks.length := by
    have h := hlight.bitmap
    have hresp := hs.response
    unfold StoredLightBlockInput.toResponseInputForLabels at hresp
    simp only [bind_eq_ok, pure_eq_ok, Except.ok.injEq] at hresp
    obtain ⟨ids, -, _, -, heq⟩ := hresp
    rwa [← heq] at h
  refine ⟨by rw [hs.height]; exact hheight, hbitmap, ?_, ?_, hs.skipped_sorted.isChain, ?_, ?_, ?_,
    ?_, ⟨_, hs.response⟩, ?_⟩
  · rw [MAX_U16_SECTION_COUNT]; omega
  · rw [MAX_U16_SECTION_COUNT]; omega
  · omega
  · intro slot hslot
    have hmem : slot.toNat ∈ (skippedSlots block.p2trSlots).map (·.2) :=
      hs.skipped ▸ List.mem_map_of_mem hslot
    rw [skippedSlots_numbers, List.mem_filter, List.mem_range] at hmem
    rw [htotal]
    exact hmem.1
  · rw [hs.twoLabels, buildStoredTruncatedOutputHashes, packTruncatedOutputHashFromKeys_length,
      List.length_map]
  · rw [hs.hundredLabels, buildStoredTruncatedOutputHashes,
      packTruncatedOutputHashFromKeys_length, List.length_map]
  · intro spend hspend
    have hmem : (spend.spentUid, spend.creationHeight.toNat) ∈
        applied.spentUtxos.map fun s => (s.uid, s.creationHeight) :=
      hs.spends ▸ List.mem_map_of_mem hspend
    obtain ⟨spent, hspent, heq⟩ := List.mem_map.mp hmem
    rw [hs.height, ← (Prod.mk.inj heq).2]
    rcases hs.spent_origin hspent with h | ⟨created, hc, hpair⟩
    · exact hmap _ _ h
    · have := hs.created_creationHeight hc
      rw [hpair] at this
      exact le_of_eq this

omit [Externals] in
theorem encodeStoredLightBlock_of_valid {input : StoredLightBlockInput} (h : StoredValid input) :
    ∃ message, encodeStoredLightBlock input = .ok message := by
  have hheight : tryU32 input.height = .ok (UInt32.ofNat input.height) := by
    rw [tryU32_eq_ok]
    exact UInt32.toNat_ofNat_of_lt' (lt_of_le_of_lt h.height (by decide))
  unfold encodeStoredLightBlock
  rw [validateStoredLightBlockInput_eq_ok (u := ()) |>.mpr h, ok_bind, hheight, ok_bind]
  exact ⟨_, rfl⟩

/-- Neither the transaction positions nor the tweaks need a premise: a call that
returns has had them checked by the response it derives. -/
theorem storage_block_storable (start : P2trIndexerState) (blocks : List BlockScanInput)
    (all : List AppliedBlock) (state state' : P2trIndexerState) (block : BlockScanInput)
    (applied : AppliedBlock)
    (hstart : start = P2trIndexerState.new ∨ ∃ uid, start = P2trIndexerState.restoreAtUid uid)
    (hmono : (blocks ++ [block]).Pairwise fun a b => a.height ≤ b.height)
    (hheight : block.height ≤ U32_MAX) (hslots : block.p2trSlots.length ≤ U16_MAX)
    (hblocks : start.applyBlocks blocks = .ok (state, all))
    (hblock : state.applyBlockWithStats block = .ok (state', applied)) :
    validateStoredLightBlockInput applied.storageBlock = .ok () ∧
      ∃ message, encodeStoredLightBlock applied.storageBlock = .ok message := by
  have hempty : start.outpointToSpend = ∅ := by
    rcases hstart with rfl | ⟨uid, rfl⟩
    · rfl
    · rfl
  have hvalid : StoredValid applied.storageBlock := by
    apply (applyBlockWithStats_spec hblock).storedValid hheight hslots
    intro outpoint spend hl
    rcases creationHeight_of_applyBlocks hblocks hl with h | ⟨b, hb, hh⟩
    · rw [hempty, Finmap.lookup_empty] at h
      cases h
    · rw [hh]
      exact (List.pairwise_append.mp hmono).2.2 b hb block (List.mem_singleton_self _)
  exact ⟨validateStoredLightBlockInput_eq_ok.mpr hvalid, encodeStoredLightBlock_of_valid hvalid⟩

end

section
attribute [local instance] sampleExternals

theorem storage_block_storable_sample : ∃ all state state' applied,
    P2trIndexerState.new.applyBlocks [sampleBlock 100 1 0 [sampleTx 10 0 [] [1, 2]]] =
      .ok (state, all) ∧
    state.applyBlockWithStats (sampleBlock 101 2 1 [sampleTx 11 0 [⟨sampleId 10, 1⟩] [3]]) =
      .ok (state', applied) ∧
    validateStoredLightBlockInput applied.storageBlock = .ok () := by
  obtain ⟨⟨state', all⟩, h⟩ : ∃ r, P2trIndexerState.new.applyBlocks
      [sampleBlock 100 1 0 [sampleTx 10 0 [] [1, 2]],
        sampleBlock 101 2 1 [sampleTx 11 0 [⟨sampleId 10, 1⟩] [3]]] = .ok r :=
    exists_of_isOk (by decide +kernel)
  obtain ⟨state, first, rest, h₁, h₂, -⟩ := applyBlocks_cons_eq_ok.mp h
  obtain ⟨state₂, applied, -, h₃, -, -⟩ := applyBlocks_cons_eq_ok.mp h₂
  have hfirst : P2trIndexerState.new.applyBlocks [sampleBlock 100 1 0 [sampleTx 10 0 [] [1, 2]]] =
      .ok (state, [first]) := applyBlocks_cons_eq_ok.mpr ⟨state, first, [], h₁, rfl, rfl⟩
  exact ⟨[first], state, state₂, applied, hfirst, h₃,
    (storage_block_storable _ _ _ _ _ _ _ (Or.inl rfl) (by decide) (by decide) (by decide)
      hfirst h₃).1⟩

end

end BitcoinData
