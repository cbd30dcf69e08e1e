import BitcoinData.Sanity.Apply
import BitcoinData.Sanity.Filtered
import BitcoinData.Sanity.Marking

/-! The precomputed fields of a stored block. They depend on the keys of the outputs and not on what is
marked spent, and they are what the filter loop rebuilds when it omits nothing. -/

namespace BitcoinData

open Lib

section
variable [Externals]

/-- What the indexer builds into a block for the precomputed response. -/
structure Precomputed (block : StoredLightBlockInput) : Prop where
  counts : CountsPositive block.tweaks
  sum : tweakSum block.tweaks = block.outputs.length
  twoLabels : block.truncatedOutputHashForTwoLabels =
    buildStoredTruncatedOutputHashes block.rawBlockBytes block.outputs RESPONSE_LABEL_BUDGET_TWO
  hundredLabels : block.truncatedOutputHashForHundredLabels =
    buildStoredTruncatedOutputHashes block.rawBlockBytes block.outputs RESPONSE_LABEL_BUDGET_HUNDRED
  response : ∃ response, block.toResponseInputForLabels none = .ok response

variable {state state' : P2trIndexerState} {scan : BlockScanInput} {applied : AppliedBlock}
  {block block' : StoredLightBlockInput} {filter : StoredBlockResponseFilter}

theorem AppliedSpec.precomputed (hs : AppliedSpec state scan state' applied) :
    Precomputed applied.storageBlock :=
  ⟨hs.counts, hs.tweaks, hs.twoLabels, hs.hundredLabels, _, hs.response⟩

theorem Precomputed.congr (hp : Precomputed block)
    (hcounts : block'.tweaks.map (·.outputCount) = block.tweaks.map (·.outputCount))
    (hkeys : block'.outputs.map (·.key) = block.outputs.map (·.key))
    (hraw : block'.rawBlockBytes = block.rawBlockBytes)
    (htwo : block'.truncatedOutputHashForTwoLabels = block.truncatedOutputHashForTwoLabels)
    (hhundred : block'.truncatedOutputHashForHundredLabels = block.truncatedOutputHashForHundredLabels)
    (hresponse : ∃ response, block'.toResponseInputForLabels none = .ok response) : Precomputed block' := by
  have hlen : block'.outputs.length = block.outputs.length := by
    simpa only [List.length_map] using congrArg List.length hkeys
  have hbuild : ∀ budget, buildStoredTruncatedOutputHashes block'.rawBlockBytes block'.outputs budget =
      buildStoredTruncatedOutputHashes block.rawBlockBytes block.outputs budget := by
    intro budget
    rw [buildStoredTruncatedOutputHashes, buildStoredTruncatedOutputHashes, hraw, hlen, hkeys]
  refine ⟨fun entry he => ?_, ?_, ?_, ?_, hresponse⟩
  · have hmem : entry.outputCount ∈ block.tweaks.map (·.outputCount) := hcounts ▸ List.mem_map_of_mem he
    obtain ⟨entry', he', heq⟩ := List.mem_map.mp hmem
    exact heq ▸ hp.counts entry' he'
  · have hsum := congrArg (fun counts => (counts.map UInt16.toNat).sum) hcounts
    simp only [List.map_map] at hsum
    exact hsum.trans (hp.sum.trans hlen.symm)
  · rw [htwo, hp.twoLabels, hbuild]
  · rw [hhundred, hp.hundredLabels, hbuild]

theorem Precomputed.of_unmarked (hp : Precomputed block) (h : block'.unmarked = block.normalised.unmarked)
    (hv : StoredValid block') : Precomputed block' := by
  have hkeys := congrArg (fun b : StoredLightBlockInput => b.outputs.map (·.key)) h
  have hcounts := congrArg (fun b : StoredLightBlockInput => b.tweaks.map (·.outputCount)) h
  have hraw := congrArg StoredLightBlockInput.rawBlockBytes h
  have htwo := congrArg StoredLightBlockInput.truncatedOutputHashForTwoLabels h
  have hhundred := congrArg StoredLightBlockInput.truncatedOutputHashForHundredLabels h
  simp only [StoredLightBlockInput.unmarked, StoredLightBlockInput.normalised, List.map_map,
    Function.comp_def] at hkeys hcounts
  exact hp.congr hcounts hkeys hraw htwo hhundred hv.response

omit [Externals] in
theorem keys_applyMarks (marks : List (UInt32 × UInt32)) (outputs : List StoredOutputEntryInput) :
    (applyMarks marks outputs).map (·.key) = outputs.map (·.key) := by
  have h := congrArg (List.map (·.key)) (unmarked_applyMarks marks outputs)
  simpa [List.map_map, Function.comp_def, StoredOutputEntryInput.withSpent] using h

/-! ## The loop that omits nothing -/

omit [Externals] in
/-- The loop when nothing is omitted: it gives back the tweaks and collects every key. -/
theorem filterTweaks_keep_all (rest : List (TweakEntryInput × UInt16))
    (hout : ∀ output ∈ block.outputs, shouldOmitStoredOutput block.height output filter = false) :
    ∀ acc : FilteredTweaks, CountsPositive (rest.map Prod.fst) →
      tweakSum (rest.map Prod.fst) + acc.outputCursor = block.outputs.length →
      rest.foldlM (block.filterTweak filter) acc = .ok { acc with
        outputKeys := acc.outputKeys ++ (block.outputs.drop acc.outputCursor).map (·.key)
        tweaks := acc.tweaks ++ rest.map Prod.fst
        outputCursor := block.outputs.length } := by
  induction rest with
  | nil =>
    intro acc _ hsum
    rw [List.map_nil, tweakSum, List.map_nil, List.sum_nil, Nat.zero_add] at hsum
    rw [hsum, List.drop_length, List.map_nil, List.append_nil, List.map_nil, List.append_nil, ← hsum]
    rfl
  | cons q rest ih =>
    intro acc hpos hsum
    obtain ⟨tweak, txIndex⟩ := q
    rw [List.map_cons, tweakSum, List.map_cons, List.sum_cons, ← tweakSum] at hsum
    have hcount : 0 < tweak.outputCount.toNat := hpos tweak List.mem_cons_self
    simp only at hsum
    set group := (block.outputs.drop acc.outputCursor).take tweak.outputCount.toNat with hgroup
    have hlen : group.length = tweak.outputCount.toNat := by
      rw [hgroup, List.length_take, List.length_drop]
      omega
    have hkept : group =
        group.filter fun output => !shouldOmitStoredOutput block.height output filter := by
      refine (List.filter_eq_self.mpr fun output ho => ?_).symm
      rw [hout output (List.mem_of_mem_drop (List.mem_of_mem_take ho))]
      rfl
    have hsplit : block.outputs.drop acc.outputCursor =
        group ++ block.outputs.drop (acc.outputCursor + tweak.outputCount.toNat) := by
      rw [hgroup, ← List.drop_drop, List.take_append_drop]
    rw [List.foldlM_cons, filterTweak_eq txIndex (by omega) hkept, if_pos (by omega), ok_bind,
      ih _ (fun entry he => hpos entry (List.mem_cons_of_mem _ he)) (by simp only; omega)]
    simp only [hsplit, hlen, UInt16.ofNat_toNat, List.map_append, List.append_assoc, List.map_cons,
      List.singleton_append]

theorem Precomputed.lightValid (hp : Precomputed block) (labels : Option UInt16) :
    ∃ ids, encodeSpentIdsEliasDeltaAscendingAbsolute (block.spends.map (·.spentUid)) = .ok ids ∧
      LightValid (block.responseWith labels ids) := by
  obtain ⟨_, hr⟩ := hp.response
  obtain ⟨ids, hids, rfl, hvalid⟩ := toResponse_eq_ok.mp hr
  refine ⟨ids, hids, hvalid.bitmap, ?_, ?_, hvalid.spends⟩
  · change packedTruncatedOutputHashLen (tweakSum block.tweaks) _ = _
    rw [hp.sum]
    simp only [StoredLightBlockInput.responseWith]
    rcases responseLabelBudget_cases labels with hb | hb
    · rw [hb, if_pos rfl, hp.twoLabels, buildStoredTruncatedOutputHashes,
        packTruncatedOutputHashFromKeys_length, List.length_map]
    · rw [hb, if_neg (by decide), hp.hundredLabels, buildStoredTruncatedOutputHashes,
        packTruncatedOutputHashFromKeys_length, List.length_map]
  · have hbits := hvalid.hashBits
    change tweakSum block.tweaks = 0 ↔ chooseTruncatedOutputHashBits _ _ _ = 0 at hbits ⊢
    rwa [chooseBits_eq_zero] at hbits ⊢

theorem Precomputed.hashes (hp : Precomputed block) (labels : Option UInt16) :
    packTruncatedOutputHashFromKeys (block.outputs.map (·.key)) (chooseTruncatedOutputHashBits
        block.outputs.length block.rawBlockBytes (responseLabelBudget labels)) =
      if responseLabelBudget labels = RESPONSE_LABEL_BUDGET_TWO then
        block.truncatedOutputHashForTwoLabels
      else block.truncatedOutputHashForHundredLabels := by
  rcases responseLabelBudget_cases labels with hb | hb
  · rw [hb, if_pos rfl, hp.twoLabels]
    rfl
  · rw [hb, if_neg (by decide), hp.hundredLabels]
    rfl

theorem Precomputed.filtered_eq (hp : Precomputed block)
    (hslow : ¬ (!filter.filterReuse && filter.cutthroughStart.isNone) = true)
    (hout : ∀ output ∈ block.outputs, shouldOmitStoredOutput block.height output filter = false)
    (hspend : ∀ spend ∈ block.spends, shouldOmitStoredSpend block.height spend filter = false) :
    block.toFilteredResponseInput filter = block.toResponseInputForLabels filter.labels := by
  obtain ⟨ids, -, hvalid⟩ := hp.lightValid filter.labels
  have hbitmap : BitmapValid block.txCount block.skippedTxsForTweaks block.tweaks.length :=
    hvalid.bitmap
  have hcount := (bitmapValid_iff.mp hbitmap).2
  have hderive := hbitmap.derive
  set indexes := (tweakPositions block.txCount.toNat block.skippedTxsForTweaks).map UInt16.ofNat
    with hindexes
  have hzip : (block.tweaks.zip indexes).map Prod.fst = block.tweaks :=
    List.map_fst_zip (by rw [hindexes, List.length_map]; exact ge_of_eq hcount)
  have hfold := filterTweaks_keep_all (block.tweaks.zip indexes) hout
    ⟨block.skippedTxsForTweaks, [], [], 0⟩ (by rw [hzip]; exact hp.counts)
    (by rw [hzip, hp.sum, Nat.add_zero])
  rw [hzip, List.nil_append, List.nil_append, List.drop_zero] at hfold
  have hspends : (block.spends.filter fun spend =>
      !shouldOmitStoredSpend block.height spend filter) = block.spends := by
    refine List.filter_eq_self.mpr fun spend hs => ?_
    rw [hspend spend hs]
    rfl
  unfold StoredLightBlockInput.toFilteredResponseInput StoredLightBlockInput.toResponseInputForLabels
  rw [if_neg hslow, hderive, ok_bind, hfold, ok_bind, ensure_of rfl, ok_bind, hspends]
  simp only [List.length_map, hp.hashes filter.labels]

end

end BitcoinData
