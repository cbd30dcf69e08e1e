import BitcoinData.Sanity.Precomputed
import BitcoinData.Sanity.Sample
import BitcoinData.Sanity.System

/-! The response served from the precomputed fields of a block and the response rebuilt by the
filter loop are the same when the filter has nothing to omit. -/

namespace BitcoinData

open Lib

section
variable [Externals]

/-- The forms of a stored block: as it was built, as it is read back from its file, and with
outputs marked as spent. -/
inductive StoredForm (built : StoredLightBlockInput) : StoredLightBlockInput → Prop
  | built : StoredForm built built
  | readBack {block block' : StoredLightBlockInput} {bytes : Bytes} : StoredForm built block →
      storedBlockBytes block = .ok bytes → decodeStoredLightBlock bytes = .ok block' →
      StoredForm built block'
  | marked {block block' : StoredLightBlockInput} {creationHeight updated updated' : ℕ}
      {marks : List (UInt32 × UInt32)} : StoredForm built block →
      marks.foldlM (FileArchive.markOutput creationHeight) (block, updated) = .ok (block', updated') →
      StoredForm built block'

variable {state state' : P2trIndexerState} {scan : BlockScanInput} {applied : AppliedBlock}
  {block block' : StoredLightBlockInput} {filter : StoredBlockResponseFilter}

/-! ## Every form of a block keeps them -/

theorem Precomputed.readBack {bytes : Bytes} (hp : Precomputed block)
    (hwrite : storedBlockBytes block = .ok bytes)
    (hread : decodeStoredLightBlock bytes = .ok block') :
    Precomputed block' := by
  have hvalid := (decode_fields hread).1
  rw [decode_storedBlockBytes hwrite, Except.ok.injEq] at hread
  subst hread
  refine hp.congr ?_ rfl rfl rfl rfl hvalid.response
  rw [StoredLightBlockInput.normalised, List.map_map]
  rfl

theorem Precomputed.marked (hp : Precomputed block) (marks : List (UInt32 × UInt32)) :
    Precomputed (block.marked marks) := by
  refine hp.congr rfl (keys_applyMarks marks block.outputs) rfl rfl rfl ?_
  obtain ⟨response, hr⟩ := hp.response
  refine ⟨response, ?_⟩
  rw [← hr]
  unfold StoredLightBlockInput.toResponseInputForLabels
  rw [show (block.marked marks).outputs.length = block.outputs.length from applyMarks_length marks block.outputs]
  rfl

theorem StoredForm.precomputed {built : StoredLightBlockInput} (h : StoredForm built block)
    (hbuilt : Precomputed built) : Precomputed block := by
  induction h with
  | built => exact hbuilt
  | readBack _ hwrite hread ih => exact ih.readBack hwrite hread
  | @marked block block' _ _ _ marks _ hmarks ih =>
    have heq : block' = block.marked marks := (FileArchive.markOutputs_eq_ok hmarks).1
    exact heq ▸ ih.marked marks

/-- A filter that omits nothing of a block serves the response that was computed when the block
was indexed, whatever has been marked spent in it since. -/
theorem filtered_eq_precomputed (state state' : P2trIndexerState) (scan : BlockScanInput)
    (applied : AppliedBlock) (block : StoredLightBlockInput) (filter : StoredBlockResponseFilter)
    (happly : state.applyBlockWithStats scan = .ok (state', applied))
    (hform : StoredForm applied.storageBlock block)
    (hfilter : filter.filterReuse = true ∨ filter.cutthroughStart.isSome = true)
    (hout : ∀ output ∈ block.outputs, shouldOmitStoredOutput block.height output filter = false)
    (hspend : ∀ spend ∈ block.spends, shouldOmitStoredSpend block.height spend filter = false) :
    ∃ response, block.toFilteredResponseInput filter = .ok response ∧
      block.toResponseInputForLabels filter.labels = .ok response := by
  have hp := hform.precomputed (applyBlockWithStats_spec happly).precomputed
  obtain ⟨ids, hids, hvalid⟩ := hp.lightValid filter.labels
  have hresponse := toResponse_eq_ok.mpr ⟨ids, hids, rfl, hvalid⟩
  exact ⟨_, (hp.filtered_eq (not_plain_of_set hfilter) hout hspend).trans hresponse, hresponse⟩

end

section
attribute [local instance] sampleExternals

/-- A block with one output spent later, under a filter that starts above it. -/
theorem filtered_eq_precomputed_sample : ∃ state' applied, ∃ block : StoredLightBlockInput,
    P2trIndexerState.new.applyBlockWithStats (sampleBlock 100 1 0 [sampleTx 10 0 [] [1, 2]]) =
      .ok (state', applied) ∧ block.outputs.map (·.spentHeight.toNat) = [U32_MAX, 105] ∧
    ∃ response, block.toFilteredResponseInput ⟨some 101, some 110, true, some 2⟩ = .ok response ∧
      block.toResponseInputForLabels (some 2) = .ok response := by
  have hrun : ((P2trIndexerState.new.applyBlockWithStats
      (sampleBlock 100 1 0 [sampleTx 10 0 [] [1, 2]])).toOption.any fun r =>
      ([(1, 105)].foldlM (FileArchive.markOutput 100) (r.2.storageBlock, 0)).toOption.any fun marked =>
        decide (marked.1.outputs.map (·.spentHeight.toNat) = [U32_MAX, 105] ∧
          (∀ output ∈ marked.1.outputs, shouldOmitStoredOutput marked.1.height output
            ⟨some 101, some 110, true, some 2⟩ = false) ∧ marked.1.spends = [])) = true := by
    decide +kernel
  obtain ⟨⟨state', applied⟩, happly, hrun⟩ := (Option.any_eq_true _ _).mp hrun
  obtain ⟨⟨block, updated⟩, hmarked, hfacts⟩ := (Option.any_eq_true _ _).mp hrun
  obtain ⟨hheights, hout, hspends⟩ := of_decide_eq_true hfacts
  have happly := toOption_eq_some.mp happly
  refine ⟨state', applied, block, happly, hheights,
    filtered_eq_precomputed _ _ _ _ _ _ happly (.marked .built (toOption_eq_some.mp hmarked))
      (Or.inl rfl) hout fun spend hs => ?_⟩
  rw [hspends] at hs
  exact (List.not_mem_nil hs).elim

end

end BitcoinData
