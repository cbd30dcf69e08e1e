import BitcoinData.Sanity.Sample
import BitcoinData.Sanity.Stages

/-! The archive invariant: whatever the source answers and wherever a process stops,
the committed heights have files, and the files connect up to the committed tip. -/

namespace BitcoinData

open Lib

section
variable [Externals]

theorem committed_chain (config : IndexerConfig) (sys : System) (tip : IndexTip)
    (h : Reachable config sys) (htip : sys.disk.indexStore.tip = some tip) :
    (∀ height, config.emitStartHeight ≤ height → height ≤ tip.height →
      ∃ block, sys.disk.archive.Stored height block ∧ block.height = height) ∧
    (∃ block, sys.disk.archive.Stored tip.height block ∧ block.blockHash = tip.blockHash) ∧
    ∀ height, config.emitStartHeight ≤ height → height < tip.height →
      ∃ block next, sys.disk.archive.Stored height block ∧
        sys.disk.archive.Stored (height + 1) next ∧ next.previousBlockHash = block.blockHash := by
  have hfiles := (base_of_reachable h).files
  have hnext : nextHeight config sys.disk.indexStore = tip.height + 1 := nextHeight_of_tip htip
  refine ⟨fun height hlo hhi => hfiles.file height hlo (by omega), (hfiles.tip tip htip).2, ?_⟩
  intro height hlo hhi
  obtain ⟨block, hb, -⟩ := hfiles.file height hlo (by omega)
  obtain ⟨next, hn, -⟩ := hfiles.file (height + 1) (by omega) (by omega)
  exact ⟨block, next, hb, hn, hfiles.link height block next hlo (by omega) hb hn⟩

end

/-! A window of two blocks, committed. -/

section
attribute [local instance] sampleExternals

def committedActions : List Action :=
  [.start, sampleCatchUp 102 [sampleBlock 100 1 0 [sampleTx 10 0 [] [1, 2]],
    sampleBlock 101 2 1 [sampleTx 11 0 [⟨sampleId 10, 1⟩] [3]]]] ++ List.replicate 5 .effect

theorem committed_chain_sample : ∃ sys tip, Reachable sampleConfig sys ∧
    sys.disk.indexStore.tip = some tip ∧
    ∃ block, sys.disk.archive.Stored tip.height block ∧ block.blockHash = tip.blockHash := by
  have hsome : ((run (step sampleConfig) System.init committedActions).bind
      fun sys => sys.disk.indexStore.tip).isSome = true := by decide +kernel
  obtain ⟨tip, htip⟩ := Option.isSome_iff_exists.mp hsome
  obtain ⟨sys, hrun, htip⟩ := Option.bind_eq_some_iff.mp htip
  exact ⟨sys, tip, ⟨_, hrun⟩, htip, (committed_chain _ _ _ ⟨_, hrun⟩ htip).2.1⟩

end

end BitcoinData
