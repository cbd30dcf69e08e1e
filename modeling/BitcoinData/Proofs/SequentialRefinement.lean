import BitcoinData.Sanity.Sample
import BitcoinData.Sanity.Served

/-! The windowed indexer refines the sequential one. Whatever the batch sizes, the
memory budget and the points at which processes stop, the committed rows, the last
UID and the files up to the tip are those of one state that applies the blocks of the
chain one by one. -/

namespace BitcoinData

open Lib

section
variable [Externals] {config : IndexerConfig} {chain : List BlockScanInput}

theorem Follows.produced_take {disk : Disk} {n m : ℕ} {S T : P2trIndexerState} {A B : List AppliedBlock}
    (hv : ValidChain config.emitStartHeight chain) (hf : Follows config chain disk n S A) (hm : m ≤ n)
    (hseq : sequential (chain.take m) = .ok (T, B)) :
    Produced config.emitStartHeight (chain.take m) disk.archive T B := by
  refine ⟨hseq, fun k a ha => ?_⟩
  obtain ⟨hkm, scan, s, s', hspec, hscan⟩ := hv.applied_get hseq ha
  have hA : A[k]? = some a := by
    obtain ⟨C, rfl, -⟩ := sequential_take_append hseq hf.seq hm
    rw [List.getElem?_append_left (List.getElem?_eq_some_iff.mp ha).1, ha]
  obtain ⟨block, hs, hu⟩ := hf.files k a hA
  refine ⟨block, hs, ?_⟩
  have hle := hf.le
  rw [List.length_take, Nat.min_eq_left (hm.trans hle)]
  have hheight : a.storageBlock.height = config.emitStartHeight + k := hspec.height.trans hscan
  apply eq_of_unmarked_eq
  · rw [unmarked_clearAbove, reference_unmarked, hu]
  · intro i hi
    rw [outputs_length_of_unmarked (unmarked_clearAbove _ block)] at hi
    have hi' : i < a.storageBlock.outputs.length := by
      rwa [outputs_length_of_unmarked hu] at hi
    rw [reference_mark a B hi', hheight]
    obtain ⟨hhit, hmiss⟩ := hf.mark_clearAbove hv
      (by omega : config.emitStartHeight + m - 1 < config.emitStartHeight + n) (by omega) hs hi
    rcases spentHeightOf_cases B (config.emitStartHeight + k) i with
      ⟨s, ⟨index, hindex, hmem⟩, heq⟩ | ⟨hnone, heq⟩
    · rw [heq]
      refine hhit index s hindex ⟨m, T, B, hseq, hmem⟩ ?_
      obtain ⟨j, b, -, hsj, hjm, -⟩ := hv.spend_height hseq hmem
      omega
    · rw [heq]
      refine hmiss fun index s hindex hspent => ?_
      by_contra hge
      exact hnone s ⟨index, hindex, hspent.of_le hv hseq (hm.trans hle) (by omega)⟩

theorem Follows.produced {disk : Disk} {n : ℕ} {S : P2trIndexerState} {A : List AppliedBlock}
    (hv : ValidChain config.emitStartHeight chain) (hf : Follows config chain disk n S A) :
    Produced config.emitStartHeight (chain.take n) disk.archive S A :=
  hf.produced_take hv le_rfl hf.seq

theorem sequential_take {n m : ℕ} {S : P2trIndexerState} {A : List AppliedBlock}
    (h : sequential (chain.take n) = .ok (S, A)) (hm : m ≤ n) :
    ∃ T B, sequential (chain.take m) = .ok (T, B) := by
  rw [← Nat.add_sub_cancel' hm, List.take_add] at h
  obtain ⟨T, B, C, hB, -⟩ := applyBlocks_append_eq_ok.mp h
  exact ⟨T, B, hB⟩

/-- The committed archive of a run whose tip is the last of `n` blocks. -/
theorem produced_of_tip (hv : ValidChain config.emitStartHeight chain) {acts : List Action}
    (hon : OnChain chain acts) {sys : System} (hrun : run (step config) System.init acts = some sys)
    {tip : IndexTip} (htip : sys.disk.indexStore.tip = some tip) {n : ℕ}
    (hn : tip.height + 1 = config.emitStartHeight + n) :
    n ≤ chain.length ∧ ∃ state applied,
      Produced config.emitStartHeight (chain.take n) sys.disk.archive state applied := by
  obtain ⟨m, S, A, hf, -⟩ := (chainInv_of_run hv hon hrun).follows
  have hnext := hf.next
  rw [nextHeight_of_tip htip] at hnext
  obtain rfl : m = n := by omega
  exact ⟨hf.le, S, A, hf.produced hv⟩

theorem refines_sequential (config : IndexerConfig) (chain : List BlockScanInput)
    (hv : ValidChain config.emitStartHeight chain) (acts : List Action) (hon : OnChain chain acts)
    (sys : System) (hrun : run (step config) System.init acts = some sys) (tip : IndexTip)
    (htip : sys.disk.indexStore.tip = some tip) :
    ∃ n state applied, n ≤ chain.length ∧ tip.height + 1 = config.emitStartHeight + n ∧
      Produced config.emitStartHeight (chain.take n) sys.disk.archive state applied ∧
      sys.disk.indexStore.outpoints = state.outpointToSpend ∧ tip.lastUid = state.lastUid := by
  obtain ⟨n, S, A, hf, -⟩ := (chainInv_of_run hv hon hrun).follows
  refine ⟨n, S, A, hf.le, ?_, hf.produced hv, hf.rows, ?_⟩
  · rw [← hf.next, nextHeight_of_tip htip]
  · have huid := hf.uid
    rw [restoredUid, htip] at huid
    exact huid

end

/-! Two windows with a crash between the rewrite of a committed block and the commit. -/

section
attribute [local instance] sampleExternals

def crashedActions : List Action :=
  [.start, sampleCatchUp 102 sampleChain] ++ List.replicate 7 .effect ++
    [sampleCatchUp 103 sampleChain] ++ List.replicate 3 .effect ++
    [.crash, .start, sampleCatchUp 103 sampleChain] ++ List.replicate 6 .effect

theorem crashedActions_onChain : OnChain sampleChain crashedActions := by
  intro tuning best fetch hmem
  have hfetch : fetch = sampleFetch sampleChain := by
    simp only [crashedActions, sampleCatchUp, List.mem_append, List.mem_cons, List.mem_replicate,
      reduceCtorEq, Action.catchUp.injEq, List.not_mem_nil, and_false, or_false, false_or] at hmem
    rcases hmem with (h | h) | h
    · exact h.2.2
    · exact h.2.2
    · exact h.2.2
  rw [hfetch]
  exact sampleFetch_honest

theorem refines_sequential_sample : ∃ (sys : System) (tip : IndexTip) (state : P2trIndexerState)
    (applied : List AppliedBlock), tip.height = 102 ∧ sys.disk.indexStore.tip = some tip ∧
      Produced 100 sampleChain sys.disk.archive state applied ∧
      sys.disk.indexStore.outpoints = state.outpointToSpend ∧ tip.lastUid = state.lastUid := by
  have hrun : ((run (step sampleConfig) System.init crashedActions).any fun sys =>
      sys.disk.indexStore.tip.any fun tip => decide (tip.height = 102)) = true := by
    decide +kernel
  obtain ⟨sys, hsys, htip⟩ := (Option.any_eq_true _ _).mp hrun
  obtain ⟨tip, ht, hheight⟩ := (Option.any_eq_true _ _).mp htip
  replace hheight := of_decide_eq_true hheight
  obtain ⟨n, state, applied, -, hn, hp, hrows, huid⟩ := refines_sequential sampleConfig sampleChain
    sampleChain_valid crashedActions crashedActions_onChain sys hsys tip ht
  have hn3 : n = 3 := by
    rw [hheight] at hn
    change 103 = 100 + n at hn
    omega
  rw [hn3] at hp
  exact ⟨sys, tip, state, applied, hheight, ht, hp, hrows, huid⟩

end

end BitcoinData
