import BitcoinData.Proofs.ServedTip
import BitcoinData.Sanity.Drafts
import BitcoinData.Sanity.Filtered
import BitcoinData.Sanity.Sample

/-! Responses while the archive grows. Block files are rewritten in place, but a filter sees
spent heights only up to its cut-through tip, and those are final once they are committed. -/

namespace BitcoinData

open Lib

/-! ## Blocks up to a height -/

theorem mark_unmarked (block : StoredLightBlockInput) (i : ℕ) :
    block.unmarked.mark i = STORAGE_SPENT_HEIGHT_UNSPENT := by
  unfold StoredLightBlockInput.mark StoredLightBlockInput.unmarked
  rw [List.getElem?_map]
  cases block.outputs[i]? <;> rfl

theorem unmarked_unmarked (block : StoredLightBlockInput) : block.unmarked.unmarked = block.unmarked := by
  simp [StoredLightBlockInput.unmarked]

theorem clearAbove_eq_unmarked {block : StoredLightBlockInput} {tip : ℕ}
    (h : ∀ i < block.outputs.length, block.mark i ≠ STORAGE_SPENT_HEIGHT_UNSPENT →
      tip < (block.mark i).toNat) : block.clearAbove tip = block.unmarked := by
  apply eq_of_unmarked_eq
  · rw [unmarked_clearAbove, unmarked_unmarked]
  · intro i hi
    rw [outputs_length_of_unmarked (unmarked_clearAbove tip block)] at hi
    rw [mark_clearAbove, mark_unmarked]
    split_ifs with hle
    · by_contra hne
      have := h i hi hne
      omega
    · rfl

section
variable [Externals] {config : IndexerConfig} {chain : List BlockScanInput} {sys sys' : System}
variable {count count' k : ℕ} {block block' : StoredLightBlockInput}

theorem Drafts.unmarked_eq {archive archive' : FileArchive} (hd : Drafts config chain archive count)
    (hd' : Drafts config chain archive' count') (hk : k < count) (hk' : k < count')
    (hs : archive.Stored (config.emitStartHeight + k) block)
    (hs' : archive'.Stored (config.emitStartHeight + k) block') : block.unmarked = block'.unmarked := by
  obtain ⟨b, a, hb, ha, hu⟩ := hd.file k hk
  obtain ⟨b', a', hb', ha', hu'⟩ := hd'.file k hk'
  obtain rfl := FileArchive.Stored.unique hs hb
  obtain rfl := FileArchive.Stored.unique hs' hb'
  rw [hu, hu', ha.unique ha']

theorem Drafts.clearAbove {archive : FileArchive} (hv : ValidChain config.emitStartHeight chain)
    (hd : Drafts config chain archive count) {tip height : ℕ} (htip : tip < height)
    (hs : archive.Stored height block) : block.clearAbove tip = block.unmarked := by
  apply clearAbove_eq_unmarked
  intro i hi hne
  obtain ⟨index, -, hspent⟩ := hd.marks (height + 1) height block i (by omega) hs hi hne
  have := hspent.le hv
  omega

/-- Both states show the same block up to a height that was committed in the first. -/
theorem OnRun.clearAbove_eq (hv : ValidChain config.emitStartHeight chain)
    (hr : OnRun config chain sys count) (hr' : OnRun config chain sys' count')
    (hnext : nextHeight config sys.disk.indexStore ≤ nextHeight config sys'.disk.indexStore)
    {tip : ℕ} (htip : tip < nextHeight config sys.disk.indexStore) (hk : k < count) (hk' : k < count')
    (hs : sys.disk.archive.Stored (config.emitStartHeight + k) block)
    (hs' : sys'.disk.archive.Stored (config.emitStartHeight + k) block') :
    block.clearAbove tip = block'.clearAbove tip := by
  obtain ⟨n, S, A, hf, -⟩ := hr.inv.follows
  obtain ⟨n', S', A', hf', -⟩ := hr'.inv.follows
  rw [hf.next, hf'.next] at hnext
  rw [hf.next] at htip
  by_cases hkn : k < n
  · exact hf.clearAbove_eq hv hf' hkn (by omega) htip (by omega) hs hs'
  · rw [hr.drafts.clearAbove hv (by omega) hs, hr'.drafts.clearAbove hv (by omega) hs']
    exact hr.drafts.unmarked_eq hr'.drafts hk hk' hs hs'

/-! ## Responses -/

def CutthroughCommitted (indexStore : RocksIndexStore) (filter : StoredBlockResponseFilter) : Prop :=
  filter.cutthroughStart = none ∨ ∃ cutthroughTip tip, filter.cutthroughTip = some cutthroughTip ∧
    indexStore.tip = some tip ∧ cutthroughTip ≤ tip.height

theorem readBlock_eq {archive archive' : FileArchive} {height : ℕ} {filter : StoredBlockResponseFilter}
    (hs : archive.Stored height block) (hs' : archive'.Stored height block')
    (hhash : block.blockHash = block'.blockHash)
    (hresponse : block.toFilteredResponseInput filter = block'.toFilteredResponseInput filter) :
    archive'.readBlockFilteredWithHash height filter = archive.readBlockFilteredWithHash height filter := by
  obtain ⟨bytes, hlookup, hdec⟩ := hs
  obtain ⟨bytes', hlookup', hdec'⟩ := hs'
  have hread : archive.readStoredBlock height = .ok bytes := by rw [FileArchive.readStoredBlock, hlookup]; rfl
  have hread' : archive'.readStoredBlock height = .ok bytes' := by
    rw [FileArchive.readStoredBlock, hlookup']
    rfl
  unfold FileArchive.readBlockFilteredWithHash storedLightBlockToFilteredResponseBytes
  rw [hread, hread', ok_bind, ok_bind, hdec, hdec', ok_bind, ok_bind, hresponse, hhash]

theorem OnRun.served_height (hr : OnRun config chain sys count) {tip : ChainTip} {height : ℕ}
    (htip : sys.disk.archive.tip = some tip) (hle : height ≤ tip.height) :
    height < config.emitStartHeight + count := by
  by_cases hm : ∃ m, sys.disk.archive.manifest = .complete m
  · obtain ⟨m, hm⟩ := hm
    obtain ⟨manifestTip, indexTip, hmt, hindex, hcommitted⟩ := hr.inv.base.manifest m hm
    simp only [FileArchive.tip, FileArchive.readManifest, hm, hmt, Option.some.injEq] at htip
    obtain ⟨n, S, A, hf, -⟩ := hr.inv.follows
    have hcount := hr.drafts.committed hr.inv.base.files hf.next
    have hnext := hf.next
    rw [nextHeight_of_tip hindex] at hnext
    rw [htip] at hcommitted
    omega
  · push Not at hm
    rw [tip_of_unreadable hm] at htip
    have := hr.drafts.bounds _ (tipFromFiles_mem htip)
    omega

theorem OnRun.readBlock_later (hv : ValidChain config.emitStartHeight chain)
    (hr : OnRun config chain sys count) (hr' : OnRun config chain sys' count') (hcount : count ≤ count')
    (hnext : nextHeight config sys.disk.indexStore ≤ nextHeight config sys'.disk.indexStore)
    {tip : ChainTip} (htip : sys.disk.archive.tip = some tip) {height : ℕ} (hle : height ≤ tip.height)
    {filter : StoredBlockResponseFilter} (hcommitted : CutthroughCommitted sys.disk.indexStore filter) :
    sys'.disk.archive.readBlockFilteredWithHash height filter =
      sys.disk.archive.readBlockFilteredWithHash height filter := by
  have hlt := hr.served_height htip hle
  by_cases hlow : height < config.emitStartHeight
  · -- nothing is filed below the start
    have hnone : ∀ {archive : FileArchive} {c : ℕ}, Drafts config chain archive c →
        archive.readStoredBlock height = .error "No such file or directory (os error 2)" := by
      intro archive c hd
      unfold FileArchive.readStoredBlock
      cases hlookup : archive.blocks.lookup height with
      | none => rfl
      | some bytes =>
        have := hd.bounds _ (mem_keys_of_lookup hlookup)
        omega
    unfold FileArchive.readBlockFilteredWithHash
    rw [hnone hr.drafts, hnone hr'.drafts]
  · obtain ⟨k, rfl⟩ := Nat.exists_eq_add_of_le (not_lt.mp hlow)
    obtain ⟨block, a, hs, -, -⟩ := hr.drafts.file k (by omega)
    obtain ⟨block', a', hs', -, -⟩ := hr'.drafts.file k (by omega)
    have hunmarked := hr.drafts.unmarked_eq hr'.drafts (by omega) (by omega) hs hs'
    refine readBlock_eq hs hs' (header_of_unmarked hunmarked).2.1 ?_
    rcases hcommitted with hplain | ⟨cutthroughTip, indexTip, hcut, hindex, hcutle⟩
    · rw [← toFilteredResponse_unmarked hplain, hunmarked, toFilteredResponse_unmarked hplain]
    · have hbelow : cutthroughTip < nextHeight config sys.disk.indexStore := by
        rw [nextHeight_of_tip hindex]
        omega
      have hclear := hr.clearAbove_eq hv hr' hnext hbelow (by omega) (by omega) hs hs'
      rw [← toFilteredResponse_clearAbove hcut, hclear, toFilteredResponse_clearAbove hcut]

/-- A response whose cut-through tip is committed stays what it is, at every later point of
every run over the chain. -/
theorem stable_response (config : IndexerConfig) (chain : List BlockScanInput)
    (hv : ValidChain config.emitStartHeight chain) (acts acts' : List Action)
    (hon : OnChain chain acts) (hon' : OnChain chain acts') (sys sys' : System)
    (hrun : run (step config) System.init acts = some sys) (hrun' : run (step config) sys acts' = some sys')
    (tip : ChainTip) (htip : sys.disk.archive.tip = some tip) (height : ℕ) (hle : height ≤ tip.height)
    (filter : StoredBlockResponseFilter) (hcommitted : CutthroughCommitted sys.disk.indexStore filter) :
    sys'.disk.archive.readBlockFilteredWithHash height filter =
      sys.disk.archive.readBlockFilteredWithHash height filter := by
  obtain ⟨count, -, hr, -⟩ := onRun_init.later hv hon hrun
  obtain ⟨count', hcount, hr', hnext⟩ := hr.later hv hon' hrun'
  exact hr.readBlock_later hv hr' hcount hnext htip hle hcommitted

end

/-! ## On the sample chain -/

section
attribute [local instance] sampleExternals

/-- Every filter that a server builds for a request: no cut-through, or a cut-through tip up to
the served one. -/
def ServableFilter (tip : ChainTip) (filter : StoredBlockResponseFilter) : Prop :=
  filter.cutthroughStart = none ∨ ∃ cutthroughTip, filter.cutthroughTip = some cutthroughTip ∧
    cutthroughTip ≤ tip.height

/-- The first window: the files of the heights 100 and 101, nothing marked yet. -/
def draftActions : List Action := [.start, sampleCatchUp 102 sampleChain, .effect, .effect]

theorem draftActions_onChain : OnChain sampleChain draftActions := by
  intro tuning best fetch hmem
  have hfetch : fetch = sampleFetch sampleChain := by
    simp only [draftActions, sampleCatchUp, List.mem_cons, reduceCtorEq, Action.catchUp.injEq,
      List.not_mem_nil, or_false, false_or] at hmem
    exact hmem.2.2
  rw [hfetch]
  exact sampleFetch_honest

theorem effects_onChain (count : ℕ) : OnChain sampleChain (List.replicate count .effect) := by
  intro tuning best fetch hmem
  cases List.eq_of_mem_replicate hmem

def draftFilter : StoredBlockResponseFilter := ⟨some 100, some 101, false, none⟩

/-- Without a manifest the tip is the last file. The output of height 100 that block 101 spends
is served until its mark is written. -/
theorem draft_response_changes : ∃ sys sys' tip, OnChain sampleChain draftActions ∧
    run (step sampleConfig) System.init draftActions = some sys ∧
    run (step sampleConfig) sys [.effect, .effect] = some sys' ∧ sys.disk.archive.tip = some tip ∧
    100 ≤ tip.height ∧ ServableFilter tip draftFilter ∧
    sys'.disk.archive.readBlockFilteredWithHash 100 draftFilter ≠
      sys.disk.archive.readBlockFilteredWithHash 100 draftFilter := by
  have hrun : ((run (step sampleConfig) System.init draftActions).any fun sys =>
      (run (step sampleConfig) sys [.effect, .effect]).any fun sys' =>
        sys.disk.archive.tip = some ⟨101, ""⟩ ∧
          (sys'.disk.archive.readBlockFilteredWithHash 100 draftFilter).toOption ≠
            (sys.disk.archive.readBlockFilteredWithHash 100 draftFilter).toOption) = true := by
    decide +kernel
  obtain ⟨sys, hsys, hrun⟩ := (Option.any_eq_true _ _).mp hrun
  obtain ⟨sys', hsys', hrun⟩ := (Option.any_eq_true _ _).mp hrun
  obtain ⟨htip, hne⟩ := of_decide_eq_true hrun
  refine ⟨sys, sys', ⟨101, ""⟩, draftActions_onChain, hsys, hsys', htip, by decide, .inr ⟨101, rfl, le_rfl⟩, fun heq => hne ?_⟩
  rw [heq]

/-- The same heights once they are committed: the file of height 100 is rewritten by the next
window, the response stays. -/
theorem stable_response_sample : ∃ sys sys' : System,
    run (step sampleConfig) System.init (draftActions ++ List.replicate 5 .effect) = some sys ∧
    sys'.disk.archive.blocks.lookup 100 ≠ sys.disk.archive.blocks.lookup 100 ∧
    sys'.disk.archive.readBlockFilteredWithHash 100 draftFilter =
      sys.disk.archive.readBlockFilteredWithHash 100 draftFilter := by
  have hrun : ((run (step sampleConfig) System.init (draftActions ++ List.replicate 5 .effect)).any fun sys =>
      (run (step sampleConfig) sys (sampleCatchUp 103 sampleChain :: List.replicate 3 .effect)).any fun sys' =>
        sys'.disk.archive.blocks.lookup 100 ≠ sys.disk.archive.blocks.lookup 100 ∧
          sys.disk.archive.tip.any (fun tip => decide (100 ≤ tip.height)) ∧
          sys.disk.indexStore.tip.any (fun tip => decide (101 ≤ tip.height))) = true := by
    decide +kernel
  obtain ⟨sys, hsys, hrun⟩ := (Option.any_eq_true _ _).mp hrun
  obtain ⟨sys', hsys', hrun⟩ := (Option.any_eq_true _ _).mp hrun
  obtain ⟨hfile, htip, hindex⟩ := of_decide_eq_true hrun
  obtain ⟨tip, htip, hle⟩ := (Option.any_eq_true _ _).mp htip
  obtain ⟨indexTip, hindex, hcommitted⟩ := (Option.any_eq_true _ _).mp hindex
  refine ⟨sys, sys', hsys, hfile, ?_⟩
  refine stable_response sampleConfig sampleChain sampleChain_valid _ _ ?_ ?_ sys sys' hsys hsys' tip htip 100
    (of_decide_eq_true hle) draftFilter (.inr ⟨101, indexTip, rfl, hindex, of_decide_eq_true hcommitted⟩)
  · intro tuning best fetch hmem
    rcases List.mem_append.mp hmem with hmem | hmem
    · exact draftActions_onChain tuning best fetch hmem
    · exact effects_onChain 5 tuning best fetch hmem
  · intro tuning best fetch hmem
    rcases List.mem_cons.mp hmem with heq | hmem
    · obtain ⟨-, -, rfl⟩ := Action.catchUp.inj heq
      exact sampleFetch_honest
    · exact effects_onChain 3 tuning best fetch hmem

end

end BitcoinData
