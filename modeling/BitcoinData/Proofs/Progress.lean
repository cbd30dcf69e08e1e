import BitcoinData.Proofs.Advance
import BitcoinData.Sanity.Sample

/-! An indexer that is left alone catches up. From any state that a run over an indexable
chain can reach, crashes at any point included, no step of an undisturbed process fails,
each of them uses up one of the steps that are left, and a process with no step left to
make has committed the finalized tip. -/

namespace BitcoinData

open Lib

section
variable [Externals] {config : IndexerConfig} {chain : List BlockScanInput}

/-! ## The steps that are left -/

omit [Externals] in
theorem blockSteps_append {emitStartHeight finalizedTip n k : ℕ}
    (hle : emitStartHeight + n + k ≤ finalizedTip + 1) :
    blockSteps emitStartHeight chain finalizedTip (emitStartHeight + n) =
      (((chain.drop n).take k).map fun block => 6 + block.inputOutpoints.length).sum +
        blockSteps emitStartHeight chain finalizedTip (emitStartHeight + n + k) := by
  have hpart : (chain.drop n).take k =
      ((chain.take (finalizedTip + 1 - emitStartHeight)).drop n).take k := by
    rw [List.drop_take, List.take_take, Nat.min_eq_left (by omega)]
  rw [blockSteps, blockSteps, hpart, ← List.sum_append, ← List.map_append,
    show emitStartHeight + n - emitStartHeight = n by omega,
    show emitStartHeight + n + k - emitStartHeight = n + k by omega, ← List.drop_drop,
    List.take_append_drop]

theorem applyBlockWithStats_spent_length {state state' : P2trIndexerState} {block : BlockScanInput}
    {a : AppliedBlock} (h : state.applyBlockWithStats block = .ok (state', a)) :
    a.spentUtxos.length ≤ block.inputOutpoints.length := by
  unfold P2trIndexerState.applyBlockWithStats at h
  simp only [bind_eq_ok, pure_eq_ok, Except.ok.injEq, Prod.mk.injEq] at h
  obtain ⟨txCount, -, acc, hfold, _, -, _, -, -, rfl⟩ := h
  refine foldlM_prefix_invariant (fun (pre : List TxScanInput) (acc : ApplyAcc) =>
    acc.spentUtxos.length ≤ (pre.flatMap fun tx => tx.inputs.map (·.previousOutput)).length)
    block.txs [] _ acc ?_ le_rfl hfold
  intro tx _ pre acc acc' hle h
  unfold applyTx at h
  simp only [bind_eq_ok] at h
  obtain ⟨acc₁, h₁, acc₂, h₂, h₃⟩ := h
  have hinputs : acc₁.spentUtxos.length ≤ acc.spentUtxos.length + tx.inputs.length := by
    refine foldlM_prefix_invariant (fun (pre : List TxInputScan) (a : ApplyAcc) =>
      a.spentUtxos.length ≤ acc.spentUtxos.length + pre.length) tx.inputs [] _ acc₁ ?_ ?_ h₁
    · intro input _ pre a a' hle hstep
      have := (applyInput_frame hstep).2
      rw [List.length_append, List.length_singleton]
      omega
    · exact Nat.le_refl _
  have houtputs : acc₂.spentUtxos = acc₁.spentUtxos := by
    refine foldlM_invariant (P := fun a : ApplyAcc => a.spentUtxos = acc₁.spentUtxos) ?_ rfl h₂
    intro output _ a a' ha hstep
    rw [(applyOutput_frame hstep).2, ha]
  obtain ⟨stats, tweaks, bitmap, rfl, -⟩ := finishTx_frame h₃
  simp only [houtputs, List.flatMap_append, List.flatMap_singleton, List.length_append,
    List.length_map] at *
  omega

theorem allSpends_length_le {state state' : P2trIndexerState} {blocks : List BlockScanInput}
    {applied : List AppliedBlock} (h : state.applyBlocks blocks = .ok (state', applied)) :
    6 * blocks.length + (allSpends applied).length ≤
      (blocks.map fun block => 6 + block.inputOutpoints.length).sum := by
  induction blocks generalizing state applied with
  | nil =>
    rw [P2trIndexerState.applyBlocks, Except.ok.injEq, Prod.mk.injEq] at h
    rw [← h.2]
    exact le_rfl
  | cons block blocks ih =>
    obtain ⟨state₁, first, rest, h₁, h₂, rfl⟩ := applyBlocks_cons_eq_ok.mp h
    have hfirst := applyBlockWithStats_spent_length h₁
    have hrest := ih h₂
    rw [show allSpends (first :: rest) = allSpends [first] ++ allSpends rest by
      rw [← allSpends_append, List.singleton_append], List.length_append, List.map_cons,
      List.sum_cons, List.length_cons]
    have hone : (allSpends [first]).length = first.spentUtxos.length := by
      rw [allSpends, List.flatMap_singleton, List.length_map]
    omega

/-- A window takes at most the steps of its blocks. -/
theorem WindowOn.stepsLeft_lt {disk : Disk} {n : ℕ} {S t start : P2trIndexerState} {window : Window}
    {done : List (BlockScanInput × Pending)} {finalizedTip : ℕ} (hw : WindowOn chain n S window t)
    (hspec : WindowSpec disk.indexStore start (config.emitStartHeight + n) window done)
    (hlast : window.lastHeight ≤ finalizedTip) :
    window.pending.length + window.spends.length + 4 +
        blockSteps config.emitStartHeight chain finalizedTip (window.lastHeight + 1) <
      blockSteps config.emitStartHeight chain finalizedTip (config.emitStartHeight + n) := by
  obtain ⟨hne, hend⟩ := hspec.lastHeight_eq
  have hlen : window.pending.length = done.length := by rw [hspec.pending, List.length_map]
  have hpos := List.length_pos_iff.mpr hne
  have hspends := allSpends_length_le hw.blocks
  have hblocks : ((chain.drop n).take window.pending.length).length = window.pending.length := by
    have := hw.le
    rw [List.length_take, List.length_drop]
    omega
  rw [← window.spends_eq, hblocks] at hspends
  rw [hend, ← hlen, blockSteps_append (k := window.pending.length) (by omega)]
  omega

/-! ## Undisturbed steps -/

/-- Every group of marks that is left has a mark. -/
def GroupsNonempty (sys : System) : Prop :=
  ∀ process, sys.process = some process → ∀ window rest, process.stage = .marking window rest →
    ∀ group ∈ rest, group.2 ≠ []

omit [Externals] in
theorem groupSpends_ne_nil {spends : List (ℕ × UInt32 × ℕ)}
    {groups : List (ℕ × List (UInt32 × UInt32))} (h : FileArchive.groupSpends spends = .ok groups) :
    ∀ group ∈ groups, group.2 ≠ [] := by
  refine foldlM_invariant (P := fun groups : List (ℕ × List (UInt32 × UInt32)) =>
    ∀ group ∈ groups, group.2 ≠ []) ?_ (by simp) h
  intro spend _ groups groups' hne hstep
  simp only [bind_eq_ok, pure_eq_ok, Except.ok.injEq] at hstep
  obtain ⟨s, -, rfl⟩ := hstep
  exact pushSpend_ne_nil hne

theorem GroupsNonempty.step {sys sys' : System} {action : Action} (h : GroupsNonempty sys)
    (hstep : Steps config sys action sys') : GroupsNonempty sys' := by
  cases hstep with
  | start hs =>
    obtain ⟨network, startHeight, rfl, rfl⟩ := startProcess_eq_ok hs
    rintro process ⟨⟩ window rest hstage
    cases hstage
  | group hg =>
    rintro process ⟨⟩ window rest hstage
    obtain ⟨-, rfl⟩ := Stage.marking.inj hstage
    exact groupSpends_ne_nil hg
  | mark =>
    rintro process ⟨⟩ window rest hstage
    obtain ⟨-, rfl⟩ := Stage.marking.inj hstage
    exact fun group hgroup => h _ rfl _ _ rfl group (List.mem_cons_of_mem _ hgroup)
  | stop =>
    rintro process hp
    cases hp
  | _ =>
    rintro process ⟨⟩ window rest hstage
    cases hstage

/-- What holds in every state of a run over the chain. -/
structure Steady (config : IndexerConfig) (chain : List BlockScanInput) (sys : System) : Prop where
  inv : ChainInv config chain sys
  metadata : MetaOk config sys.disk.indexStore
  groups : GroupsNonempty sys

theorem Steady.step {sys sys' : System} {action : Action}
    (hv : ValidChain config.emitStartHeight chain) (hs : Steady config chain sys)
    (hhonest : ∀ tuning best fetch, action = .catchUp tuning best fetch → HonestFetch chain fetch)
    (h : Steps config sys action sys') : Steady config chain sys' :=
  ⟨hs.inv.step hv hhonest h, hs.metadata.step h, hs.groups.step h⟩

theorem steady_of_run (hv : ValidChain config.emitStartHeight chain) {acts : List Action}
    (hon : OnChain chain acts) {sys : System} (h : run (step config) System.init acts = some sys) :
    Steady config chain sys := by
  refine run_invariant (fun a ha s s' hs hstep => ?_)
    ⟨⟨Base.init config, _, _, _, Follows.init config chain, fun process h => by cases h⟩,
      ⟨fun v hv => (by cases hv), fun v hv => (by cases hv)⟩, fun process h => by cases h⟩ h
  refine hs.step hv (fun tuning best fetch heq => ?_) (steps_of_step hstep)
  subst heq
  exact hon tuning best fetch ha

omit [Externals] in
theorem stepsLeft_none (finalizedTip : ℕ) (disk : Disk) :
    stepsLeft config chain finalizedTip ⟨disk, none⟩ =
      1 + blockSteps config.emitStartHeight chain finalizedTip (nextHeight config disk.indexStore) := by
  unfold stepsLeft nextHeight
  cases disk.indexStore.tip with
  | none => rfl
  | some tip => rfl

/-- An undisturbed effect succeeds and uses up a step. -/
theorem Steady.effect (hc : IndexableChain config.emitStartHeight chain) {sys sys' : System}
    (hs : Steady config chain sys) (h : BitcoinData.step config sys .effect = some sys')
    (finalizedTip : ℕ) : (∃ process, sys'.process = some process) ∧
      stepsLeft config chain finalizedTip sys' < stepsLeft config chain finalizedTip sys := by
  obtain ⟨disk, process⟩ := sys
  cases process with
  | none => cases h
  | some process =>
    obtain ⟨n, S, A, hf, hfollow⟩ := hs.inv.follows
    have hstage := hfollow process rfl
    obtain ⟨state, next, stage⟩ := process
    cases stage with
    | idle => cases h
    | writing window rest =>
      cases rest with
      | cons p rest =>
        obtain rfl := Option.some.inj h
        refine ⟨⟨_, rfl⟩, ?_⟩
        simp only [stepsLeft, List.length_cons]
        omega
      | nil =>
        obtain ⟨hflight, -⟩ := hs.inv.base.inFlight rfl
        obtain ⟨groups, hgroups, -⟩ := groupSpends_of_heights
          fun spend hspend => (hflight.spends_height hspend).2.2
        have hlen := groupSpends_length_le hgroups
        simp only [BitcoinData.step, performEffect, hgroups, ok_bind, pure_eq_ok] at h
        obtain rfl := Option.some.inj h
        refine ⟨⟨_, rfl⟩, ?_⟩
        simp only [stepsLeft, List.length_nil]
        omega
    | marking window rest =>
      obtain ⟨hflight, hwritten⟩ := hs.inv.base.marking rfl
      cases rest with
      | cons group rest =>
        obtain ⟨height, marks⟩ := group
        obtain ⟨⟨t, hw⟩, -, hgroups, -⟩ : _ ∧ _ ∧ _ ∧ _ := hstage
        have htarget : ∀ m ∈ marks, ∃ block, disk.archive.Stored height block ∧
            m.1.toNat < block.outputs.length := fun m hm =>
          hf.spend_target hc.valid hflight hwritten hw (hgroups height m ⟨marks, List.mem_cons_self, hm⟩)
        obtain ⟨m, hm⟩ := List.exists_mem_of_ne_nil _
          (hs.groups _ rfl _ _ rfl (height, marks) List.mem_cons_self)
        obtain ⟨block, hstored, -⟩ := htarget m hm
        obtain ⟨archive, updated, hmark⟩ := markCreationBlock_ok hstored fun m' hm' => by
          obtain ⟨block', hstored', hlt⟩ := htarget m' hm'
          rwa [hstored.unique hstored']
        simp only [BitcoinData.step, performEffect, hmark, ok_bind, pure_eq_ok] at h
        obtain rfl := Option.some.inj h
        refine ⟨⟨_, rfl⟩, ?_⟩
        simp only [stepsLeft, List.length_cons]
        omega
      | nil =>
        obtain rfl := Option.some.inj h
        refine ⟨⟨_, rfl⟩, ?_⟩
        simp only [stepsLeft, List.length_nil]
        omega
    | truncating window =>
      obtain rfl := Option.some.inj h
      refine ⟨⟨_, rfl⟩, ?_⟩
      simp only [stepsLeft]
      omega
    | finishing window =>
      have hsettled : Settled _ _ _ := hs.inv.base.stage _ rfl
      have hnext : next = window.lastHeight + 1 := hsettled.next
      obtain rfl := Option.some.inj h
      refine ⟨⟨_, rfl⟩, ?_⟩
      simp only [stepsLeft, hnext]
      omega

theorem Steady.undisturbed (hc : IndexableChain config.emitStartHeight chain) {sys sys' : System}
    {action : Action} {best : ℕ} (hs : Steady config chain sys)
    (hbest : best < config.emitStartHeight + chain.length)
    (ha : Undisturbed config chain best action) (h : BitcoinData.step config sys action = some sys') :
    (∃ process, sys'.process = some process) ∧
      stepsLeft config chain (best - config.finalityDepth) sys' <
        stepsLeft config chain (best - config.finalityDepth) sys := by
  cases action with
  | effect => exact hs.effect hc h _
  | crash => exact absurd ha id
  | start =>
    obtain ⟨disk, process⟩ := sys
    cases process with
    | some process => cases h
    | none =>
      obtain ⟨disk', process, hstart⟩ := hs.metadata.startProcess
      simp only [BitcoinData.step, hstart] at h
      obtain rfl := Option.some.inj h
      obtain ⟨network, startHeight, rfl, rfl⟩ := startProcess_eq_ok hstart
      refine ⟨⟨_, rfl⟩, ?_⟩
      rw [stepsLeft_none]
      simp only [stepsLeft]
      omega
  | catchUp tuning best' fetch =>
    obtain ⟨rfl, hserves⟩ := ha
    obtain ⟨disk, process⟩ := sys
    cases process with
    | none => cases h
    | some process =>
      obtain ⟨n, S, A, hf, hfollow⟩ := hs.inv.follows
      have htracks := hfollow process rfl
      obtain ⟨state, next, stage⟩ := process
      cases stage with
      | idle =>
        simp only [FollowStage] at htracks
        have hnext : next = config.emitStartHeight + n := by
          rw [← hf.next]
          exact hs.inv.base.stage _ rfl
        rw [hnext] at h
        simp only [BitcoinData.step] at h
        split_ifs at h with hle
        obtain ⟨window, hwindow, hlast⟩ := catchUpWindow_ok hc hf hs.inv.base.files htracks hserves
          tuning hle (by omega)
        simp only [hwindow] at h
        obtain rfl := Option.some.inj h
        refine ⟨⟨_, rfl⟩, ?_⟩
        obtain ⟨done, hspec, hfetched⟩ := catchUpWindow_spec (Nat.le_add_right _ n) hwindow
        have hspec' := hspec
        rw [← hf.next] at hspec'
        obtain ⟨t, hw⟩ := hspec'.windowOn hc.valid hf htracks fun d hd => by
          obtain ⟨start, count, chunk, hok, hmem⟩ := hfetched d hd
          exact (hserves.honest start count chunk hok).subset hmem
        simp only [stepsLeft, hnext]
        exact hw.stepsLeft_lt hspec hlast
      | writing window rest => cases h
      | marking window rest => cases h
      | truncating window => cases h
      | finishing window => cases h

/-! ## Undisturbed runs -/

/-- The source that holds exactly the chain. -/
def chainSource (emitStartHeight : ℕ) (chain : List BlockScanInput) : FetchChunk := fun start count =>
  if emitStartHeight ≤ start ∧ start + count ≤ emitStartHeight + chain.length then
    .ok { blocks := (chain.drop (start - emitStartHeight)).take count, rawBytes := 0 }
  else .error "block not found"

omit [Externals] in
theorem chainSource_serves (emitStartHeight : ℕ) (chain : List BlockScanInput) :
    Serves emitStartHeight chain (chainSource emitStartHeight chain) where
  honest := by
    intro start count chunk h
    unfold chainSource at h
    split_ifs at h
    obtain rfl := Except.ok.inj h
    exact (List.take_prefix _ _).isInfix.trans (List.drop_suffix _ _).isInfix
  answers := fun start count hlo _ hhi => ⟨0, if_pos ⟨hlo, hhi⟩⟩

/-- A state has caught up, or an undisturbed step can be made. -/
theorem Steady.caughtUp_or_step {sys : System} (hs : Steady config chain sys) (best : ℕ) :
    CaughtUp config (best - config.finalityDepth) sys ∨
      ∃ action, Undisturbed config chain best action ∧
        (BitcoinData.step config sys action).isSome := by
  obtain ⟨disk, process⟩ := sys
  cases process with
  | none =>
    obtain ⟨disk', process, hstart⟩ := hs.metadata.startProcess
    exact Or.inr ⟨.start, trivial, by simp only [BitcoinData.step, hstart, Option.isSome_some]⟩
  | some process =>
    have heffect : ∀ r, performEffect config disk process = some r →
        (BitcoinData.step config ⟨disk, some process⟩ .effect).isSome := by
      intro r hr
      cases r with
      | error e => simp only [BitcoinData.step, hr, Option.isSome_some]
      | ok r => simp only [BitcoinData.step, hr, Option.isSome_some]
    have hbase := hs.inv.base.stage process rfl
    obtain ⟨state, next, stage⟩ := process
    cases stage with
    | idle =>
      by_cases hle : next ≤ best - config.finalityDepth
      · refine Or.inr ⟨.catchUp ⟨1, 1, 0, Nat.one_pos, Nat.one_pos⟩ best
          (chainSource config.emitStartHeight chain), ⟨rfl, chainSource_serves _ _⟩, ?_⟩
        simp only [BitcoinData.step, if_pos hle]
        split <;> rfl
      · refine Or.inl ⟨_, rfl, rfl, not_le.mp hle, fun hemit => ?_⟩
        simp only [StageInv, nextHeight] at hbase
        cases htip : disk.indexStore.tip with
        | none =>
          rw [htip] at hbase
          simp only at hbase
          omega
        | some tip =>
          rw [htip] at hbase
          simp only at hbase
          exact ⟨tip, rfl, by omega⟩
    | writing window rest =>
      cases rest with
      | nil => exact Or.inr ⟨.effect, trivial, heffect _ rfl⟩
      | cons p rest => exact Or.inr ⟨.effect, trivial, heffect _ rfl⟩
    | marking window rest =>
      cases rest with
      | nil => exact Or.inr ⟨.effect, trivial, heffect _ rfl⟩
      | cons group rest => exact Or.inr ⟨.effect, trivial, heffect _ rfl⟩
    | truncating window => exact Or.inr ⟨.effect, trivial, heffect _ rfl⟩
    | finishing window => exact Or.inr ⟨.effect, trivial, heffect _ rfl⟩

/-- From any state of a run over an indexable chain, a run of undisturbed steps leaves a
running process, is no longer than the steps that were left, and can go on until the
finalized tip is committed. -/
theorem catches_up (config : IndexerConfig) (chain : List BlockScanInput)
    (hc : IndexableChain config.emitStartHeight chain) (acts : List Action) (hon : OnChain chain acts)
    (sys : System) (hrun : run (step config) System.init acts = some sys) (best : ℕ)
    (hbest : best < config.emitStartHeight + chain.length) (more : List Action)
    (hmore : ∀ action ∈ more, Undisturbed config chain best action) (sys' : System)
    (hrun' : run (step config) sys more = some sys') :
    (more ≠ [] → ∃ process, sys'.process = some process) ∧
      more.length + stepsLeft config chain (best - config.finalityDepth) sys' ≤
        stepsLeft config chain (best - config.finalityDepth) sys ∧
      (CaughtUp config (best - config.finalityDepth) sys' ∨
        ∃ action, Undisturbed config chain best action ∧ (step config sys' action).isSome) := by
  have hsteady := steady_of_run hc.valid hon hrun
  have hstep : ∀ action ∈ more, ∀ s s', Steady config chain s → step config s action = some s' →
      Steady config chain s' ∧ (∃ process, s'.process = some process) ∧
        stepsLeft config chain (best - config.finalityDepth) s' <
          stepsLeft config chain (best - config.finalityDepth) s := by
    intro action ha s s' hs h
    have hundisturbed := hmore action ha
    refine ⟨hs.step hc.valid (fun tuning best' fetch heq => ?_) (steps_of_step h),
      hs.undisturbed hc hbest hundisturbed h⟩
    subst heq
    exact hundisturbed.2.honest
  obtain ⟨hs', hlen⟩ := run_measure (fun action ha s s' hs h =>
    ⟨(hstep action ha s s' hs h).1, (hstep action ha s s' hs h).2.2⟩) hsteady hrun'
  refine ⟨fun hne => ?_, hlen, hs'.caughtUp_or_step best⟩
  cases more with
  | nil => exact absurd rfl hne
  | cons action rest =>
    obtain ⟨s₁, h₁, h₂⟩ := run_cons_eq_some.mp hrun'
    obtain ⟨hs₁, hp₁, -⟩ := hstep action List.mem_cons_self sys s₁ hsteady h₁
    refine (run_invariant (I := fun s => Steady config chain s ∧ ∃ process, s.process = some process)
      (fun b hb s s' hs h => ?_) ⟨hs₁, hp₁⟩ h₂).2
    obtain ⟨hs', hp', -⟩ := hstep b (List.mem_cons_of_mem _ hb) s s' hs.1 h
    exact ⟨hs', hp'⟩

end

/-! A crash between the rewrite of a committed block and the commit, and the undisturbed run
that follows it. -/

section
attribute [local instance] sampleExternals

theorem sampleBlock_scanned {height : ℕ} {hash previous txid : UInt8} {spent : List OutPointKey}
    {keys : List UInt8} (hspent : spent.length ≤ U32_MAX) (hkeys : keys.length ≤ U16_MAX) :
    ScannedBlock (sampleBlock height hash previous [sampleTx txid 0 spent keys]) where
  txCount := show 1 ≤ U16_MAX by decide
  positions := by
    intro k tx hk
    cases k with
    | zero =>
      obtain rfl := Option.some.inj hk
      rfl
    | succ k => cases hk
  keys := by
    intro tx htx output hout _
    rw [List.mem_singleton.mp htx] at hout
    obtain ⟨p, -, rfl⟩ := List.mem_map.mp hout
    exact ⟨_, rfl⟩
  slots := by
    refine le_trans ?_ hkeys
    simp only [BlockScanInput.p2trSlots, sampleBlock, List.flatMap_singleton, TxScanInput.p2trSlots,
      TxScanInput.slotsOf, List.length_map]
    refine (List.length_filter_le _ _).trans ?_
    simp [sampleTx]
  inputs := by
    simpa [BlockScanInput.inputOutpoints, sampleBlock, sampleTx] using hspent
  rawBytes := by
    change (400 : UInt32) ≠ 0
    decide

theorem sampleChain_indexable : IndexableChain sampleConfig.emitStartHeight sampleChain where
  valid := sampleChain_valid
  linked := by
    intro k a b ha hb
    have hlinks : ∀ k < 2, (sampleChain[k + 1]?).map (·.previousBlockHash) =
        (sampleChain[k]?).map (·.blockHash) := by decide
    have hlt : k < 2 := by
      have := (List.getElem?_eq_some_iff.mp hb).1
      change k + 1 < 3 at this
      omega
    have h := hlinks k hlt
    rw [ha, hb] at h
    exact Option.some.inj h
  heights := by decide
  blocks := by
    rintro block (_ | ⟨_, _ | ⟨_, _ | ⟨_, h⟩⟩⟩)
    · exact sampleBlock_scanned (by decide) (by decide)
    · exact sampleBlock_scanned (by decide) (by decide)
    · exact sampleBlock_scanned (by decide) (by decide)
    · cases h

def servedCatchUp : Action := .catchUp sampleTuning 102 (chainSource 100 sampleChain)

/-- A process that stops between the rewrite of a creation block and its commit. -/
def abandonedActions : List Action := [.start, servedCatchUp] ++ List.replicate 4 .effect ++ [.crash]

def resumedActions : List Action := [.start, servedCatchUp] ++ List.replicate 7 .effect

theorem catches_up_sample : ∃ sys sys',
    run (step sampleConfig) System.init abandonedActions = some sys ∧
      run (step sampleConfig) sys resumedActions = some sys' ∧
      (∃ process, sys'.process = some process) ∧
      9 + stepsLeft sampleConfig sampleChain 101 sys' ≤
        stepsLeft sampleConfig sampleChain 101 sys := by
  have hrun : ((run (step sampleConfig) System.init abandonedActions).bind fun sys =>
      run (step sampleConfig) sys resumedActions).isSome = true := by decide +kernel
  obtain ⟨sys', h⟩ := Option.isSome_iff_exists.mp hrun
  obtain ⟨sys, h₁, h₂⟩ := Option.bind_eq_some_iff.mp h
  have hon : OnChain sampleChain abandonedActions := by
    intro tuning best fetch hmem
    simp only [abandonedActions, servedCatchUp, List.mem_append, List.mem_cons, List.mem_replicate,
      reduceCtorEq, Action.catchUp.injEq, List.not_mem_nil, and_false, or_false, false_or] at hmem
    rw [hmem.2.2]
    exact (chainSource_serves 100 sampleChain).honest
  have hundisturbed : ∀ action ∈ resumedActions, Undisturbed sampleConfig sampleChain 102 action := by
    intro action hmem
    simp only [resumedActions, List.mem_append, List.mem_cons, List.mem_replicate, List.not_mem_nil,
      or_false] at hmem
    rcases hmem with (rfl | rfl) | ⟨-, rfl⟩
    · trivial
    · exact ⟨rfl, chainSource_serves 100 sampleChain⟩
    · trivial
  obtain ⟨halive, hlen, -⟩ := catches_up sampleConfig sampleChain sampleChain_indexable
    abandonedActions hon sys h₁ 102 (by decide) resumedActions hundisturbed sys' h₂
  exact ⟨sys, sys', h₁, h₂, halive (List.cons_ne_nil _ _), hlen⟩

end

end BitcoinData
