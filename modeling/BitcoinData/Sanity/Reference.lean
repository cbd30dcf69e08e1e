import BitcoinData.Sanity.Slots
import BitcoinData.Spec.Chain

/-! Sequential runs: they split at any block, the whole run is one ledger, and over an
empty map every spend takes an output that the run created, each output at most once. -/

namespace BitcoinData

open Lib

theorem spentOutpoints_append (xs ys : List BlockScanInput) :
    spentOutpoints (xs ++ ys) = spentOutpoints xs ++ spentOutpoints ys :=
  List.flatMap_append

theorem createdOutpoints_append (xs ys : List BlockScanInput) :
    createdOutpoints (xs ++ ys) = createdOutpoints xs ++ createdOutpoints ys :=
  List.flatMap_append

theorem chainEvents_append (xs ys : List BlockScanInput) :
    chainEvents (xs ++ ys) = chainEvents xs ++ chainEvents ys :=
  List.flatMap_append

theorem allSpends_append (xs ys : List AppliedBlock) :
    allSpends (xs ++ ys) = allSpends xs ++ allSpends ys :=
  List.flatMap_append

theorem keptSlots_sublist (slots : List P2trSlot) :
    ((keptSlots slots).map Prod.fst).Sublist slots := by
  have h := (List.filter_sublist (p := fun p : P2trSlot × ℕ => !p.1.skipped)
    (l := slots.zipIdx)).map Prod.fst
  rwa [List.zipIdx_map_fst] at h

section
variable [Externals] {state state' : P2trIndexerState} {blocks : List BlockScanInput}
  {applied : List AppliedBlock}

theorem applyBlocks_append_eq_ok {xs ys : List BlockScanInput} :
    state.applyBlocks (xs ++ ys) = .ok (state', applied) ↔
      ∃ state₁ as bs, state.applyBlocks xs = .ok (state₁, as) ∧
        state₁.applyBlocks ys = .ok (state', bs) ∧ applied = as ++ bs := by
  induction xs generalizing state applied with
  | nil =>
    constructor
    · intro h
      exact ⟨state, [], applied, rfl, h, rfl⟩
    · rintro ⟨state₁, as, bs, h₁, h₂, rfl⟩
      rw [P2trIndexerState.applyBlocks, Except.ok.injEq, Prod.mk.injEq] at h₁
      rw [← h₁.2, h₁.1]
      exact h₂
  | cons x xs ih =>
    constructor
    · intro h
      obtain ⟨state₁, first, rest, h₁, h₂, rfl⟩ := applyBlocks_cons_eq_ok.mp h
      obtain ⟨state₂, as, bs, h₃, h₄, rfl⟩ := ih.mp h₂
      exact ⟨state₂, first :: as, bs, applyBlocks_cons_eq_ok.mpr ⟨state₁, first, as, h₁, h₃, rfl⟩,
        h₄, rfl⟩
    · rintro ⟨state₂, as, bs, h, h₄, rfl⟩
      obtain ⟨state₁, first, rest, h₁, h₃, rfl⟩ := applyBlocks_cons_eq_ok.mp h
      exact applyBlocks_cons_eq_ok.mpr ⟨state₁, first, rest ++ bs, h₁,
        ih.mpr ⟨state₂, rest, bs, h₃, h₄, rfl⟩, rfl⟩

theorem applyBlocks_length (h : state.applyBlocks blocks = .ok (state', applied)) :
    applied.length = blocks.length := by
  induction blocks generalizing state applied with
  | nil =>
    rw [P2trIndexerState.applyBlocks, Except.ok.injEq, Prod.mk.injEq] at h
    rw [← h.2]
    rfl
  | cons block blocks ih =>
    obtain ⟨state₁, first, rest, -, h₂, rfl⟩ := applyBlocks_cons_eq_ok.mp h
    rw [List.length_cons, List.length_cons, ih h₂]

theorem applyBlocks_get (h : state.applyBlocks blocks = .ok (state', applied)) {k : ℕ}
    {block : BlockScanInput} {a : AppliedBlock} (hb : blocks[k]? = some block)
    (ha : applied[k]? = some a) : ∃ s s', AppliedSpec s block s' a := by
  induction blocks generalizing state applied k with
  | nil => cases hb
  | cons block₀ blocks ih =>
    obtain ⟨state₁, first, rest, h₁, h₂, rfl⟩ := applyBlocks_cons_eq_ok.mp h
    cases k with
    | succ k => exact ih h₂ hb ha
    | zero =>
      rw [List.getElem?_cons_zero, Option.some.injEq] at hb ha
      subst hb ha
      exact ⟨state, state₁, applyBlockWithStats_spec h₁⟩

theorem applyBlocks_mem (h : state.applyBlocks blocks = .ok (state', applied)) {a : AppliedBlock}
    (ha : a ∈ applied) : ∃ block ∈ blocks, ∃ s s', AppliedSpec s block s' a := by
  obtain ⟨k, hk⟩ := List.mem_iff_getElem?.mp ha
  obtain ⟨hlt, -⟩ := List.getElem?_eq_some_iff.mp hk
  rw [applyBlocks_length h] at hlt
  exact ⟨blocks[k], List.getElem_mem hlt, applyBlocks_get h (List.getElem?_eq_getElem hlt) hk⟩

omit [Externals] in
theorem applyTx_seen {block : BlockScanInput} {firstUid : UInt64} {txCount : UInt16}
    {tx : TxScanInput} {acc acc' : ApplyAcc} (h : applyTx block firstUid txCount acc tx = .ok acc')
    (hacc : acc.self.seenP2trKeys = none) : acc'.self.seenP2trKeys = none := by
  unfold applyTx at h
  simp only [bind_eq_ok] at h
  obtain ⟨acc₁, h₁, acc₂, h₂, h₃⟩ := h
  have hacc₁ : acc₁.self.seenP2trKeys = none := by
    refine foldlM_invariant (P := fun acc : ApplyAcc => acc.self.seenP2trKeys = none) ?_ ?_ h₁
    · intro input _ a a' ha hstep
      unfold applyInput at hstep
      split at hstep
      · cases hstep
        exact ha
      · simp only [bind_eq_ok, pure_eq_ok, Except.ok.injEq] at hstep
        obtain ⟨_, -, rfl⟩ := hstep
        exact ha
    · exact hacc
  have hacc₂ : acc₂.self.seenP2trKeys = none := by
    refine foldlM_invariant (P := fun acc : ApplyAcc => acc.self.seenP2trKeys = none) ?_ hacc₁ h₂
    intro output _ a a' ha hstep
    unfold applyOutput at hstep
    split at hstep
    · cases hstep
      exact ha
    · simp only [bind_eq_ok] at hstep
      obtain ⟨slot, -, key, -, hstep⟩ := hstep
      have htake : (takeP2trSlot output key { a with
          stats := { a.stats with outputCountTotal := a.stats.outputCountTotal + 1 } }).1.self.seenP2trKeys
          = none := by
        change a.self.seenP2trKeys.map (insert key) = none
        rw [ha]
        rfl
      split at hstep
      · rw [pure_eq_ok, Except.ok.injEq] at hstep
        rw [← hstep]
        exact htake
      · unfold storeOutput at hstep
        simp only [bind_eq_ok, pure_eq_ok, Except.ok.injEq] at hstep
        obtain ⟨_, -, _, -, _, -, rfl⟩ := hstep
        exact htake
  obtain ⟨stats, tweaks, bitmap, rfl, -⟩ := finishTx_frame h₃
  exact hacc₂

theorem applyBlocks_seen (h : state.applyBlocks blocks = .ok (state', applied))
    (hnone : state.seenP2trKeys = none) : state'.seenP2trKeys = none := by
  induction blocks generalizing state applied with
  | nil =>
    rw [P2trIndexerState.applyBlocks, Except.ok.injEq, Prod.mk.injEq] at h
    rw [← h.1]
    exact hnone
  | cons block blocks ih =>
    obtain ⟨state₁, first, rest, h₁, h₂, rfl⟩ := applyBlocks_cons_eq_ok.mp h
    apply ih h₂
    unfold P2trIndexerState.applyBlockWithStats at h₁
    simp only [bind_eq_ok, pure_eq_ok, Except.ok.injEq, Prod.mk.injEq] at h₁
    obtain ⟨txCount, -, acc, hfold, nextUid, -, lightBlock, -, rfl, -⟩ := h₁
    exact foldlM_invariant (P := fun acc : ApplyAcc => acc.self.seenP2trKeys = none)
      (fun tx _ a a' ha hstep => applyTx_seen hstep ha) hnone hfold

/-! ## The ledger of a run -/

def createdPairs (applied : List AppliedBlock) : List (OutPointKey × SpendLookup) :=
  applied.flatMap fun a => a.createdUtxos.map createdPair

def spentPairs (applied : List AppliedBlock) : List (OutPointKey × SpendLookup) :=
  applied.flatMap fun a => a.spentUtxos.map spentPair

theorem applyBlocks_ledger (h : state.applyBlocks blocks = .ok (state', applied)) :
    ∃ log, Exec state.outpointToSpend log state'.outpointToSpend ∧
      puts log = createdPairs applied ∧ takes log = spentPairs applied := by
  induction blocks generalizing state applied with
  | nil =>
    rw [P2trIndexerState.applyBlocks, Except.ok.injEq, Prod.mk.injEq] at h
    rw [← h.1, ← h.2]
    exact ⟨[], rfl, rfl, rfl⟩
  | cons block blocks ih =>
    obtain ⟨state₁, first, rest, h₁, h₂, rfl⟩ := applyBlocks_cons_eq_ok.mp h
    obtain ⟨log₁, hexec₁, hputs₁, htakes₁⟩ := (applyBlockWithStats_spec h₁).ledger
    obtain ⟨log₂, hexec₂, hputs₂, htakes₂⟩ := ih h₂
    refine ⟨log₁ ++ log₂, exec_append.mpr ⟨_, hexec₁, hexec₂⟩, ?_, ?_⟩
    · rw [puts_append, hputs₁, hputs₂]
      rfl
    · rw [takes_append, htakes₁, htakes₂]
      rfl

theorem AppliedSpec.created_sublist {block : BlockScanInput} {a : AppliedBlock}
    (hs : AppliedSpec state block state' a) :
    (a.createdUtxos.map fun c => c.entry.outpoint).Sublist (createdOutpoints [block]) := by
  have hcreated := congrArg (List.map Prod.fst) hs.created
  rw [List.map_map, List.map_map] at hcreated
  have hkept : (a.createdUtxos.map fun c => c.entry.outpoint) =
      ((keptSlots block.p2trSlots).map Prod.fst).map P2trSlot.outpoint := by
    rw [List.map_map]
    exact hcreated
  have hslots : block.p2trSlots.map P2trSlot.outpoint =
      block.txs.flatMap fun tx => (tx.outputs.filter (·.isP2tr)).map fun output =>
        ⟨tx.txid, output.vout⟩ := by
    rw [BlockScanInput.p2trSlots, List.map_flatMap]
    congr 1
    funext tx
    rw [TxScanInput.p2trSlots, TxScanInput.slotsOf, List.map_map]
    rfl
  rw [hkept]
  refine ((keptSlots_sublist block.p2trSlots).map _).trans ?_
  rw [hslots, createdOutpoints, List.flatMap_singleton]
  induction block.txs with
  | nil => exact List.Sublist.refl _
  | cons tx txs ih =>
    rw [List.flatMap_cons, List.flatMap_cons]
    exact (List.filter_sublist.map _).append ih

theorem created_outpoints_sublist (h : state.applyBlocks blocks = .ok (state', applied)) :
    ((createdPairs applied).map Prod.fst).Sublist (createdOutpoints blocks) := by
  induction blocks generalizing state applied with
  | nil =>
    rw [P2trIndexerState.applyBlocks, Except.ok.injEq, Prod.mk.injEq] at h
    rw [← h.2]
    exact List.Sublist.refl _
  | cons block blocks ih =>
    obtain ⟨state₁, first, rest, h₁, h₂, rfl⟩ := applyBlocks_cons_eq_ok.mp h
    have hfirst := (applyBlockWithStats_spec h₁).created_sublist
    rw [show createdPairs (first :: rest) = first.createdUtxos.map createdPair ++ createdPairs rest
      from rfl, List.map_append, show block :: blocks = [block] ++ blocks from rfl,
      createdOutpoints_append, List.map_map]
    exact hfirst.append (ih h₂)

theorem spentPairs_inputs (h : state.applyBlocks blocks = .ok (state', applied))
    {p : OutPointKey × SpendLookup} (hp : p ∈ spentPairs applied) : p.1 ∈ spentOutpoints blocks := by
  obtain ⟨a, ha, hmem⟩ := List.mem_flatMap.mp hp
  obtain ⟨spent, hspent, rfl⟩ := List.mem_map.mp hmem
  obtain ⟨block, hb, s, s', hs⟩ := applyBlocks_mem h ha
  exact List.mem_flatMap.mpr ⟨block, hb, hs.inputs spent hspent⟩

/-- A row survives blocks that neither create nor spend its outpoint. -/
theorem lookup_persist (h : state.applyBlocks blocks = .ok (state', applied)) {o : OutPointKey}
    (hc : o ∉ createdOutpoints blocks) (hs : o ∉ spentOutpoints blocks) :
    state'.outpointToSpend.lookup o = state.outpointToSpend.lookup o := by
  obtain ⟨log, hexec, hputs, htakes⟩ := applyBlocks_ledger h
  apply kept_of_exec hexec
  · rw [hputs]
    exact fun hmem => hc ((created_outpoints_sublist h).subset hmem)
  · rw [htakes]
    rintro hmem
    obtain ⟨p, hp, rfl⟩ := List.mem_map.mp hmem
    exact hs (spentPairs_inputs h hp)

theorem lookup_applyBlocks (h : state.applyBlocks blocks = .ok (state', applied)) {o : OutPointKey}
    {e : SpendLookup} (ho : state'.outpointToSpend.lookup o = some e) :
    state.outpointToSpend.lookup o = some e ∨ o ∈ createdOutpoints blocks := by
  obtain ⟨log, hexec, hputs, -⟩ := applyBlocks_ledger h
  rcases lookup_of_exec hexec ho with h₁ | h₁
  · exact Or.inl h₁
  · rw [hputs] at h₁
    exact Or.inr ((created_outpoints_sublist h).subset (List.mem_map_of_mem h₁))

/-! ## Outputs of a run, by height and index -/

/-- Where the output of a row is stored. -/
def SpendLookup.place (e : SpendLookup) : ℕ × UInt32 := (e.creationHeight, e.outputIndex)

/-- Blocks of distinct heights create no two outputs in one place. -/
theorem places_nodup (h : state.applyBlocks blocks = .ok (state', applied))
    (hheights : (blocks.map (·.height)).Nodup) :
    ((createdPairs applied).map fun p => p.2.place).Nodup := by
  induction blocks generalizing state applied with
  | nil =>
    rw [P2trIndexerState.applyBlocks, Except.ok.injEq, Prod.mk.injEq] at h
    rw [← h.2]
    exact List.nodup_nil
  | cons block blocks ih =>
    obtain ⟨state₁, first, rest, h₁, h₂, rfl⟩ := applyBlocks_cons_eq_ok.mp h
    rw [List.map_cons, List.nodup_cons] at hheights
    have hs := applyBlockWithStats_spec h₁
    rw [show createdPairs (first :: rest) = first.createdUtxos.map createdPair ++ createdPairs rest
      from rfl, List.map_append, List.nodup_append]
    refine ⟨?_, ih h₂ hheights.2, ?_⟩
    · -- inside a block the output indexes are distinct
      have hidx : (first.createdUtxos.map (·.entry.outputIndex.toNat)).Nodup := by
        rw [hs.index]
        exact List.nodup_range
      rw [List.map_map]
      refine List.Nodup.of_map (fun q : ℕ × UInt32 => q.2.toNat) ?_
      rw [List.map_map]
      exact hidx
    · intro q hq q' hq' heq
      obtain ⟨p, hp, rfl⟩ := List.mem_map.mp hq
      obtain ⟨p', hp', rfl⟩ := List.mem_map.mp hq'
      obtain ⟨created, hc, rfl⟩ := List.mem_map.mp hp
      obtain ⟨a, ha, hpa⟩ := List.mem_flatMap.mp hp'
      obtain ⟨created', hc', rfl⟩ := List.mem_map.mp hpa
      obtain ⟨block', hb', s, s', hs'⟩ := applyBlocks_mem h₂ ha
      have hheight : block.height = block'.height := by
        rw [← hs.created_creationHeight hc, ← hs'.created_creationHeight hc']
        exact congrArg Prod.fst heq
      exact hheights.1 (hheight ▸ List.mem_map_of_mem hb')

/-- In a run over an empty map, every spend takes an output of the run, and no output is
taken twice. -/
structure RunSpends (applied : List AppliedBlock) : Prop where
  places : ((createdPairs applied).map fun p => p.2.place).Nodup
  created : ∀ p ∈ spentPairs applied, p ∈ createdPairs applied
  once : (spentPairs applied).Nodup

theorem runSpends_of_empty (h : state.applyBlocks blocks = .ok (state', applied))
    (hempty : state.outpointToSpend = ∅) (hheights : (blocks.map (·.height)).Nodup) :
    RunSpends applied := by
  obtain ⟨log, hexec, hputs, htakes⟩ := applyBlocks_ledger h
  have hplaces := places_nodup h hheights
  have hfresh : ∀ k v, (k, v) ∈ puts log → state.outpointToSpend.lookup k ≠ some v := by
    intro k v _
    rw [hempty, Finmap.lookup_empty]
    simp
  have hgone := taken_is_gone hexec (hputs ▸ hplaces.of_map) hfresh
  refine ⟨hplaces, fun p hp => ?_, htakes ▸ hgone.1⟩
  rw [← htakes] at hp
  rcases source_of_take hexec hp with hl | hl
  · rw [hempty, Finmap.lookup_empty] at hl
    cases hl
  · rwa [hputs] at hl

end

theorem RunSpends.pair_of_place {applied : List AppliedBlock} (hr : RunSpends applied)
    {p q : OutPointKey × SpendLookup} (hp : p ∈ createdPairs applied)
    (hq : q ∈ createdPairs applied) (h : p.2.place = q.2.place) : p = q :=
  List.inj_on_of_nodup_map hr.places hp hq h

theorem RunSpends.spentHeight_unique {applied : List AppliedBlock} (hr : RunSpends applied)
    {height s s' : ℕ} {i : UInt32} (h : (height, i, s) ∈ allSpends applied)
    (h' : (height, i, s') ∈ allSpends applied) : s = s' := by
  have hnd : ((allSpends applied).map fun x => (x.1, x.2.1)).Nodup := by
    have hmap : ((allSpends applied).map fun x => (x.1, x.2.1)) =
        (spentPairs applied).map fun p => p.2.place := by
      rw [allSpends, spentPairs, List.map_flatMap, List.map_flatMap]
      apply List.flatMap_congr
      intro a _
      rw [List.map_map, List.map_map]
      rfl
    rw [hmap]
    refine List.Nodup.map_on (fun p hp q hq heq => ?_) hr.once
    exact hr.pair_of_place (hr.created p hp) (hr.created q hq) heq
  have heq := List.inj_on_of_nodup_map hnd h h' rfl
  exact (Prod.mk.inj (Prod.mk.inj heq).2).2

end BitcoinData
