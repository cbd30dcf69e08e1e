import BitcoinData.Sanity.Reference

/-! Key reuse as the indexer sees it. A state that tracks seen keys flags a stored
output exactly when its key is among the keys it started with or among those of the
slots before it; a state that does not track them flags nothing. -/

namespace BitcoinData

open Lib

/-- Whether a slot is flagged by an indexer that had seen `seen` before the block. -/
def reusedSlot (seen : Option (Finset XOnlyKey)) (slots : List P2trSlot) (p : P2trSlot × ℕ) : Bool :=
  seen.any fun keys => p.1.output.p2trXonlyKey.any fun key =>
    decide (key ∈ keys ∪ (slotKeys (slots.take p.2)).toFinset)

theorem keptSlots_lt {slots : List P2trSlot} {p : P2trSlot × ℕ} (h : p ∈ keptSlots slots) :
    p.2 < slots.length := by
  obtain ⟨i, hi⟩ := List.mem_iff_getElem?.mp h
  obtain ⟨hlt, -⟩ := List.getElem?_eq_some_iff.mp (keptSlots_get hi)
  exact hlt

theorem slotKeys_append (slots slots' : List P2trSlot) :
    slotKeys (slots ++ slots') = slotKeys slots ++ slotKeys slots' :=
  List.filterMap_append

theorem reusedSlot_append (seen : Option (Finset XOnlyKey)) (slots slots' : List P2trSlot) :
    (keptSlots slots).map (reusedSlot seen (slots ++ slots')) =
      (keptSlots slots).map (reusedSlot seen slots) := by
  apply List.map_congr_left
  intro p hp
  rw [reusedSlot, reusedSlot, List.take_append_of_le_length (keptSlots_lt hp).le]

/-! ## One block -/

structure ReuseAcc (seen : Option (Finset XOnlyKey)) (slots : List P2trSlot) (acc : ApplyAcc) :
    Prop where
  keys : acc.self.seenP2trKeys = seen.map (· ∪ (slotKeys slots).toFinset)
  reused : acc.createdUtxos.map (·.isReused) = (keptSlots slots).map (reusedSlot seen slots)

variable {seen : Option (Finset XOnlyKey)} {slots : List P2trSlot} {acc acc' : ApplyAcc}
  {block : BlockScanInput} {tx : TxScanInput} {firstUid : UInt64}

theorem ReuseAcc.applyInput {input : TxInputScan} (hi : ReuseAcc seen slots acc)
    (h : applyInput block tx acc input = .ok acc') : ReuseAcc seen slots acc' := by
  unfold BitcoinData.applyInput at h
  split at h
  · cases h
    exact hi
  · simp only [bind_eq_ok, pure_eq_ok, Except.ok.injEq] at h
    obtain ⟨_, -, rfl⟩ := h
    exact ⟨hi.keys, hi.reused⟩

/-- What a native P2TR output does to the seen keys, and what it is flagged as. -/
theorem ReuseAcc.takeP2trSlot {output : TxOutputScan} {key : XOnlyKey}
    (hi : ReuseAcc seen slots acc) (hkey : output.p2trXonlyKey = some key) :
    (BitcoinData.takeP2trSlot output key acc).1.self.seenP2trKeys =
      seen.map (· ∪ (slotKeys (slots ++ [⟨tx, output⟩])).toFinset) ∧
    (BitcoinData.takeP2trSlot output key acc).2 =
      reusedSlot seen (slots ++ [⟨tx, output⟩]) (⟨tx, output⟩, slots.length) := by
  have hkeys : slotKeys [(⟨tx, output⟩ : P2trSlot)] = [key] := by simp [slotKeys, hkey]
  simp only [BitcoinData.takeP2trSlot, hi.keys, reusedSlot, hkey, slotKeys_append, hkeys,
    List.take_left]
  cases seen with
  | none => exact ⟨rfl, rfl⟩
  | some keys =>
    refine ⟨?_, rfl⟩
    simp only [Option.map_some, Option.some.injEq, List.toFinset_append]
    ext x
    simp only [Finset.mem_insert, Finset.mem_union, List.mem_toFinset, List.mem_singleton]
    tauto

theorem ReuseAcc.applyOutput {output : TxOutputScan} (hi : ReuseAcc seen slots acc)
    (h : applyOutput block firstUid tx acc output = .ok acc') :
    ReuseAcc seen (slots ++ tx.slotsOf [output]) acc' := by
  unfold BitcoinData.applyOutput at h
  cases hp : output.isP2tr with
  | false =>
    rw [hp] at h
    cases h
    simpa [TxScanInput.slotsOf, hp] using { hi with }
  | true =>
    simp only [hp, Bool.not_true, Bool.false_eq_true, if_false, bind_eq_ok] at h
    obtain ⟨slotU16, -, key, hkey, h⟩ := h
    have hkey' : output.p2trXonlyKey = some key := by simpa [p2trOutputIdentity] using hkey
    have hslots : tx.slotsOf [output] = [⟨tx, output⟩] := by simp [TxScanInput.slotsOf, hp]
    have hi₀ : ReuseAcc seen slots { acc with
        stats := { acc.stats with outputCountTotal := acc.stats.outputCountTotal + 1 } } := { hi with }
    obtain ⟨hseen, hflag⟩ := @ReuseAcc.takeP2trSlot _ _ _ tx _ _ hi₀ hkey'
    rw [hslots]
    split at h
    · rename_i hskip
      have hskipped : (⟨tx, output⟩ : P2trSlot).skipped = true := hskip
      simp only [pure_eq_ok, Except.ok.injEq] at h
      rw [← h]
      refine ⟨hseen, ?_⟩
      rw [keptSlots_append, hskipped, if_pos rfl, List.append_nil, reusedSlot_append]
      exact hi.reused
    · rename_i hskip
      have hkept : (⟨tx, output⟩ : P2trSlot).skipped = false := by rwa [← Bool.not_eq_true]
      unfold BitcoinData.storeOutput at h
      simp only [bind_eq_ok, pure_eq_ok, Except.ok.injEq] at h
      obtain ⟨_, -, _, -, _, -, rfl⟩ := h
      refine ⟨hseen, ?_⟩
      simp only [keptSlots_append, hkept, Bool.false_eq_true, if_false, List.map_append,
        reusedSlot_append, List.map_singleton, ← hflag, ← hi.reused]
      rfl

theorem ReuseAcc.applyTx {txCount : UInt16} (hi : ReuseAcc seen slots acc)
    (h : applyTx block firstUid txCount acc tx = .ok acc') :
    ReuseAcc seen (slots ++ tx.p2trSlots) acc' := by
  unfold BitcoinData.applyTx at h
  simp only [bind_eq_ok] at h
  obtain ⟨acc₁, h₁, acc₂, h₂, h₃⟩ := h
  have hi₀ : ReuseAcc seen slots
      { acc with txHasP2trOutput := false, txIndexedOutputCount := 0 } := { hi with }
  have hi₁ := foldlM_invariant
    (fun input _ _ _ hs hstep => ReuseAcc.applyInput hs hstep) hi₀ h₁
  have hi₂ := foldlM_prefix_invariant
    (fun pre acc => ReuseAcc seen (slots ++ tx.slotsOf pre) acc)
    tx.outputs [] acc₁ acc₂
    (fun output _ pre s s' hs hstep => by
      have := ReuseAcc.applyOutput hs hstep
      rwa [List.append_assoc, ← show tx.slotsOf (pre ++ [output]) = tx.slotsOf pre ++
        tx.slotsOf [output] by simp [TxScanInput.slotsOf]] at this)
    (by simpa [TxScanInput.slotsOf] using hi₁) h₂
  obtain ⟨stats, tweaks, bitmap, rfl, -⟩ := finishTx_frame h₃
  exact { hi₂ with }

section
variable [Externals] {state state' : P2trIndexerState} {applied : AppliedBlock}

theorem applyBlock_reuse (h : state.applyBlockWithStats block = .ok (state', applied)) :
    state'.seenP2trKeys = state.seenP2trKeys.map (· ∪ (slotKeys block.p2trSlots).toFinset) ∧
    applied.createdUtxos.map (·.isReused) =
      (keptSlots block.p2trSlots).map (reusedSlot state.seenP2trKeys block.p2trSlots) := by
  unfold P2trIndexerState.applyBlockWithStats at h
  simp only [bind_eq_ok, pure_eq_ok, Except.ok.injEq, Prod.mk.injEq] at h
  obtain ⟨txCount, -, acc, hfold, nextUid, -, lightBlock, -, rfl, rfl⟩ := h
  have hinit : ReuseAcc state.seenP2trKeys [] (ApplyAcc.init state txCount) :=
    ⟨by simp [ApplyAcc.init, slotKeys], rfl⟩
  have hi := foldlM_prefix_invariant
    (fun pre acc => ReuseAcc state.seenP2trKeys (pre.flatMap TxScanInput.p2trSlots) acc)
    block.txs [] _ acc
    (fun tx _ pre s s' hs hstep => by
      have := ReuseAcc.applyTx hs hstep
      rwa [show pre.flatMap TxScanInput.p2trSlots ++ tx.p2trSlots =
        (pre ++ [tx]).flatMap TxScanInput.p2trSlots by simp] at this)
    hinit hfold
  rw [List.nil_append] at hi
  exact ⟨hi.keys, hi.reused⟩

/-! ## A run -/

variable {blocks : List BlockScanInput} {A : List AppliedBlock} {a : AppliedBlock} {k : ℕ}

theorem applyBlocks_reuse (h : state.applyBlocks blocks = .ok (state', A))
    (hb : blocks[k]? = some block) (ha : A[k]? = some a) :
    a.createdUtxos.map (·.isReused) = (keptSlots block.p2trSlots).map (reusedSlot
      (state.seenP2trKeys.map
        (· ∪ (slotKeys ((blocks.take k).flatMap BlockScanInput.p2trSlots)).toFinset))
      block.p2trSlots) := by
  induction blocks generalizing state A k with
  | nil => cases hb
  | cons block₀ blocks ih =>
    obtain ⟨state₁, first, rest, h₁, h₂, rfl⟩ := applyBlocks_cons_eq_ok.mp h
    obtain ⟨hseen, hreused⟩ := applyBlock_reuse h₁
    cases k with
    | zero =>
      rw [List.getElem?_cons_zero, Option.some.injEq] at hb ha
      subst hb ha
      rw [hreused, List.take_zero]
      simp [slotKeys]
    | succ k =>
      rw [List.getElem?_cons_succ] at hb ha
      rw [ih h₂ hb ha, hseen, Option.map_map, List.take_succ_cons, List.flatMap_cons,
        slotKeys_append, List.toFinset_append]
      congr 3
      funext keys
      exact Finset.union_assoc _ _ _

omit [Externals] in
theorem reusedSlot_eq_true {seen : Finset XOnlyKey} {p : P2trSlot × ℕ} {key : XOnlyKey}
    (hkey : p.1.output.p2trXonlyKey = some key) :
    reusedSlot (some seen) slots p = true ↔ key ∈ seen ∨ key ∈ slotKeys (slots.take p.2) := by
  simp [reusedSlot, hkey]

theorem AppliedSpec.output_slot (hs : AppliedSpec state block state' a) {i : ℕ}
    {output : StoredOutputEntryInput} (h : a.storageBlock.outputs[i]? = some output) :
    ∃ p, (keptSlots block.p2trSlots)[i]? = some p ∧ p.1.output.p2trXonlyKey = some output.key ∧
      a.storageBlock.storedSlots[i]? = some p.2 := by
  rw [hs.outputs, List.getElem?_map, Option.map_eq_some_iff] at h
  obtain ⟨created, hc, rfl⟩ := h
  have hkeys := congrArg (·[i]?) hs.keys
  simp only [List.getElem?_map, hc, Option.map_some] at hkeys
  cases hp : (keptSlots block.p2trSlots)[i]? with
  | none => rw [hp] at hkeys; cases hkeys
  | some p =>
    rw [hp, Option.map_some, Option.some.injEq] at hkeys
    refine ⟨p, rfl, hkeys.symm, ?_⟩
    rw [hs.storedSlots, List.getElem?_map, hp, Option.map_some]

end

end BitcoinData
