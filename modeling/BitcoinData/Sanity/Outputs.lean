import BitcoinData.Sanity.Entries
import BitcoinData.Sanity.Reference

/-! The outputs of a sequential run over blocks of consecutive heights. A stored output
is known by its block and its index, its UID belongs to no other output, and every
spend takes an output of the same block or of an earlier one. -/

namespace BitcoinData

open Lib

/-- Blocks of consecutive heights from `start` on. -/
def Consecutive (start : ℕ) (blocks : List BlockScanInput) : Prop :=
  blocks.map (·.height) = List.range' start blocks.length

theorem Consecutive.get {start k : ℕ} {blocks : List BlockScanInput} {block : BlockScanInput}
    (hc : Consecutive start blocks) (h : blocks[k]? = some block) : block.height = start + k := by
  obtain ⟨hlt, -⟩ := List.getElem?_eq_some_iff.mp h
  have hk := congrArg (·[k]?) hc
  simp only [List.getElem?_map, h, Option.map_some, List.getElem?_range' hlt, Option.some.injEq]
    at hk
  omega

theorem Consecutive.take {start : ℕ} {blocks : List BlockScanInput} (hc : Consecutive start blocks)
    (n : ℕ) : Consecutive start (blocks.take n) := by
  rw [Consecutive, List.map_take, hc, List.length_take]
  apply List.ext_getElem?
  intro k
  by_cases hk : k < min n blocks.length
  · rw [List.getElem?_take_of_lt (by omega), List.getElem?_range' (by omega),
      List.getElem?_range' hk]
  · rw [List.getElem?_eq_none (by rw [List.length_take, List.length_range']; omega),
      List.getElem?_eq_none (by rw [List.length_range']; omega)]

section
variable [Externals] {s s' : P2trIndexerState} {block : BlockScanInput} {a : AppliedBlock}

/-! ## One block -/

theorem AppliedSpec.outputUid_eq (hs : AppliedSpec s block s' a) {i : ℕ}
    (hi : i < a.storageBlock.outputs.length) :
    ∃ slot, a.storageBlock.storedSlots[i]? = some slot ∧ slot < block.p2trSlots.length ∧
      a.storageBlock.outputUid i = a.storageBlock.firstUid.toNat + slot := by
  rw [hs.outputs, List.length_map] at hi
  obtain ⟨k, slot, hk, hslot, -⟩ := hs.created_get (List.getElem?_eq_getElem hi)
  obtain ⟨hlt, -⟩ := List.getElem?_eq_some_iff.mp hslot
  refine ⟨k, hk, hlt, ?_⟩
  rw [StoredLightBlockInput.outputUid, List.getD_eq_getElem?_getD, hk, Option.getD_some]

theorem AppliedSpec.outputUid_inj (hs : AppliedSpec s block s' a) {i j : ℕ}
    (hi : i < a.storageBlock.outputs.length) (hj : j < a.storageBlock.outputs.length)
    (h : a.storageBlock.outputUid i = a.storageBlock.outputUid j) : i = j := by
  obtain ⟨p, hp, -, hpi⟩ := hs.outputUid_eq hi
  obtain ⟨q, hq, -, hqj⟩ := hs.outputUid_eq hj
  obtain rfl : p = q := by omega
  obtain ⟨hlt, -⟩ := List.getElem?_eq_some_iff.mp hp
  have hnd : a.storageBlock.storedSlots.Nodup := List.nodup_range.filter _
  exact (List.getElem?_inj hlt hnd).mp (hp.trans hq.symm)

theorem AppliedSpec.outputUid_lt (hs : AppliedSpec s block s' a) {i : ℕ}
    (hi : i < a.storageBlock.outputs.length) : a.storageBlock.outputUid i < U64_MAX := by
  obtain ⟨slot, -, hlt, heq⟩ := hs.outputUid_eq hi
  have hroom := hs.next_firstUid.2 (List.ne_nil_of_length_pos (by omega))
  omega

/-! ## A run -/

variable {state state' : P2trIndexerState} {blocks : List BlockScanInput} {A : List AppliedBlock}

theorem firstUid_get (h : state.applyBlocks blocks = .ok (state', A)) {k : ℕ} (ha : A[k]? = some a) :
    a.storageBlock.firstUid.toNat =
      (saturatingAdd64 state.nextUid 1).toNat + slotTotal (blocks.take k) := by
  induction blocks generalizing state A k with
  | nil =>
    rw [P2trIndexerState.applyBlocks, Except.ok.injEq, Prod.mk.injEq] at h
    rw [← h.2] at ha
    cases ha
  | cons block blocks ih =>
    obtain ⟨state₁, first, rest, h₁, h₂, rfl⟩ := applyBlocks_cons_eq_ok.mp h
    have hs := applyBlockWithStats_spec h₁
    cases k with
    | zero =>
      rw [List.getElem?_cons_zero, Option.some.injEq] at ha
      rw [← ha, hs.firstUid]
      rfl
    | succ k =>
      rw [List.getElem?_cons_succ] at ha
      have hnext := hs.next_firstUid.1
      rw [hs.firstUid] at hnext
      rw [ih h₂ ha, hnext, List.take_succ_cons, slotTotal_cons, Nat.add_assoc]

omit [Externals] in
theorem slotTotal_take_lt {j k : ℕ} {block : BlockScanInput} (hb : blocks[j]? = some block)
    (hlt : j < k) : slotTotal (blocks.take j) + block.p2trSlots.length ≤ slotTotal (blocks.take k) := by
  induction blocks generalizing j k with
  | nil => cases hb
  | cons first blocks ih =>
    obtain ⟨k, rfl⟩ : ∃ k', k = k' + 1 := ⟨k - 1, by omega⟩
    rw [List.take_succ_cons, slotTotal_cons]
    cases j with
    | zero =>
      rw [List.getElem?_cons_zero, Option.some.injEq] at hb
      rw [hb, List.take_zero]
      change 0 + _ ≤ _
      omega
    | succ j =>
      rw [List.take_succ_cons, slotTotal_cons]
      have := ih hb (by omega : j < k)
      omega

theorem applyBlocks_get_spec (h : state.applyBlocks blocks = .ok (state', A)) {k : ℕ}
    (ha : A[k]? = some a) : ∃ block s s', blocks[k]? = some block ∧ AppliedSpec s block s' a := by
  obtain ⟨hlt, -⟩ := List.getElem?_eq_some_iff.mp ha
  rw [applyBlocks_length h] at hlt
  obtain ⟨s, s', hs⟩ := applyBlocks_get h (List.getElem?_eq_getElem hlt) ha
  exact ⟨blocks[k], s, s', List.getElem?_eq_getElem hlt, hs⟩

theorem outputUid_unique (h : state.applyBlocks blocks = .ok (state', A)) {j k i i' : ℕ}
    {a b : AppliedBlock} (ha : A[j]? = some a) (hb : A[k]? = some b)
    (hi : i < a.storageBlock.outputs.length) (hi' : i' < b.storageBlock.outputs.length)
    (heq : a.storageBlock.outputUid i = b.storageBlock.outputUid i') : j = k ∧ i = i' := by
  obtain ⟨blockA, sa, sa', hgetA, hsA⟩ := applyBlocks_get_spec h ha
  obtain ⟨blockB, sb, sb', hgetB, hsB⟩ := applyBlocks_get_spec h hb
  obtain ⟨p, -, hp, hpi⟩ := hsA.outputUid_eq hi
  obtain ⟨q, -, hq, hqi⟩ := hsB.outputUid_eq hi'
  have hfirstA := firstUid_get h ha
  have hfirstB := firstUid_get h hb
  -- blocks own disjoint intervals of UIDs
  rcases lt_trichotomy j k with hlt | rfl | hlt
  · have := slotTotal_take_lt hgetA hlt
    omega
  · rw [ha, Option.some.injEq] at hb
    subst hb
    exact ⟨rfl, hsA.outputUid_inj hi hi' heq⟩
  · have := slotTotal_take_lt hgetB hlt
    omega

end

end BitcoinData
