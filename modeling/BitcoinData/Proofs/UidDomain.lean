import BitcoinData.Sanity.Sample
import BitcoinData.Sanity.Slots

/-! UIDs over a whole sequence of blocks. The UIDs that the slots own form one
interval, from which every statement about first UIDs, distinctness and the upper
bound follows. -/

namespace BitcoinData

open Lib

section
variable [Externals] {state state' : P2trIndexerState} {blocks : List BlockScanInput}
  {applied : List AppliedBlock}

theorem forall₂_uidDomain (h : state.applyBlocks blocks = .ok (state', applied)) :
    List.Forall₂ UidDomain blocks applied := by
  induction blocks generalizing state applied with
  | nil =>
    rw [P2trIndexerState.applyBlocks, Except.ok.injEq, Prod.mk.injEq] at h
    rw [← h.2]
    exact List.Forall₂.nil
  | cons block blocks ih =>
    obtain ⟨state₁, first, rest, h₁, h₂, rfl⟩ := applyBlocks_cons_eq_ok.mp h
    exact List.Forall₂.cons (applyBlockWithStats_spec h₁).uidDomain (ih h₂)

/-- The UIDs handed out are the interval that starts behind the last UID of the
start state, and when there is one it ends below `u64::MAX`. -/
theorem handedOut_eq_interval (h : state.applyBlocks blocks = .ok (state', applied)) :
    handedOut blocks applied =
      List.range' (saturatingAdd64 state.nextUid 1).toNat (slotTotal blocks) ∧
    (saturatingAdd64 state'.nextUid 1).toNat =
      (saturatingAdd64 state.nextUid 1).toNat + slotTotal blocks := by
  induction blocks generalizing state applied with
  | nil =>
    rw [P2trIndexerState.applyBlocks, Except.ok.injEq, Prod.mk.injEq] at h
    rw [← h.1, ← h.2]
    exact ⟨rfl, rfl⟩
  | cons block blocks ih =>
    obtain ⟨state₁, first, rest, h₁, h₂, rfl⟩ := applyBlocks_cons_eq_ok.mp h
    have hs := applyBlockWithStats_spec h₁
    obtain ⟨hrest, hend⟩ := ih h₂
    have hnext := hs.next_firstUid.1
    rw [hs.firstUid] at hnext
    have hfirst : slotUids block first =
        List.range' (saturatingAdd64 state.nextUid 1).toNat block.p2trSlots.length := by
      rw [slotUids, hs.firstUid, ← List.range'_eq_map_range]
    constructor
    · change slotUids block first ++ handedOut blocks rest = _
      rw [hfirst, hrest, hnext, slotTotal_cons, List.range'_append_1]
    · rw [hend, hnext, slotTotal_cons, Nat.add_assoc]

theorem handedOut_bound (h : state.applyBlocks blocks = .ok (state', applied)) :
    ∀ uid ∈ handedOut blocks applied, uid < U64_MAX := by
  induction blocks generalizing state applied with
  | nil => simp [handedOut]
  | cons block blocks ih =>
    obtain ⟨state₁, first, rest, h₁, h₂, rfl⟩ := applyBlocks_cons_eq_ok.mp h
    intro uid huid
    rcases List.mem_append.mp (show uid ∈ slotUids block first ++ handedOut blocks rest from huid)
      with huid | huid
    · obtain ⟨slot, hslot, rfl⟩ := List.mem_map.mp huid
      have hlt := List.mem_range.mp hslot
      have hroom := (applyBlockWithStats_spec h₁).next_firstUid.2
        (List.ne_nil_of_length_pos (by omega))
      omega
    · exact ih h₂ uid huid

theorem firstUid_succ (h : state.applyBlocks blocks = .ok (state', applied)) {i : ℕ}
    {block : BlockScanInput} {a a' : AppliedBlock} (hb : blocks[i]? = some block)
    (ha : applied[i]? = some a) (ha' : applied[i + 1]? = some a') :
    a'.storageBlock.firstUid.toNat = a.storageBlock.firstUid.toNat + block.p2trSlots.length := by
  induction blocks generalizing state applied i with
  | nil => simp at hb
  | cons block₀ blocks ih =>
    obtain ⟨state₁, first, rest, h₁, h₂, rfl⟩ := applyBlocks_cons_eq_ok.mp h
    cases i with
    | succ i => exact ih h₂ hb ha ha'
    | zero =>
      simp only [List.getElem?_cons_zero, Option.some.injEq] at hb ha
      subst hb ha
      -- the second block starts from the state the first one leaves
      cases blocks with
      | nil =>
        rw [P2trIndexerState.applyBlocks, Except.ok.injEq, Prod.mk.injEq] at h₂
        rw [← h₂.2] at ha'
        simp at ha'
      | cons block₁ blocks =>
        obtain ⟨state₂, second, rest, h₃, -, rfl⟩ := applyBlocks_cons_eq_ok.mp h₂
        simp only [List.getElem?_cons_succ, List.getElem?_cons_zero, Option.some.injEq] at ha'
        rw [← ha', (applyBlockWithStats_spec h₃).firstUid]
        exact (applyBlockWithStats_spec h₁).next_firstUid.1

/-- Every block of a sequence starts right behind the slots of the block before it,
owns one UID per native P2TR output, stores exactly the outputs of the slots that it
does not skip, and no UID is handed out twice or reaches `u64::MAX`. -/
theorem uid_domain (state state' : P2trIndexerState) (blocks : List BlockScanInput)
    (applied : List AppliedBlock) (h : state.applyBlocks blocks = .ok (state', applied)) :
    List.Forall₂ UidDomain blocks applied ∧
    (∀ (i : ℕ) (block : BlockScanInput) (a a' : AppliedBlock), blocks[i]? = some block →
      applied[i]? = some a → applied[i + 1]? = some a' →
      a'.storageBlock.firstUid.toNat =
        a.storageBlock.firstUid.toNat + block.p2trSlots.length) ∧
    (handedOut blocks applied).Nodup ∧ ∀ uid ∈ handedOut blocks applied, uid < U64_MAX := by
  refine ⟨forall₂_uidDomain h, fun i block a a' => firstUid_succ h, ?_, handedOut_bound h⟩
  rw [(handedOut_eq_interval h).1]
  exact List.nodup_range'

end

/-! Two blocks after UID 6: one pays two outputs, the next spends the second and pays
one to a key without silent-payment data. -/

section
attribute [local instance] sampleExternals

def uidSampleBlocks : List BlockScanInput :=
  [sampleBlock 100 1 0 [sampleTx 10 0 [] [1, 2]],
    sampleBlock 101 2 1 [sampleTx 11 0 [⟨sampleId 10, 1⟩] [3],
      { sampleTx 12 1 [] [4] with silentPaymentTweak := none }]]

theorem uid_domain_sample : ∃ state' applied,
    (P2trIndexerState.restoreAtUid 6).applyBlocks uidSampleBlocks = .ok (state', applied) ∧
    handedOut uidSampleBlocks applied = [7, 8, 9, 10] ∧ (handedOut uidSampleBlocks applied).Nodup := by
  obtain ⟨⟨state', applied⟩, h⟩ : ∃ r,
      (P2trIndexerState.restoreAtUid 6).applyBlocks uidSampleBlocks = .ok r :=
    exists_of_isOk (by decide +kernel)
  refine ⟨state', applied, h, ?_, (uid_domain _ _ _ _ h).2.2.1⟩
  rw [(handedOut_eq_interval h).1]
  decide +kernel

end

end BitcoinData
