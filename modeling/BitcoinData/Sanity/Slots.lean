import BitcoinData.Lib.Lists
import BitcoinData.Sanity.Apply

/-! The slots of one applied block: the skipped and the stored slot numbers
partition them, and the next block starts right behind them. -/

namespace BitcoinData

open Lib

theorem skippedSlots_numbers (slots : List P2trSlot) :
    (skippedSlots slots).map (·.2) =
      (List.range slots.length).filter fun k => (slots[k]?).any P2trSlot.skipped :=
  positions_eq P2trSlot.skipped slots

theorem keptSlots_numbers (slots : List P2trSlot) :
    (keptSlots slots).map (·.2) =
      (List.range slots.length).filter fun k => (slots[k]?).any fun slot => !slot.skipped :=
  positions_eq (fun slot => !P2trSlot.skipped slot) slots

theorem keptSlots_get {slots : List P2trSlot} {i : ℕ} {p : P2trSlot × ℕ}
    (h : (keptSlots slots)[i]? = some p) : slots[p.2]? = some p.1 := by
  have hmem : p ∈ slots.zipIdx := (List.mem_filter.mp (List.mem_of_getElem? h)).1
  exact List.mem_zipIdx_iff_getElem?.mp hmem

theorem slots_length (slots : List P2trSlot) :
    (keptSlots slots).length + (skippedSlots slots).length = slots.length := by
  have h := List.length_eq_length_filter_add (l := slots.zipIdx) fun p => !p.1.skipped
  rw [List.length_zipIdx] at h
  simpa [keptSlots, skippedSlots] using h.symm

def slotTotal (blocks : List BlockScanInput) : ℕ :=
  (blocks.map fun block => block.p2trSlots.length).sum

theorem slotTotal_cons (block : BlockScanInput) (blocks : List BlockScanInput) :
    slotTotal (block :: blocks) = block.p2trSlots.length + slotTotal blocks := by
  rw [slotTotal, List.map_cons, List.sum_cons, slotTotal]

theorem toResponse_fields {self : StoredLightBlockInput} {labels : Option UInt16}
    {response : LightBlockInput} (h : self.toResponseInputForLabels labels = .ok response) :
    response.height = self.height ∧ response.blockHash = self.blockHash ∧
      response.firstUid = self.firstUid ∧ response.tweaks = self.tweaks := by
  unfold StoredLightBlockInput.toResponseInputForLabels at h
  simp only [bind_eq_ok, pure_eq_ok, Except.ok.injEq] at h
  obtain ⟨⟨count, ids⟩, -, -, -, rfl⟩ := h
  exact ⟨rfl, rfl, rfl, rfl⟩

section
variable [Externals] {state state' : P2trIndexerState} {block : BlockScanInput} {applied : AppliedBlock}

theorem AppliedSpec.outputs_length (hs : AppliedSpec state block state' applied) :
    applied.storageBlock.outputs.length = (keptSlots block.p2trSlots).length := by
  have h := congrArg List.length hs.created
  simp only [List.length_map] at h
  rw [hs.outputs, List.length_map, h]

theorem AppliedSpec.skipped_length (hs : AppliedSpec state block state' applied) :
    applied.storageBlock.skippedOutputs.length = (skippedSlots block.p2trSlots).length := by
  simpa using congrArg List.length hs.skipped

theorem AppliedSpec.total (hs : AppliedSpec state block state' applied) :
    applied.storageBlock.outputs.length + applied.storageBlock.skippedOutputs.length =
      block.p2trSlots.length := by
  rw [hs.outputs_length, hs.skipped_length, slots_length]

theorem AppliedSpec.storedSlots (hs : AppliedSpec state block state' applied) :
    applied.storageBlock.storedSlots = (keptSlots block.p2trSlots).map (·.2) := by
  unfold StoredLightBlockInput.storedSlots
  rw [hs.total, hs.skipped, skippedSlots_numbers, keptSlots_numbers, filter_notMem_positions]

theorem AppliedSpec.skipped_sorted (hs : AppliedSpec state block state' applied) :
    applied.storageBlock.skippedOutputs.Pairwise (· < ·) := by
  have h : (applied.storageBlock.skippedOutputs.map (·.toNat)).Pairwise (· < ·) := by
    rw [hs.skipped, skippedSlots_numbers]
    exact sortedLT_positions _ _
  rw [List.pairwise_map] at h
  exact h.imp UInt16.lt_iff_toNat_lt.mpr

theorem AppliedSpec.mem_skipped (hs : AppliedSpec state block state' applied) {k : ℕ} {slot : P2trSlot}
    (hk : block.p2trSlots[k]? = some slot) :
    k ∈ applied.storageBlock.skippedOutputs.map (·.toNat) ↔ slot.skipped := by
  obtain ⟨hlt, -⟩ := List.getElem?_eq_some_iff.mp hk
  rw [hs.skipped, skippedSlots_numbers, List.mem_filter, List.mem_range, hk]
  simp [hlt]

theorem AppliedSpec.created_get (hs : AppliedSpec state block state' applied) {i : ℕ}
    {created : CreatedScopedUtxo} (hc : applied.createdUtxos[i]? = some created) :
    ∃ k slot, applied.storageBlock.storedSlots[i]? = some k ∧ block.p2trSlots[k]? = some slot ∧
      created.entry.outpoint = slot.outpoint ∧
      created.entry.uid.toNat = applied.storageBlock.firstUid.toNat + k ∧
      created.entry.outputIndex.toNat = i ∧
      slot.output.p2trXonlyKey = some created.entry.p2trXonlyKey := by
  have hlen := congrArg List.length hs.created
  have hpair := congrArg (·[i]?) hs.created
  have hkey := congrArg (·[i]?) hs.keys
  have hidx := congrArg (·[i]?) hs.index
  obtain ⟨hi, -⟩ := List.getElem?_eq_some_iff.mp hc
  simp only [List.getElem?_map, hc, Option.map_some] at hpair hkey hidx
  cases hp : (keptSlots block.p2trSlots)[i]? with
  | none => rw [hp] at hpair; cases hpair
  | some p =>
    rw [hp] at hpair hkey
    simp only [Option.map_some, Option.some.injEq, Prod.mk.injEq] at hpair hkey
    rw [List.getElem?_range hi, Option.some.injEq] at hidx
    refine ⟨p.2, p.1, ?_, keptSlots_get hp, hpair.1, hpair.2, hidx, hkey.symm⟩
    rw [hs.storedSlots, List.getElem?_map, hp, Option.map_some]

theorem AppliedSpec.uidDomain (hs : AppliedSpec state block state' applied) :
    UidDomain block applied where
  responseUid := (toResponse_fields hs.response).2.2.1
  sorted := hs.skipped_sorted
  total := hs.total
  skipped := fun _ _ hk => hs.mem_skipped hk
  created := by rw [hs.outputs, List.length_map]
  owner := by
    intro i created hc
    obtain ⟨k, slot, hk, hslot, hout, huid, hidx, hkey⟩ := hs.created_get hc
    refine ⟨k, slot, storedEntry created, hk, hslot, hout, huid, hidx, ?_, hkey⟩
    rw [hs.outputs, List.getElem?_map, hc, Option.map_some]

theorem AppliedSpec.next_firstUid (hs : AppliedSpec state block state' applied) :
    (saturatingAdd64 state'.nextUid 1).toNat =
      applied.storageBlock.firstUid.toNat + block.p2trSlots.length ∧
    (block.p2trSlots ≠ [] →
      applied.storageBlock.firstUid.toNat + block.p2trSlots.length ≤ U64_MAX) := by
  have hnext := hs.nextUid
  have hbound := hs.slotBound
  unfold advanceNextUid at hnext
  split_ifs at hnext with hpos
  · rw [okOr_eq_ok, Option.bind_eq_some_iff] at hnext
    obtain ⟨past, hpast, hlast⟩ := hnext
    have hcast : (UInt64.ofNat block.p2trSlots.length).toNat = block.p2trSlots.length :=
      UInt64.toNat_ofNat_of_lt' (lt_of_le_of_lt hbound (by decide))
    rw [checkedAdd64_eq_some, hcast] at hpast
    rw [checkedSub64_eq_some] at hlast
    have hlt := past.toNat_lt
    rw [saturatingAdd64_toNat, UInt64.toNat_one] at *
    unfold U64_MAX
    omega
  · have hnil : block.p2trSlots = [] := List.length_eq_zero_iff.mp (by omega)
    rw [Except.ok.injEq] at hnext
    rw [← hnext, ← hs.firstUid, hnil]
    simp

end

end BitcoinData
