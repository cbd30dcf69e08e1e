import BitcoinData.Sanity.RoundTrip
import BitcoinData.Spec.Slots

/-! `mark_spent_outputs`: a creation block is rewritten with new spent heights and
nothing else, and the groups hold exactly the spends they were built from. -/

namespace BitcoinData

open Lib

def StoredOutputEntryInput.withSpent (spentHeight : UInt32) (output : StoredOutputEntryInput) :
    StoredOutputEntryInput :=
  { output with spentHeight }

/-- The outputs after a list of `(output_index, spent_height)` marks. -/
def applyMarks (marks : List (UInt32 × UInt32)) (outputs : List StoredOutputEntryInput) :
    List StoredOutputEntryInput :=
  marks.foldl (fun outputs m => outputs.modify m.1.toNat (StoredOutputEntryInput.withSpent m.2))
    outputs

def StoredLightBlockInput.marked (self : StoredLightBlockInput) (marks : List (UInt32 × UInt32)) :
    StoredLightBlockInput :=
  { self with outputs := applyMarks marks self.outputs }

theorem applyMarks_length (marks : List (UInt32 × UInt32)) (outputs : List StoredOutputEntryInput) :
    (applyMarks marks outputs).length = outputs.length := by
  induction marks generalizing outputs with
  | nil => rfl
  | cons m marks ih =>
    rw [applyMarks, List.foldl_cons]
    exact (ih _).trans (List.length_modify _ _ _)

theorem unmarked_applyMarks (marks : List (UInt32 × UInt32))
    (outputs : List StoredOutputEntryInput) :
    (applyMarks marks outputs).map (StoredOutputEntryInput.withSpent STORAGE_SPENT_HEIGHT_UNSPENT) =
      outputs.map (StoredOutputEntryInput.withSpent STORAGE_SPENT_HEIGHT_UNSPENT) := by
  induction marks generalizing outputs with
  | nil => rfl
  | cons m marks ih =>
    rw [applyMarks, List.foldl_cons]
    refine (ih _).trans ?_
    apply List.ext_getElem?
    intro i
    rw [List.getElem?_map, List.getElem?_map, List.getElem?_modify]
    cases outputs[i]? with
    | none => rfl
    | some output =>
      simp only [Option.map_some, Option.map_eq_map]
      split_ifs <;> rfl

@[simp] theorem unmarked_marked (block : StoredLightBlockInput) (marks : List (UInt32 × UInt32)) :
    (block.marked marks).unmarked = block.unmarked := by
  have h := unmarked_applyMarks marks block.outputs
  simp only [StoredLightBlockInput.unmarked, StoredLightBlockInput.marked]
  rw [show (fun output : StoredOutputEntryInput =>
    { output with spentHeight := STORAGE_SPENT_HEIGHT_UNSPENT }) =
    StoredOutputEntryInput.withSpent STORAGE_SPENT_HEIGHT_UNSPENT from rfl, h]

section
variable {a b : StoredLightBlockInput} (h : a.unmarked = b.unmarked)
include h

theorem header_of_unmarked : a.height = b.height ∧ a.blockHash = b.blockHash ∧
    a.previousBlockHash = b.previousBlockHash := by
  have h₁ : a.unmarked.height = b.unmarked.height := by rw [h]
  have h₂ : a.unmarked.blockHash = b.unmarked.blockHash := by rw [h]
  have h₃ : a.unmarked.previousBlockHash = b.unmarked.previousBlockHash := by rw [h]
  exact ⟨h₁, h₂, h₃⟩

theorem spends_of_unmarked : a.spends = b.spends := by
  have h₁ : a.unmarked.spends = b.unmarked.spends := by rw [h]
  exact h₁

theorem outputs_length_of_unmarked : a.outputs.length = b.outputs.length := by
  have h₁ : a.unmarked.outputs.length = b.unmarked.outputs.length := by rw [h]
  simpa [StoredLightBlockInput.unmarked] using h₁

theorem outputUid_of_unmarked (i : ℕ) : a.outputUid i = b.outputUid i := by
  have h₁ : a.unmarked.firstUid = b.unmarked.firstUid := by rw [h]
  have h₂ : a.unmarked.skippedOutputs = b.unmarked.skippedOutputs := by rw [h]
  replace h₁ : a.firstUid = b.firstUid := h₁
  replace h₂ : a.skippedOutputs = b.skippedOutputs := h₂
  simp only [StoredLightBlockInput.outputUid, StoredLightBlockInput.storedSlots, h₁, h₂,
    outputs_length_of_unmarked h]

end

theorem spentHeight_applyMarks {marks : List (UInt32 × UInt32)}
    {outputs : List StoredOutputEntryInput} {i : ℕ} {output : StoredOutputEntryInput}
    (h : (applyMarks marks outputs)[i]? = some output) :
    ((∃ m ∈ marks, m.1.toNat = i) → ∃ m ∈ marks, m.1.toNat = i ∧ output.spentHeight = m.2) ∧
    ((∀ m ∈ marks, m.1.toNat ≠ i) → outputs[i]? = some output) := by
  induction marks generalizing outputs with
  | nil => exact ⟨by simp, fun _ => h⟩
  | cons m marks ih =>
    rw [applyMarks, List.foldl_cons] at h
    obtain ⟨hhit, hmiss⟩ := ih h
    by_cases hlater : ∃ m ∈ marks, m.1.toNat = i
    · obtain ⟨m', hm', hi, hs⟩ := hhit hlater
      refine ⟨fun _ => ⟨m', List.mem_cons_of_mem _ hm', hi, hs⟩, fun hno => ?_⟩
      exact absurd hi (hno m' (List.mem_cons_of_mem _ hm'))
    · -- the last mark on `i`, if any, is the first one of the list
      push Not at hlater
      have hget := hmiss hlater
      rw [List.getElem?_modify] at hget
      cases ho : outputs[i]? with
      | none => rw [ho] at hget; cases hget
      | some old =>
        rw [ho] at hget
        simp only [Option.map_some, Option.map_eq_map, Option.some.injEq] at hget
        refine ⟨?_, fun hno => ?_⟩
        · rintro ⟨m', hm', hi⟩
          rcases List.mem_cons.mp hm' with rfl | hm'
          · rw [if_pos hi] at hget
            exact ⟨m', List.mem_cons_self, hi, by rw [← hget]; rfl⟩
          · exact absurd hi (hlater m' hm')
        · rw [if_neg (hno m List.mem_cons_self)] at hget
          rw [← hget]

/-- After the marks, output `i` carries one of the marks made on it, or what it
carried before when there was none. -/
theorem mark_marked (block : StoredLightBlockInput) (marks : List (UInt32 × UInt32)) {i : ℕ}
    (hi : i < block.outputs.length) :
    ((∃ m ∈ marks, m.1.toNat = i) → ∃ m ∈ marks, m.1.toNat = i ∧ (block.marked marks).mark i = m.2) ∧
    ((∀ m ∈ marks, m.1.toNat ≠ i) → (block.marked marks).mark i = block.mark i) := by
  have hlt : i < (applyMarks marks block.outputs).length := by rwa [applyMarks_length]
  obtain ⟨output, hget⟩ : ∃ output, (applyMarks marks block.outputs)[i]? = some output :=
    ⟨_, List.getElem?_eq_getElem hlt⟩
  have hmark : (block.marked marks).mark i = output.spentHeight := by
    simp [StoredLightBlockInput.mark, StoredLightBlockInput.marked, hget]
  obtain ⟨hhit, hmiss⟩ := spentHeight_applyMarks hget
  rw [hmark]
  refine ⟨hhit, fun hno => ?_⟩
  rw [StoredLightBlockInput.mark, hmiss hno]
  rfl

theorem eq_of_unmarked_eq {a b : StoredLightBlockInput} (h : a.unmarked = b.unmarked)
    (hm : ∀ i < a.outputs.length, a.mark i = b.mark i) : a = b := by
  have houts : a.outputs.map (StoredOutputEntryInput.withSpent STORAGE_SPENT_HEIGHT_UNSPENT) =
      b.outputs.map (StoredOutputEntryInput.withSpent STORAGE_SPENT_HEIGHT_UNSPENT) :=
    congrArg StoredLightBlockInput.outputs h
  have hlen : a.outputs.length = b.outputs.length := by simpa using congrArg List.length houts
  have hout : a.outputs = b.outputs := by
    apply List.ext_getElem hlen
    intro i h₁ h₂
    have hi := congrArg (·[i]?) houts
    have hmi := hm i h₁
    simp only [List.getElem?_map, List.getElem?_eq_getElem h₁, List.getElem?_eq_getElem h₂,
      Option.map_some, Option.some.injEq, StoredLightBlockInput.mark, Option.getD_some] at hi hmi
    cases ha : a.outputs[i]
    cases hb : b.outputs[i]
    rw [ha, hb] at hi hmi
    simp only [StoredOutputEntryInput.withSpent, StoredOutputEntryInput.mk.injEq] at hi hmi
    simp [hi.1, hi.2.2, hmi]
  cases a
  cases b
  simp only [StoredLightBlockInput.unmarked, StoredLightBlockInput.mk.injEq] at h hout ⊢
  obtain ⟨h₁, h₂, h₃, h₄, h₅, h₆, h₇, h₈, -, h₁₀, h₁₁, h₁₂, h₁₃⟩ := h
  exact ⟨h₁, h₂, h₃, h₄, h₅, h₆, h₇, h₈, hout, h₁₀, h₁₁, h₁₂, h₁₃⟩

namespace FileArchive

theorem markOutput_eq_ok {creationHeight : ℕ} {acc acc' : StoredLightBlockInput × ℕ}
    {spend : UInt32 × UInt32} (h : markOutput creationHeight acc spend = .ok acc') :
    acc'.1 = acc.1.marked [spend] ∧ spend.1.toNat < acc.1.outputs.length := by
  obtain ⟨stored, updated⟩ := acc
  obtain ⟨i, spentHeight⟩ := spend
  simp only [markOutput, bind_eq_ok, okOr_eq_ok] at h
  obtain ⟨output, hout, h⟩ := h
  obtain ⟨hlt, hget⟩ := List.getElem?_eq_some_iff.mp hout
  refine ⟨?_, hlt⟩
  have hmod : stored.outputs.modify i.toNat (StoredOutputEntryInput.withSpent spentHeight) =
      stored.outputs.set i.toNat { output with spentHeight } := by
    rw [List.modify_eq_set_getElem?, hout]
    rfl
  simp only [StoredLightBlockInput.marked, applyMarks, List.foldl_cons, List.foldl_nil, hmod]
  split_ifs at h with heq
  · rw [pure_eq_ok, Except.ok.injEq] at h
    rw [← h]
  · rw [pure_eq_ok, Except.ok.injEq] at h
    rw [← h, ← not_not.mp heq]
    have : stored.outputs.set i.toNat output = stored.outputs := by
      rw [← hget]
      exact List.set_getElem_self hlt
    simp only [this]

theorem markOutputs_eq_ok {creationHeight : ℕ} {marks : List (UInt32 × UInt32)}
    {acc acc' : StoredLightBlockInput × ℕ}
    (h : marks.foldlM (markOutput creationHeight) acc = .ok acc') :
    acc'.1 = acc.1.marked marks ∧ ∀ m ∈ marks, m.1.toNat < acc.1.outputs.length := by
  induction marks generalizing acc with
  | nil =>
    rw [List.foldlM_nil, pure_eq_ok, Except.ok.injEq] at h
    rw [h]
    exact ⟨rfl, by simp⟩
  | cons m marks ih =>
    rw [List.foldlM_cons, bind_eq_ok] at h
    obtain ⟨acc₁, h₁, h₂⟩ := h
    obtain ⟨heq, hlt⟩ := markOutput_eq_ok h₁
    obtain ⟨heq', hlt'⟩ := ih h₂
    rw [heq] at heq' hlt'
    refine ⟨heq', fun m' hm' => ?_⟩
    rcases List.mem_cons.mp hm' with rfl | hm'
    · exact hlt
    · have := hlt' m' hm'
      rwa [StoredLightBlockInput.marked, applyMarks_length] at this

section
variable [Externals] {archive archive' : FileArchive}

/-- A creation block is replaced by its marked form; a missing file changes nothing. -/
theorem markCreationBlock_eq_ok {height : ℕ} {marks : List (UInt32 × UInt32)} {updated : ℕ}
    (h : archive.markCreationBlock (height, marks) = .ok (archive', updated)) :
    (archive.blocks.lookup height = none ∧ archive' = archive) ∨
    ∃ block bytes, archive.Stored height block ∧ archive' = archive.writeBlockBytes height bytes ∧
      decodeStoredLightBlock bytes = .ok (block.marked marks) ∧
      ∀ m ∈ marks, m.1.toNat < block.outputs.length := by
  unfold markCreationBlock at h
  split at h
  · rename_i hnone
    rw [Except.ok.injEq, Prod.mk.injEq] at h
    exact Or.inl ⟨hnone, h.1.symm⟩
  · rename_i bytes hsome
    simp only [bind_eq_ok, pure_eq_ok, Except.ok.injEq, Prod.mk.injEq] at h
    obtain ⟨block, hdec, acc, hmarks, bytes', hbytes, rfl, -⟩ := h
    obtain ⟨heq, hlt⟩ := markOutputs_eq_ok hmarks
    have hnorm := (decode_fields hdec).2
    refine Or.inr ⟨block, bytes', ⟨bytes, hsome, hdec⟩, rfl, ?_, hlt⟩
    rw [decode_storedBlockBytes hbytes, heq]
    simp only [StoredLightBlockInput.marked, StoredLightBlockInput.normalised]
    rw [show (block.tweaks.map fun entry => { entry with tweak := normalizeTweak entry.tweak }) =
      block.tweaks from congrArg StoredLightBlockInput.tweaks hnorm]

end

theorem markCreationBlock_manifest [Externals] {archive archive' : FileArchive}
    {group : ℕ × List (UInt32 × UInt32)} {updated : ℕ}
    (h : archive.markCreationBlock group = .ok (archive', updated)) :
    archive'.manifest = archive.manifest := by
  obtain ⟨height, marks⟩ := group
  rcases markCreationBlock_eq_ok h with ⟨-, rfl⟩ | ⟨block, bytes, -, rfl, -, -⟩
  · rfl
  · rfl

/-- The groups contain the mark `(output_index, spent_height)` under `height`. -/
def InGroups (groups : List (ℕ × List (UInt32 × UInt32))) (height : ℕ) (m : UInt32 × UInt32) :
    Prop :=
  ∃ marks, (height, marks) ∈ groups ∧ m ∈ marks

theorem inGroups_pushSpend (groups : List (ℕ × List (UInt32 × UInt32))) (creationHeight : ℕ)
    (spend : UInt32 × UInt32) (height : ℕ) (m : UInt32 × UInt32) :
    InGroups (pushSpend creationHeight spend groups) height m ↔
      InGroups groups height m ∨ (height = creationHeight ∧ m = spend) := by
  induction groups with
  | nil => simp [pushSpend, InGroups]
  | cons group groups ih =>
    obtain ⟨height₀, marks₀⟩ := group
    have hcons : ∀ gs : List (ℕ × List (UInt32 × UInt32)), ∀ ms,
        InGroups ((height₀, ms) :: gs) height m ↔ (height = height₀ ∧ m ∈ ms) ∨
          InGroups gs height m := by
      intro gs ms
      constructor
      · rintro ⟨marks, hmem, hm⟩
        rcases List.mem_cons.mp hmem with heq | hmem
        · obtain ⟨rfl, rfl⟩ := Prod.mk.inj heq
          exact Or.inl ⟨rfl, hm⟩
        · exact Or.inr ⟨marks, hmem, hm⟩
      · rintro (⟨rfl, hm⟩ | ⟨marks, hmem, hm⟩)
        · exact ⟨ms, List.mem_cons_self, hm⟩
        · exact ⟨marks, List.mem_cons_of_mem _ hmem, hm⟩
    unfold pushSpend
    split_ifs with hlt heq
    · constructor
      · rintro ⟨marks, hmem, hm⟩
        rcases List.mem_cons.mp hmem with he | hmem
        · obtain ⟨rfl, rfl⟩ := Prod.mk.inj he
          exact Or.inr ⟨rfl, List.mem_singleton.mp hm⟩
        · exact Or.inl ⟨marks, hmem, hm⟩
      · rintro (⟨marks, hmem, hm⟩ | ⟨rfl, rfl⟩)
        · exact ⟨marks, List.mem_cons_of_mem _ hmem, hm⟩
        · exact ⟨[m], List.mem_cons_self, List.mem_singleton_self _⟩
    · rw [hcons, hcons, List.mem_append, List.mem_singleton, heq]
      tauto
    · rw [hcons, hcons, ih]
      tauto

theorem inGroups_groupSpends {spends : List (ℕ × UInt32 × ℕ)}
    {groups : List (ℕ × List (UInt32 × UInt32))} (h : groupSpends spends = .ok groups)
    (height : ℕ) (i s : UInt32) :
    InGroups groups height (i, s) ↔ (height, i, s.toNat) ∈ spends := by
  have := foldlM_prefix_invariant
    (fun pre groups => InGroups groups height (i, s) ↔ (height, i, s.toNat) ∈ pre)
    spends [] [] groups
    (fun spend _ pre groups groups' hs hstep => by
      obtain ⟨c, j, n⟩ := spend
      simp only [bind_eq_ok, tryU32_eq_ok, pure_eq_ok, Except.ok.injEq] at hstep
      obtain ⟨spentHeight, rfl, rfl⟩ := hstep
      rw [inGroups_pushSpend, hs, List.mem_append, List.mem_singleton]
      simp only [Prod.mk.injEq, UInt32.toNat_inj])
    (by simp [InGroups]) h
  simpa using this

end FileArchive

end BitcoinData
