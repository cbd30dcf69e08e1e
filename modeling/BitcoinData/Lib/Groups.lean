import Mathlib.Data.List.Basic
import Mathlib.Tactic

/-! Groups without separators: every element says whether its group goes on behind it. A list can be
split into such groups in one way only. -/

namespace Lib

variable {α : Type} {continues : α → Bool} {g g' : List α}

/-- Elements that continue, and one that does not. -/
inductive IsGroup (continues : α → Bool) : List α → Prop
  | last {a : α} : continues a = false → IsGroup continues [a]
  | more {a : α} {g : List α} : continues a = true → IsGroup continues g → IsGroup continues (a :: g)

theorem isGroup_append {init : List α} {last : α} (hinit : ∀ a ∈ init, continues a = true)
    (hlast : continues last = false) : IsGroup continues (init ++ [last]) := by
  induction init with
  | nil => exact .last hlast
  | cons a init ih =>
    rw [List.forall_mem_cons] at hinit
    exact .more hinit.1 (ih hinit.2)

theorem IsGroup.ne_nil (h : IsGroup continues g) : g ≠ [] := by
  rintro rfl
  cases h

theorem IsGroup.exists_last (h : IsGroup continues g) :
    ∃ init last, g = init ++ [last] ∧ continues last = false := by
  induction h with
  | @last a ha => exact ⟨[], a, rfl, ha⟩
  | @more a g _ _ ih =>
    obtain ⟨init, last, rfl, hlast⟩ := ih
    exact ⟨a :: init, last, rfl, hlast⟩

/-- Two groups at the front of one list are one. -/
theorem IsGroup.append_inj (h : IsGroup continues g) (h' : IsGroup continues g') {rest rest' : List α}
    (heq : g ++ rest = g' ++ rest') : g = g' ∧ rest = rest' := by
  induction h generalizing g' with
  | @last a ha =>
    cases h' with
    | last _ => simpa using heq
    | more ha' _ =>
      obtain ⟨rfl, -⟩ := List.cons_eq_cons.mp heq
      rw [ha] at ha'
      cases ha'
  | @more a g ha _ ih =>
    cases h' with
    | last ha' =>
      obtain ⟨rfl, -⟩ := List.cons_eq_cons.mp heq
      rw [ha] at ha'
      cases ha'
    | more _ hg' =>
      obtain ⟨rfl, htail⟩ := List.cons_eq_cons.mp heq
      obtain ⟨rfl, hrest⟩ := ih hg' htail
      exact ⟨rfl, hrest⟩

/-- A group that begins with an element that continues goes on behind it. -/
theorem IsGroup.tail_of_continues (h : IsGroup continues g) {a : α} (ha : continues a = true)
    {l rest : List α} (heq : a :: l = g ++ rest) :
    ∃ g', g = a :: g' ∧ IsGroup continues g' ∧ l = g' ++ rest := by
  cases h with
  | last ha' =>
    obtain ⟨rfl, -⟩ := List.cons_eq_cons.mp heq
    rw [ha] at ha'
    cases ha'
  | @more _ g' _ hg' =>
    obtain ⟨rfl, htail⟩ := List.cons_eq_cons.mp heq
    exact ⟨g', rfl, hg', htail⟩

/-- A list as groups and what stands behind them. -/
structure SplitsInto (continues : α → Bool) (l : List α) (groups : List (List α)) (rest : List α) :
    Prop where
  eq : l = groups.flatten ++ rest
  isGroup : ∀ g ∈ groups, IsGroup continues g

variable {l rest rest' : List α} {groups groups' : List (List α)}

theorem splitsInto_nil : SplitsInto continues l [] rest ↔ l = rest :=
  ⟨fun h => h.eq, fun h => ⟨h, nofun⟩⟩

theorem splitsInto_cons : SplitsInto continues l (g :: groups) rest ↔
    IsGroup continues g ∧ ∃ l', l = g ++ l' ∧ SplitsInto continues l' groups rest := by
  refine ⟨?_, ?_⟩
  · rintro ⟨heq, hall⟩
    rw [List.forall_mem_cons] at hall
    exact ⟨hall.1, _, by rw [heq, List.flatten_cons, List.append_assoc], rfl, hall.2⟩
  · rintro ⟨hg, l', rfl, heq, hall⟩
    exact ⟨by rw [heq, List.flatten_cons, List.append_assoc], List.forall_mem_cons.mpr ⟨hg, hall⟩⟩

/-- Of two ways to split off groups, the shorter is the beginning of the longer. -/
theorem SplitsInto.prefix_of_le (h : SplitsInto continues l groups rest)
    (h' : SplitsInto continues l groups' rest') (hle : groups.length ≤ groups'.length) :
    groups <+: groups' := by
  induction groups generalizing l groups' with
  | nil => exact List.nil_prefix
  | cons g groups ih =>
    cases groups' with
    | nil => simp at hle
    | cons g' groups' =>
      obtain ⟨hg, l₁, hl, htail⟩ := splitsInto_cons.mp h
      obtain ⟨hg', l₂, hl', htail'⟩ := splitsInto_cons.mp h'
      obtain ⟨rfl, rfl⟩ := hg.append_inj hg' (hl.symm.trans hl')
      exact List.cons_prefix_cons.mpr ⟨rfl, ih htail htail' (Nat.le_of_succ_le_succ hle)⟩

theorem SplitsInto.eq_of_length (h : SplitsInto continues l groups rest)
    (h' : SplitsInto continues l groups' rest') (hlen : groups.length = groups'.length) :
    groups = groups' :=
  (h.prefix_of_le h' hlen.le).eq_of_length hlen

end Lib
