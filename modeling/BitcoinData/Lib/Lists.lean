import Mathlib.Data.List.Basic
import Mathlib.Data.List.MinMax
import Mathlib.Data.List.Sort
import Mathlib.Data.List.TakeWhile
import Mathlib.Tactic

/-! Positions in a list: the positions of the elements that satisfy a predicate,
and those of the others. Then prefixes, trimming, and folds that add and remove elements of a set. -/

namespace Lib

variable {α : Type}

/-- The positions of the elements selected by `f`, ascending. -/
theorem positions_eq (f : α → Bool) (l : List α) :
    (l.zipIdx.filter fun p => f p.1).map (·.2) =
      (List.range l.length).filter fun k => (l[k]?).any f := by
  induction l using List.reverseRecOn with
  | nil => rfl
  | append_singleton l a ih =>
    have hlast : (l ++ [a])[l.length]? = some a := by simp
    have hinit : (List.range l.length).filter (fun k => ((l ++ [a])[k]?).any f) =
        (List.range l.length).filter fun k => (l[k]?).any f := by
      apply List.filter_congr
      intro k hk
      rw [List.getElem?_append_left (List.mem_range.mp hk)]
    rw [List.zipIdx_append, List.filter_append, List.map_append, ih, List.length_append,
      List.length_singleton, List.range_succ, List.filter_append, hinit]
    cases hf : f a <;> simp [hf]

theorem sortedLT_positions (f : ℕ → Bool) (n : ℕ) :
    ((List.range n).filter f).Pairwise (· < ·) :=
  List.Pairwise.filter _ List.pairwise_lt_range

/-- The positions that are not selected are the positions of the others. -/
theorem filter_notMem_positions (f : α → Bool) (l : List α) :
    ((List.range l.length).filter fun k =>
      decide (k ∉ (List.range l.length).filter fun k => (l[k]?).any f)) =
      (List.range l.length).filter fun k => (l[k]?).any fun a => !f a := by
  apply List.filter_congr
  intro k hk
  have hk' := List.mem_range.mp hk
  rw [List.getElem?_eq_getElem hk']
  simp [hk']

/-! ## Numbered and related lists -/

theorem zipIdx_drop (l : List α) (n k : ℕ) : (l.zipIdx n).drop k = (l.drop k).zipIdx (n + k) := by
  induction l generalizing n k with
  | nil => simp
  | cons a l ih =>
    cases k with
    | zero => rfl
    | succ k =>
      rw [List.zipIdx_cons, List.drop_succ_cons, List.drop_succ_cons, ih, Nat.add_assoc, Nat.add_comm 1]

theorem zipIdx_take (l : List α) (n k : ℕ) : (l.zipIdx n).take k = (l.take k).zipIdx n := by
  induction l generalizing n k with
  | nil => simp
  | cons a l ih =>
    cases k with
    | zero => rfl
    | succ k => rw [List.zipIdx_cons, List.take_succ_cons, List.take_succ_cons, ih, List.zipIdx_cons]

theorem forall₂_getElem? {β : Type} {R : α → β → Prop} {l : List α} {l' : List β}
    (h : List.Forall₂ R l l') {k : ℕ} {b : β} (hb : l'[k]? = some b) : ∃ a, l[k]? = some a ∧ R a b := by
  induction h generalizing k with
  | nil => cases hb
  | cons hab _ ih =>
    cases k with
    | zero =>
      obtain rfl := Option.some.inj hb
      exact ⟨_, rfl, hab⟩
    | succ k => exact ih hb

theorem map_eq_of_forall₂ {β γ : Type} {R : α → β → Prop} {f : α → γ} {g : β → γ} {l : List α}
    {l' : List β} (h : List.Forall₂ R l l') (hfg : ∀ a b, R a b → g b = f a) : l'.map g = l.map f := by
  induction h with
  | nil => rfl
  | cons hab _ ih => rw [List.map_cons, List.map_cons, hfg _ _ hab, ih]

/-! ## Prefixes -/

theorem append_prefix_iff {xs ys l : List α} :
    xs ++ ys <+: l ↔ xs <+: l ∧ ys <+: l.drop xs.length := by
  refine ⟨?_, ?_⟩
  · rintro ⟨t, rfl⟩
    refine ⟨⟨ys ++ t, (List.append_assoc xs ys t).symm⟩, t, ?_⟩
    rw [List.append_assoc, List.drop_left]
  · rintro ⟨⟨l', rfl⟩, t, ht⟩
    rw [List.drop_left] at ht
    exact ⟨t, by rw [List.append_assoc, ht]⟩

/-- In a strictly descending list, an element is among the first `k` when fewer than `k` are
greater. -/
theorem notMem_drop_iff [LinearOrder α] {l : List α} (h : l.Pairwise (· > ·)) {x : α} (hx : x ∈ l)
    (k : ℕ) : x ∉ l.drop k ↔ l.countP (x < ·) < k := by
  induction l generalizing k with
  | nil => cases hx
  | cons a l ih =>
    rw [List.pairwise_cons] at h
    cases k with
    | zero => exact iff_of_false (fun hout => hout hx) (Nat.not_lt_zero _)
    | succ k =>
      rw [List.drop_succ_cons, List.countP_cons]
      rcases List.mem_cons.mp hx with rfl | hx
      · have hnone : l.countP (x < ·) = 0 := by
          rw [List.countP_eq_zero]
          intro b hb
          have := h.1 b hb
          simp [this.le]
        have hout : x ∉ l.drop k := fun hmem => lt_irrefl x (h.1 x (List.mem_of_mem_drop hmem))
        simp [hnone, hout]
      · have hlt : x < a := h.1 x hx
        rw [ih h.2 hx]
        simp [hlt]

/-- With distinct keys, the element of the least key does not depend on the order. -/
theorem argmin_perm {β : Type} [LinearOrder β] {f : α → β} (hf : Function.Injective f)
    {l l' : List α} (h : l.Perm l') : l.argmin f = l'.argmin f := by
  cases hm : l.argmin f with
  | none =>
    rw [List.argmin_eq_none] at hm
    subst hm
    rw [← h.nil_eq]
    rfl
  | some m =>
    cases hm' : l'.argmin f with
    | none =>
      rw [List.argmin_eq_none] at hm'
      subst hm'
      rw [h.eq_nil] at hm
      cases hm
    | some m' =>
      -- each is the least, so they have one key
      have hle := List.le_of_mem_argmin (h.mem_iff.mpr (List.argmin_mem hm')) hm
      have hle' := List.le_of_mem_argmin (h.mem_iff.mp (List.argmin_mem hm)) hm'
      rw [hf (le_antisymm hle hle')]

/-! ## Trimming -/

theorem mem_dropWhile {p : α → Bool} {l : List α} {a : α} (h : a ∈ l) (hp : p a = false) :
    a ∈ l.dropWhile p := by
  rw [← List.takeWhile_append_dropWhile (p := p) (l := l), List.mem_append] at h
  rcases h with h | h
  · rw [List.mem_takeWhile_imp h] at hp
    cases hp
  · exact h

/-- What is between elements to trim, if none of it is one. -/
theorem trim_append {p : α → Bool} {before l after : List α} (hbefore : ∀ a ∈ before, p a = true)
    (hafter : ∀ a ∈ after, p a = true) (hl : ∀ a ∈ l, p a = false) (hne : l ≠ []) :
    (((before ++ l ++ after).dropWhile p).reverse.dropWhile p).reverse = l := by
  have hkeep : ∀ {l rest : List α}, (∀ a ∈ l, p a = false) → l ≠ [] →
      (l ++ rest).dropWhile p = l ++ rest := by
    intro l rest hl hne
    obtain ⟨a, l, rfl⟩ := List.exists_cons_of_ne_nil hne
    rw [List.cons_append, List.dropWhile_cons_of_neg]
    rw [hl a List.mem_cons_self]
    decide
  rw [List.append_assoc, List.dropWhile_append_of_pos hbefore, hkeep hl hne, List.reverse_append,
    List.dropWhile_append_of_pos fun a ha => hafter a (List.mem_reverse.mp ha)]
  rw [← List.append_nil l.reverse,
    hkeep (fun a ha => hl a (List.mem_reverse.mp ha)) (by simpa using hne),
    List.append_nil, List.reverse_reverse]

/-! ## Adding and removing -/

/-- A set after steps that each add some elements and then remove some. Where nothing is
added after it was removed, the order of the steps does not matter. -/
theorem mem_foldl_exchange [DecidableEq α] {steps : List (Finset α × Finset α)} {start : Finset α}
    (h : steps.Pairwise fun earlier later => Disjoint earlier.2 later.1) (x : α) :
    x ∈ steps.foldl (fun s step => (s ∪ step.1) \ step.2) start ↔
      (x ∈ start ∨ ∃ step ∈ steps, x ∈ step.1) ∧ ∀ step ∈ steps, x ∉ step.2 := by
  induction steps generalizing start with
  | nil => simp
  | cons step steps ih =>
    obtain ⟨hhead, htail⟩ := List.pairwise_cons.mp h
    rw [List.foldl_cons, ih htail]
    simp only [Finset.mem_sdiff, Finset.mem_union, List.mem_cons, exists_eq_or_imp, forall_eq_or_imp]
    refine ⟨?_, ?_⟩
    · rintro ⟨⟨hin, hout⟩ | ⟨later, hmem, hx⟩, hnone⟩
      · exact ⟨hin.elim Or.inl fun hx => Or.inr (Or.inl hx), hout, hnone⟩
      · exact ⟨Or.inr (Or.inr ⟨later, hmem, hx⟩),
          Finset.disjoint_right.mp (hhead later hmem) hx, hnone⟩
    · rintro ⟨hx | hx | hx, hout, hnone⟩
      · exact ⟨Or.inl ⟨Or.inl hx, hout⟩, hnone⟩
      · exact ⟨Or.inl ⟨Or.inr hx, hout⟩, hnone⟩
      · exact ⟨Or.inr hx, hnone⟩

end Lib
