import Mathlib.Data.List.Basic
import Mathlib.Tactic

/-! A commutative operation under which every element is its own inverse: what is combined twice
is gone, so that a total over a window is kept by combining what enters and what leaves. -/

namespace Lib

variable {α : Type}

structure Toggle (op : α → α → α) (zero : α) : Prop where
  comm : ∀ a b, op a b = op b a
  assoc : ∀ a b c, op (op a b) c = op a (op b c)
  zero_op : ∀ a, op zero a = a
  self_op : ∀ a, op a a = zero

namespace Toggle

variable {op : α → α → α} {zero : α}

theorem foldl_eq (h : Toggle op zero) (l : List α) (a : α) :
    l.foldl op a = op a (l.foldl op zero) := by
  induction l generalizing a with
  | nil => rw [List.foldl_nil, List.foldl_nil, h.comm, h.zero_op]
  | cons b l ih => rw [List.foldl_cons, List.foldl_cons, ih, ih (op zero b), h.zero_op, h.assoc]

theorem foldl_append (h : Toggle op zero) (l m : List α) :
    (l ++ m).foldl op zero = op (l.foldl op zero) (m.foldl op zero) := by
  rw [List.foldl_append, h.foldl_eq]

theorem foldl_perm (h : Toggle op zero) {l m : List α} (hp : l.Perm m) :
    l.foldl op zero = m.foldl op zero := by
  induction hp with
  | nil => rfl
  | cons a _ ih => rw [List.foldl_cons, List.foldl_cons, h.foldl_eq, ih, ← h.foldl_eq]
  | swap a b l =>
    rw [List.foldl_cons, List.foldl_cons, List.foldl_cons, List.foldl_cons, h.zero_op, h.zero_op, h.comm]
  | trans _ _ ih₁ ih₂ => exact ih₁.trans ih₂

/-- Combining the oldest elements once more takes them out of the total. -/
theorem foldl_evict (h : Toggle op zero) (old new : List α) :
    old.foldl op ((old ++ new).foldl op zero) = new.foldl op zero := by
  rw [h.foldl_eq old, h.foldl_append, h.comm, ← h.assoc, h.self_op, h.zero_op]

/-- The total of totals. -/
theorem foldl_flatten (h : Toggle op zero) (ls : List (List α)) :
    (ls.map fun l => l.foldl op zero).foldl op zero = ls.flatten.foldl op zero := by
  induction ls with
  | nil => rfl
  | cons l ls ih =>
    rw [List.map_cons, List.foldl_cons, h.zero_op, h.foldl_eq, ih, List.flatten_cons, h.foldl_append]

end Toggle

end Lib
