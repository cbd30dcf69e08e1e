import Mathlib.Data.List.Perm.Basic
import Mathlib.Data.List.Sort
import Mathlib.Tactic

/-! Tasks that run beside each other, a bounded number of them at a time, and finish in any order.
Whatever the order, every task finishes once; sorting the results by a key of the tasks brings back
the order in which they were given. -/

namespace Lib

section
variable {α : Type}

/-- The orders in which the tasks that wait and the tasks that run may finish. A task is started
when fewer than `limit` run; any of those that run may finish next. -/
inductive Completes (limit : ℕ) : List α → List α → List α → Prop
  | done : Completes limit [] [] []
  | start {task waiting running order} : running.length < limit →
    Completes limit waiting (running ++ [task]) order →
    Completes limit (task :: waiting) running order
  | finish {task waiting before after order} : Completes limit waiting (before ++ after) order →
    Completes limit waiting (before ++ task :: after) (task :: order)

variable {limit : ℕ} {waiting running order : List α}

theorem Completes.perm (h : Completes limit waiting running order) :
    order.Perm (running ++ waiting) := by
  induction h with
  | done => exact List.Perm.refl _
  | start _ _ ih => simpa using ih
  | finish _ ih =>
    rw [List.append_assoc, List.cons_append]
    rw [List.append_assoc] at ih
    exact (ih.cons _).trans List.perm_middle.symm

/-- One after the other, if at least one may run. -/
theorem completes_in_order (hlimit : 1 ≤ limit) (tasks : List α) :
    Completes limit tasks [] tasks := by
  induction tasks with
  | nil => exact .done
  | cons task tasks ih =>
    have hrun : Completes limit tasks ([] ++ task :: []) (task :: tasks) := .finish ih
    exact .start (Nat.lt_of_lt_of_le Nat.zero_lt_one hlimit) hrun

/-- Two tasks beside each other, the second of them first. -/
theorem completes_swapped (hlimit : 2 ≤ limit) (a b : α) : Completes limit [a, b] [] [b, a] := by
  have hlast : Completes limit [] ([] ++ a :: []) [a] := .finish .done
  have hboth : Completes limit [] ([a] ++ b :: []) [b, a] := .finish hlast
  exact .start (by simp; omega) (.start (by simp; omega) hboth)

end

section
variable {α β : Type} [LinearOrder α]

/-- With distinct keys, what is sorted does not depend on the order. -/
theorem insertionSort_of_perm {key : β → α} {l l' : List β} (h : l.Perm l')
    (hkey : (l.map key).Nodup) :
    l.insertionSort (fun x y => key x ≤ key y) = l'.insertionSort (fun x y => key x ≤ key y) := by
  have htotal : Std.Total fun x y : β => key x ≤ key y := ⟨fun x y => le_total (key x) (key y)⟩
  have htrans : IsTrans β fun x y => key x ≤ key y := ⟨fun _ _ _ => le_trans⟩
  have hmem : ∀ x, x ∈ l'.insertionSort (fun x y => key x ≤ key y) → x ∈ l := fun x hx =>
    h.mem_iff.mpr ((List.perm_insertionSort _ _).mem_iff.mp hx)
  refine List.Perm.eq_of_pairwise (fun x y hx hy hxy hyx => ?_) (List.pairwise_insertionSort _ l)
    (List.pairwise_insertionSort _ l') ?_
  · have hx := (List.perm_insertionSort _ _).mem_iff.mp hx
    exact List.inj_on_of_nodup_map hkey hx (hmem y hy) (le_antisymm hxy hyx)
  · exact (List.perm_insertionSort _ _).trans (h.trans (List.perm_insertionSort _ _).symm)

/-- Results of tasks in any order, sorted by the task that each belongs to. -/
theorem insertionSort_results {f : α → β} {key : β → α} {tasks order : List α}
    (hsorted : tasks.Pairwise (· < ·)) (hkey : ∀ a ∈ tasks, key (f a) = a)
    (hperm : order.Perm tasks) :
    (order.map f).insertionSort (fun x y => key x ≤ key y) = tasks.map f := by
  have hresults : ((order.map f).insertionSort fun x y => key x ≤ key y).Perm (tasks.map f) :=
    (List.perm_insertionSort _ _).trans (hperm.map f)
  have hin : (tasks.map f).Pairwise fun x y => key x ≤ key y := by
    rw [List.pairwise_map]
    apply hsorted.imp_of_mem
    intro a b ha hb hlt
    rw [hkey a ha, hkey b hb]
    exact hlt.le
  have hout : ((order.map f).insertionSort fun x y => key x ≤ key y).Pairwise
      fun x y => key x ≤ key y := by
    have htotal : Std.Total fun x y : β => key x ≤ key y := ⟨fun x y => le_total (key x) (key y)⟩
    have htrans : IsTrans β fun x y => key x ≤ key y := ⟨fun _ _ _ => le_trans⟩
    exact List.pairwise_insertionSort _ _
  refine List.Perm.eq_of_pairwise (fun x y hx hy hxy hyx => ?_) hout hin hresults
  obtain ⟨a, ha, rfl⟩ := List.mem_map.mp (hresults.mem_iff.mp hx)
  obtain ⟨b, hb, rfl⟩ := List.mem_map.mp hy
  rw [hkey a ha, hkey b hb] at hxy hyx
  rw [le_antisymm hxy hyx]

end

end Lib
