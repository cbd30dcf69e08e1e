import Mathlib.Data.List.Basic
import Mathlib.Tactic

/-! Runs of a state machine whose step is a partial function of the state and
an action chosen by the environment. -/

namespace Lib

variable {σ α : Type} {step : σ → α → Option σ}

/-- The state after a list of actions, if every one of them was enabled. -/
def run (step : σ → α → Option σ) (s : σ) (acts : List α) : Option σ :=
  acts.foldlM step s

@[simp] theorem run_nil (s : σ) : run step s [] = some s := rfl

theorem run_cons (s : σ) (a : α) (acts : List α) :
    run step s (a :: acts) = (step s a).bind fun s' => run step s' acts := rfl

theorem run_cons_eq_some {s s' : σ} {a : α} {acts : List α} :
    run step s (a :: acts) = some s' ↔ ∃ s₁, step s a = some s₁ ∧ run step s₁ acts = some s' := by
  rw [run_cons]
  cases step s a <;> simp

/-- What every enabled step preserves holds at the end of every run. -/
theorem run_invariant {I : σ → Prop} {s s' : σ} {acts : List α}
    (hstep : ∀ a ∈ acts, ∀ s s', I s → step s a = some s' → I s') (hs : I s)
    (h : run step s acts = some s') : I s' := by
  induction acts generalizing s with
  | nil =>
    rw [run_nil, Option.some.injEq] at h
    exact h ▸ hs
  | cons a acts ih =>
    obtain ⟨s₁, h₁, h₂⟩ := run_cons_eq_some.mp h
    exact ih (fun b hb => hstep b (List.mem_cons_of_mem _ hb)) (hstep a (by simp) s s₁ hs h₁) h₂

/-- The same rule when a step is only known to preserve the property into states that
satisfy a condition, and every state on the run does. -/
theorem run_invariant_of_states {I P : σ → Prop} {s s' : σ} {acts : List α}
    (hstep : ∀ a s s', I s → step s a = some s' → P s' → I s') (hs : I s)
    (h : run step s acts = some s')
    (hP : ∀ pre, pre <+: acts → ∀ t, run step s pre = some t → P t) : I s' := by
  induction acts generalizing s with
  | nil =>
    rw [run_nil, Option.some.injEq] at h
    exact h ▸ hs
  | cons a acts ih =>
    obtain ⟨s₁, h₁, h₂⟩ := run_cons_eq_some.mp h
    have hnext : ∀ pre, pre <+: acts → ∀ t, run step s₁ pre = some t → P t := by
      intro pre hpre t ht
      apply hP (a :: pre) (List.cons_prefix_cons.mpr ⟨rfl, hpre⟩) t
      exact run_cons_eq_some.mpr ⟨s₁, h₁, ht⟩
    exact ih (hstep a s s₁ hs h₁ (hnext [] (List.nil_prefix) s₁ rfl)) h₂ hnext

/-- Steps that keep the invariant and use up a measure: a run of them is no longer than
the measure it uses up. -/
theorem run_measure {I : σ → Prop} {μ : σ → ℕ} {s s' : σ} {acts : List α}
    (hstep : ∀ a ∈ acts, ∀ s s', I s → step s a = some s' → I s' ∧ μ s' < μ s) (hs : I s)
    (h : run step s acts = some s') : I s' ∧ acts.length + μ s' ≤ μ s := by
  induction acts generalizing s with
  | nil =>
    rw [run_nil, Option.some.injEq] at h
    subst h
    exact ⟨hs, by simp⟩
  | cons a acts ih =>
    obtain ⟨s₁, h₁, h₂⟩ := run_cons_eq_some.mp h
    obtain ⟨hs₁, hlt⟩ := hstep a List.mem_cons_self s s₁ hs h₁
    obtain ⟨hs', hle⟩ := ih (fun b hb => hstep b (List.mem_cons_of_mem _ hb)) hs₁ h₂
    refine ⟨hs', ?_⟩
    rw [List.length_cons]
    omega

/-! ## Objects that answer -/

variable {τ ρ : Type}

/-- The answers to a list of requests, in order, and the state after them. -/
def answers (f : σ → α → ρ × σ) : σ → List α → List ρ × σ
  | s, [] => ([], s)
  | s, a :: as =>
    let (reply, s) := f s a
    let (replies, s) := answers f s as
    (reply :: replies, s)

theorem answers_append (f : σ → α → ρ × σ) (s : σ) (as bs : List α) :
    (answers f s (as ++ bs)).2 = (answers f (answers f s as).2 bs).2 := by
  induction as generalizing s with
  | nil => rfl
  | cons a as ih => exact ih (f s a).2

/-- Two objects that answer alike in related states, and stay related, answer every list of
requests alike. -/
theorem answers_simulate {f : σ → α → ρ × σ} {g : τ → α → ρ × τ} {R : σ → τ → Prop}
    {as : List α} (hstep : ∀ a ∈ as, ∀ s t, R s t → (f s a).1 = (g t a).1 ∧ R (f s a).2 (g t a).2)
    {s : σ} {t : τ} (h : R s t) :
    (answers f s as).1 = (answers g t as).1 ∧ R (answers f s as).2 (answers g t as).2 := by
  induction as generalizing s t with
  | nil => exact ⟨rfl, h⟩
  | cons a as ih =>
    obtain ⟨hreply, hnext⟩ := hstep a List.mem_cons_self s t h
    obtain ⟨hreplies, hend⟩ := ih (fun b hb => hstep b (List.mem_cons_of_mem _ hb)) hnext
    refine ⟨?_, hend⟩
    simp only [answers, hreply, hreplies]

end Lib
