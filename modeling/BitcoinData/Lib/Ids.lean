import BitcoinData.Lib.Ledger

/-! Identifiers handed out by a counter: a map whose values carry one each, the last one that was
handed out, and those that came free since some point. Keys may be overwritten. -/

namespace Lib

variable {K V : Type} [DecidableEq K]

structure Allocated (idOf : V → ℕ) (m : Finmap fun _ : K => V) (last : ℕ) (freed : List ℕ) :
    Prop where
  le_last : ∀ k v, m.lookup k = some v → idOf v ≤ last
  distinct : ∀ k v k' v', m.lookup k = some v → m.lookup k' = some v' → idOf v = idOf v' → k = k'
  freed_nodup : freed.Nodup
  freed_le : ∀ i ∈ freed, i ≤ last
  freed_gone : ∀ i ∈ freed, ∀ k v, m.lookup k = some v → idOf v ≠ i

variable {idOf : V → ℕ} {m : Finmap fun _ : K => V} {last : ℕ} {freed : List ℕ}

theorem allocated_empty : Allocated idOf (∅ : Finmap fun _ : K => V) 0 [] where
  le_last k v h := by simp at h
  distinct k v _ _ h := by simp at h
  freed_nodup := List.nodup_nil
  freed_le i h := (List.not_mem_nil h).elim
  freed_gone i h := (List.not_mem_nil h).elim

/-- A new point from which to collect. -/
theorem Allocated.restart (h : Allocated idOf m last freed) : Allocated idOf m last [] :=
  { h with
    freed_nodup := List.nodup_nil
    freed_le := fun _ hi => (List.not_mem_nil hi).elim
    freed_gone := fun _ hi => (List.not_mem_nil hi).elim }

theorem Allocated.free (h : Allocated idOf m last freed) {k : K} {v : V} (hk : m.lookup k = some v) :
    Allocated idOf (m.erase k) last (freed ++ [idOf v]) := by
  have hsub : ∀ k' v', (m.erase k).lookup k' = some v' → k' ≠ k ∧ m.lookup k' = some v' := by
    intro k' v' hl
    rw [lookup_erase_ite] at hl
    split_ifs at hl with hne
    exact ⟨hne, hl⟩
  refine ⟨fun k' v' hl => h.le_last k' v' (hsub k' v' hl).2,
    fun k₁ v₁ k₂ v₂ h₁ h₂ => h.distinct k₁ v₁ k₂ v₂ (hsub k₁ v₁ h₁).2 (hsub k₂ v₂ h₂).2, ?_, ?_, ?_⟩
  · rw [List.nodup_append]
    refine ⟨h.freed_nodup, List.nodup_singleton _, fun i hi j hj heq => ?_⟩
    rw [List.mem_singleton.mp hj] at heq
    exact h.freed_gone i hi k v hk heq.symm
  · intro i hi
    rcases List.mem_append.mp hi with hi | hi
    · exact h.freed_le i hi
    · rw [List.mem_singleton.mp hi]
      exact h.le_last k v hk
  · intro i hi k' v' hl heq
    obtain ⟨hne, hl⟩ := hsub k' v' hl
    rcases List.mem_append.mp hi with hi | hi
    · exact h.freed_gone i hi k' v' hl heq
    · rw [List.mem_singleton.mp hi] at heq
      exact hne (h.distinct k' v' k v hl hk heq)

/-- A value with the next identifier, at a new key or over an old value. -/
theorem Allocated.alloc (h : Allocated idOf m last freed) (k : K) {v : V} (hv : idOf v = last + 1) :
    Allocated idOf (m.insert k v) (last + 1) freed := by
  have hcases : ∀ k' v', (m.insert k v).lookup k' = some v' →
      (k' = k ∧ idOf v' = last + 1) ∨ (m.lookup k' = some v' ∧ idOf v' ≤ last) := by
    intro k' v' hl
    rw [lookup_insert_ite] at hl
    split_ifs at hl with hk
    · rw [Option.some.injEq] at hl
      exact Or.inl ⟨hk, hl ▸ hv⟩
    · exact Or.inr ⟨hl, h.le_last k' v' hl⟩
  refine ⟨fun k' v' hl => ?_, fun k₁ v₁ k₂ v₂ h₁ h₂ heq => ?_, h.freed_nodup,
    fun i hi => le_trans (h.freed_le i hi) (Nat.le_succ last), fun i hi k' v' hl heq => ?_⟩
  · rcases hcases k' v' hl with ⟨-, hid⟩ | ⟨-, hle⟩
    · exact le_of_eq hid
    · omega
  · rcases hcases k₁ v₁ h₁ with ⟨hk₁, hid₁⟩ | ⟨hl₁, hle₁⟩
    · rcases hcases k₂ v₂ h₂ with ⟨hk₂, -⟩ | ⟨-, hle₂⟩
      · exact hk₁.trans hk₂.symm
      · omega
    · rcases hcases k₂ v₂ h₂ with ⟨-, hid₂⟩ | ⟨hl₂, -⟩
      · omega
      · exact h.distinct k₁ v₁ k₂ v₂ hl₁ hl₂ heq
  · rcases hcases k' v' hl with ⟨-, hid⟩ | ⟨hl', -⟩
    · have := h.freed_le i hi
      omega
    · exact h.freed_gone i hi k' v' hl' heq

end Lib
