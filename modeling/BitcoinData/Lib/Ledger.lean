import Mathlib.Data.Finmap
import Mathlib.Tactic

/-! A finite map that changes by two kinds of events: a key is given a value, or a
key is taken away together with the value it holds. The lemmas relate the map
after a list of events to the map before it, to the values put and to the values
taken. -/

namespace Lib

variable {K V : Type}

inductive Event (K V : Type)
  | put (k : K) (v : V)
  | take (k : K) (v : V)

/-- The map `m` becomes `m'` by the events; a value is only taken where it is held. -/
def Exec [DecidableEq K] (m : Finmap fun _ : K => V) : List (Event K V) → (Finmap fun _ : K => V) → Prop
  | [], m' => m = m'
  | .put k v :: l, m' => Exec (m.insert k v) l m'
  | .take k v :: l, m' => m.lookup k = some v ∧ Exec (m.erase k) l m'

def puts : List (Event K V) → List (K × V)
  | [] => []
  | .put k v :: l => (k, v) :: puts l
  | .take _ _ :: l => puts l

def takes : List (Event K V) → List (K × V)
  | [] => []
  | .put _ _ :: l => takes l
  | .take k v :: l => (k, v) :: takes l

theorem puts_append (l l' : List (Event K V)) : puts (l ++ l') = puts l ++ puts l' := by
  induction l with
  | nil => rfl
  | cons e l ih => cases e <;> simp [puts, ih]

theorem takes_append (l l' : List (Event K V)) : takes (l ++ l') = takes l ++ takes l' := by
  induction l with
  | nil => rfl
  | cons e l ih => cases e <;> simp [takes, ih]

variable [DecidableEq K]

theorem lookup_insert_ite (m : Finmap fun _ : K => V) (k k' : K) (v : V) :
    (m.insert k v).lookup k' = if k' = k then some v else m.lookup k' := by
  split_ifs with h
  · rw [h, Finmap.lookup_insert]
  · rw [Finmap.lookup_insert_of_ne m h]

theorem lookup_erase_ite (m : Finmap fun _ : K => V) (k k' : K) :
    (m.erase k).lookup k' = if k' = k then none else m.lookup k' := by
  split_ifs with h
  · rw [h, Finmap.lookup_erase]
  · rw [Finmap.lookup_erase_ne h]

variable {m m' : Finmap fun _ : K => V} {l l' : List (Event K V)}

theorem exec_append : Exec m (l ++ l') m' ↔ ∃ m₁, Exec m l m₁ ∧ Exec m₁ l' m' := by
  induction l generalizing m with
  | nil => simp [Exec]
  | cons e l ih =>
    cases e with
    | put k v => exact ih
    | take k v => simp only [List.cons_append, Exec, ih, and_assoc, exists_and_left]

/-- A value held at the end was held at the start or put on the way. -/
theorem lookup_of_exec (h : Exec m l m') {k : K} {v : V} (hk : m'.lookup k = some v) :
    m.lookup k = some v ∨ (k, v) ∈ puts l := by
  induction l generalizing m with
  | nil => exact Or.inl (h ▸ hk)
  | cons e l ih =>
    cases e with
    | put k₁ v₁ =>
      rcases ih h with h₁ | h₁
      · rw [lookup_insert_ite] at h₁
        split_ifs at h₁ with he
        · right
          simp only [Option.some.injEq] at h₁
          simp [puts, he, h₁]
        · exact Or.inl h₁
      · exact Or.inr (List.mem_cons_of_mem _ h₁)
    | take k₁ v₁ =>
      rcases ih h.2 with h₁ | h₁
      · rw [lookup_erase_ite] at h₁
        split_ifs at h₁
        exact Or.inl h₁
      · exact Or.inr h₁

/-- A value taken was held at the start or put on the way. -/
theorem source_of_take (h : Exec m l m') {k : K} {v : V} (hk : (k, v) ∈ takes l) :
    m.lookup k = some v ∨ (k, v) ∈ puts l := by
  induction l generalizing m with
  | nil => simp [takes] at hk
  | cons e l ih =>
    cases e with
    | put k₁ v₁ =>
      rcases ih h hk with h₁ | h₁
      · rw [lookup_insert_ite] at h₁
        split_ifs at h₁ with he
        · right
          simp only [Option.some.injEq] at h₁
          simp [puts, he, h₁]
        · exact Or.inl h₁
      · exact Or.inr (List.mem_cons_of_mem _ h₁)
    | take k₁ v₁ =>
      rcases List.mem_cons.mp hk with he | hk
      · obtain ⟨rfl, rfl⟩ := Prod.mk.inj he
        exact Or.inl h.1
      rcases ih h.2 hk with h₁ | h₁
      · rw [lookup_erase_ite] at h₁
        split_ifs at h₁
        exact Or.inl h₁
      · exact Or.inr h₁

/-- When no pair is put twice, and none that is held at the start is put again,
a pair that was taken is gone at the end and is taken once. -/
theorem taken_is_gone (h : Exec m l m') (hnd : (puts l).Nodup)
    (hfresh : ∀ k v, (k, v) ∈ puts l → m.lookup k ≠ some v) :
    (takes l).Nodup ∧ ∀ k v, (k, v) ∈ takes l → m'.lookup k ≠ some v := by
  induction l generalizing m with
  | nil => simp [takes]
  | cons e l ih =>
    cases e with
    | put k₁ v₁ =>
      simp only [puts, List.nodup_cons] at hnd
      apply ih h hnd.2
      intro k v hp
      rw [lookup_insert_ite]
      split_ifs with he
      · intro hv
        simp only [Option.some.injEq] at hv
        exact hnd.1 (by rw [hv, ← he]; exact hp)
      · exact hfresh k v (List.mem_cons_of_mem _ hp)
    | take k₁ v₁ =>
      obtain ⟨h₀, h⟩ := h
      obtain ⟨hN, hgone⟩ := ih h hnd fun k v hp hv => by
        rw [lookup_erase_ite] at hv
        split_ifs at hv
        exact hfresh k v hp hv
      -- after the event the pair is not held, and no later event puts it
      have hno : (k₁, v₁) ∉ puts l := fun hp => hfresh k₁ v₁ hp h₀
      have hleft : (m.erase k₁).lookup k₁ ≠ some v₁ := by rw [Finmap.lookup_erase]; simp
      refine ⟨List.nodup_cons.mpr ⟨fun ht => ?_, hN⟩, fun k v hk => ?_⟩
      · exact (source_of_take h ht).elim hleft hno
      · rcases List.mem_cons.mp hk with he | hk
        · obtain ⟨rfl, rfl⟩ := Prod.mk.inj he
          exact fun hv => (lookup_of_exec h hv).elim hleft hno
        · exact hgone k v hk

/-- A value held at the start stays unless its key is taken or put. -/
theorem kept_of_exec (h : Exec m l m') {k : K} (hp : k ∉ (puts l).map Prod.fst)
    (ht : k ∉ (takes l).map Prod.fst) : m'.lookup k = m.lookup k := by
  induction l generalizing m with
  | nil => rw [← h]
  | cons e l ih =>
    cases e with
    | put k₁ v₁ =>
      simp only [puts, List.map_cons, List.mem_cons, not_or] at hp
      rw [ih h hp.2 ht, lookup_insert_ite, if_neg hp.1]
    | take k₁ v₁ =>
      simp only [takes, List.map_cons, List.mem_cons, not_or] at ht
      rw [ih h.2 hp ht.2, lookup_erase_ite, if_neg ht.1]

/-- All puts in order, then all takes. -/
def settle (m : Finmap fun _ : K => V) (ps ts : List (K × V)) : Finmap fun _ : K => V :=
  ts.foldl (fun m p => m.erase p.1) (ps.foldl (fun m p => m.insert p.1 p.2) m)

theorem lookup_foldl_insert_of_notMem (ps : List (K × V)) {k : K} (h : k ∉ ps.map Prod.fst) :
    (ps.foldl (fun m p => m.insert p.1 p.2) m).lookup k = m.lookup k := by
  induction ps generalizing m with
  | nil => rfl
  | cons p ps ih =>
    simp only [List.map_cons, List.mem_cons, not_or] at h
    rw [List.foldl_cons, ih h.2, lookup_insert_ite, if_neg h.1]

theorem lookup_foldl_insert_of_mem (ps : List (K × V)) (hnd : (ps.map Prod.fst).Nodup) {k : K}
    {v : V} (h : (k, v) ∈ ps) : (ps.foldl (fun m p => m.insert p.1 p.2) m).lookup k = some v := by
  induction ps generalizing m with
  | nil => simp at h
  | cons p ps ih =>
    simp only [List.map_cons, List.nodup_cons] at hnd
    rw [List.foldl_cons]
    rcases List.mem_cons.mp h with rfl | h
    · rw [lookup_foldl_insert_of_notMem ps hnd.1, lookup_insert_ite, if_pos rfl]
    · exact ih hnd.2 h

theorem lookup_foldl_erase (ps : List (K × V)) (k : K) :
    (ps.foldl (fun m p => m.erase p.1) m).lookup k =
      if k ∈ ps.map Prod.fst then none else m.lookup k := by
  induction ps generalizing m with
  | nil => rfl
  | cons p ps ih =>
    rw [List.foldl_cons, ih, lookup_erase_ite]
    by_cases hk : k = p.1
    · simp [hk]
    · rw [if_neg hk]
      simp only [List.map_cons, List.mem_cons, hk, false_or]

/-- Interleaved or settled, the events give the same map when each key is put at
most once and none of these keys is held at the start. -/
theorem exec_eq_settle (h : Exec m l m') (hnd : ((puts l).map Prod.fst).Nodup)
    (hnew : ∀ k ∈ (puts l).map Prod.fst, m.lookup k = none) : m' = settle m (puts l) (takes l) := by
  apply Finmap.ext_lookup
  intro k
  rw [settle, lookup_foldl_erase]
  induction l generalizing m with
  | nil =>
    obtain rfl : m = m' := h
    rfl
  | cons e l ih =>
    cases e with
    | put k₁ v₁ =>
      simp only [puts, List.map_cons, List.nodup_cons] at hnd
      have hnew' : ∀ k ∈ (puts l).map Prod.fst, (m.insert k₁ v₁).lookup k = none := by
        intro k hk
        rw [lookup_insert_ite, if_neg (fun he : k = k₁ => hnd.1 (he ▸ hk))]
        exact hnew k (List.mem_cons_of_mem _ hk)
      exact ih h hnd.2 hnew'
    | take k₁ v₁ =>
      obtain ⟨h₀, h⟩ := h
      simp only [puts] at hnd hnew
      -- the taken key is held, so no event puts it
      have hk₁ : k₁ ∉ (puts l).map Prod.fst := fun hk => by
        have := hnew k₁ hk
        rw [h₀] at this
        cases this
      have hnew' : ∀ k ∈ (puts l).map Prod.fst, (m.erase k₁).lookup k = none := by
        intro k hk
        rw [lookup_erase_ite, if_neg (fun he : k = k₁ => hk₁ (he ▸ hk))]
        exact hnew k hk
      rw [ih h hnd hnew']
      simp only [takes, puts, List.map_cons, List.mem_cons]
      by_cases hk : k = k₁
      · subst hk
        simp only [true_or, if_true]
        rw [lookup_foldl_insert_of_notMem _ hk₁, Finmap.lookup_erase, ite_self]
      · simp only [hk, false_or]
        congr 1
        by_cases hkp : k ∈ (puts l).map Prod.fst
        · obtain ⟨p, hp, rfl⟩ := List.mem_map.mp hkp
          rw [lookup_foldl_insert_of_mem _ hnd hp, lookup_foldl_insert_of_mem _ hnd hp]
        · rw [lookup_foldl_insert_of_notMem _ hkp, lookup_foldl_insert_of_notMem _ hkp,
            lookup_erase_ite, if_neg hk]

theorem lookup_foldl_insert_congr {n : Finmap fun _ : K => V} (ps : List (K × V)) {k : K}
    (h : m.lookup k = n.lookup k) :
    (ps.foldl (fun m p => m.insert p.1 p.2) m).lookup k =
      (ps.foldl (fun m p => m.insert p.1 p.2) n).lookup k := by
  induction ps generalizing m n with
  | nil => exact h
  | cons p ps ih =>
    rw [List.foldl_cons, List.foldl_cons]
    apply ih
    rw [lookup_insert_ite, lookup_insert_ite, h]

theorem settle_congr {n : Finmap fun _ : K => V} (ps ts : List (K × V)) {k : K}
    (h : m.lookup k = n.lookup k) : (settle m ps ts).lookup k = (settle n ps ts).lookup k := by
  rw [settle, settle, lookup_foldl_erase, lookup_foldl_erase, lookup_foldl_insert_congr ps h]

theorem settle_of_notMem {ps ts : List (K × V)} {k : K} (hp : k ∉ ps.map Prod.fst)
    (ht : k ∉ ts.map Prod.fst) : (settle m ps ts).lookup k = m.lookup k := by
  rw [settle, lookup_foldl_erase, if_neg ht, lookup_foldl_insert_of_notMem ps hp]

end Lib
