import Mathlib.Data.List.Basic
import Mathlib.Tactic

/-! Fallible computations with a message, the checked integer operations that
feed them, and the two rules every loop proof below uses: what a successful
loop preserves, and what two loops over the same list have in common. -/

namespace Lib

variable {α β σ τ ε : Type}

/-- Continue only when the condition holds. -/
def ensure (c : Prop) [Decidable c] (msg : String) : Except String Unit :=
  if c then .ok () else .error msg

/-- Turn an absent value into an error. -/
def okOr (x : Option α) (msg : String) : Except String α :=
  match x with
  | some a => .ok a
  | none => .error msg

@[simp] theorem ensure_eq_ok {c : Prop} [Decidable c] {msg : String} {u : Unit} :
    ensure c msg = .ok u ↔ c := by
  unfold ensure
  split_ifs with h <;> simp [h]

theorem ensure_of {c : Prop} [Decidable c] (h : c) (msg : String) : ensure c msg = .ok () := by
  simp [h]

@[simp] theorem okOr_eq_ok {x : Option α} {msg : String} {a : α} :
    okOr x msg = .ok a ↔ x = some a := by
  cases x <;> simp [okOr]

@[simp] theorem okOr_some (a : α) (msg : String) : okOr (some a) msg = .ok a := rfl

@[simp] theorem bind_eq_ok {x : Except ε α} {f : α → Except ε β} {b : β} :
    (x >>= f) = .ok b ↔ ∃ a, x = .ok a ∧ f a = .ok b := by
  cases x with
  | error e => simp [bind, Except.bind]
  | ok a => simp [bind, Except.bind]

theorem ite_bind_eq {p : Prop} [Decidable p] (a b : Except ε α) (f : α → Except ε β) :
    (if p then a >>= f else b >>= f) = (if p then a else b) >>= f := by
  split_ifs <;> rfl

@[simp] theorem ok_bind (a : α) (f : α → Except ε β) : ((.ok a : Except ε α) >>= f) = f a := rfl

@[simp] theorem error_bind (e : ε) (f : α → Except ε β) :
    ((.error e : Except ε α) >>= f) = .error e := rfl

@[simp] theorem pure_eq_ok (a : α) : (pure a : Except ε α) = .ok a := rfl

theorem exists_of_isOk {x : Except ε α} (h : x.isOk = true) : ∃ a, x = .ok a := by
  cases x with
  | error e => cases h
  | ok a => exact ⟨a, rfl⟩

theorem toOption_eq_some {x : Except ε α} {a : α} : x.toOption = some a ↔ x = .ok a := by
  cases x <;> simp [Except.toOption]

/-- Computations with one result, if any, continued by such computations. -/
theorem toOption_bind_congr {x y : Except ε α} {f g : α → Except ε β}
    (h : x.toOption = y.toOption) (hfg : ∀ a, (f a).toOption = (g a).toOption) :
    (x >>= f).toOption = (y >>= g).toOption := by
  cases x with
  | error e =>
    cases y with
    | error e' => rfl
    | ok b => cases h
  | ok a =>
    cases y with
    | error e' => cases h
    | ok b =>
      obtain rfl := Option.some.inj h
      exact hfg a

/-! ## Integer conversions -/

def tryU16 (n : ℕ) : Except String UInt16 :=
  if n < 2 ^ 16 then .ok (UInt16.ofNat n) else .error "out of range integral type conversion attempted"

def tryU32 (n : ℕ) : Except String UInt32 :=
  if n < 2 ^ 32 then .ok (UInt32.ofNat n) else .error "out of range integral type conversion attempted"

def checkedAdd64 (a b : UInt64) : Option UInt64 :=
  if a.toNat + b.toNat < 2 ^ 64 then some (a + b) else none

def checkedSub64 (a b : UInt64) : Option UInt64 :=
  if b.toNat ≤ a.toNat then some (a - b) else none

def checkedAdd16 (a b : UInt16) : Option UInt16 :=
  if a.toNat + b.toNat < 2 ^ 16 then some (a + b) else none

def saturatingAdd64 (a b : UInt64) : UInt64 :=
  if a.toNat + b.toNat < 2 ^ 64 then a + b else UInt64.ofNat (2 ^ 64 - 1)

theorem tryU16_eq_ok {n : ℕ} {v : UInt16} : tryU16 n = .ok v ↔ v.toNat = n := by
  unfold tryU16
  split_ifs with h
  · rw [Except.ok.injEq, ← UInt16.toNat_inj, UInt16.toNat_ofNat_of_lt' h]
    exact eq_comm
  · have := v.toNat_lt
    simp only [false_iff]
    omega

theorem tryU32_eq_ok {n : ℕ} {v : UInt32} : tryU32 n = .ok v ↔ v.toNat = n := by
  unfold tryU32
  split_ifs with h
  · rw [Except.ok.injEq, ← UInt32.toNat_inj, UInt32.toNat_ofNat_of_lt' h]
    exact eq_comm
  · have := v.toNat_lt
    simp only [false_iff]
    omega

theorem checkedAdd64_eq_some {a b c : UInt64} :
    checkedAdd64 a b = some c ↔ c.toNat = a.toNat + b.toNat := by
  unfold checkedAdd64
  split_ifs with h
  · rw [Option.some.injEq, ← UInt64.toNat_inj, UInt64.toNat_add, Nat.mod_eq_of_lt h]
    exact eq_comm
  · have := c.toNat_lt
    simp only [false_iff]
    omega

theorem checkedSub64_eq_some {a b c : UInt64} :
    checkedSub64 a b = some c ↔ a.toNat = b.toNat + c.toNat := by
  unfold checkedSub64
  split_ifs with h
  · rw [Option.some.injEq, ← UInt64.toNat_inj,
      UInt64.toNat_sub_of_le a b (UInt64.le_iff_toNat_le.mpr h)]
    omega
  · simp only [false_iff]
    omega

theorem checkedAdd16_eq_some {a b c : UInt16} :
    checkedAdd16 a b = some c ↔ c.toNat = a.toNat + b.toNat := by
  unfold checkedAdd16
  split_ifs with h
  · rw [Option.some.injEq, ← UInt16.toNat_inj, UInt16.toNat_add, Nat.mod_eq_of_lt h]
    exact eq_comm
  · have := c.toNat_lt
    simp only [false_iff]
    omega

theorem saturatingAdd64_toNat (a b : UInt64) :
    (saturatingAdd64 a b).toNat = min (a.toNat + b.toNat) (2 ^ 64 - 1) := by
  unfold saturatingAdd64
  split_ifs with h
  · rw [UInt64.toNat_add, Nat.mod_eq_of_lt h]
    omega
  · rw [UInt64.toNat_ofNat_of_lt' (by decide)]
    omega

/-! ## Loops -/

@[simp] theorem forM_eq_ok {f : α → Except ε Unit} {l : List α} {u : Unit} :
    l.forM f = .ok u ↔ ∀ a ∈ l, f a = .ok () := by
  induction l with
  | nil => simp [List.forM]
  | cons a l ih =>
    change (f a >>= fun _ => l.forM f) = .ok u ↔ _
    rw [bind_eq_ok, List.forall_mem_cons, ← ih]
    constructor
    · rintro ⟨_, h₁, h₂⟩
      exact ⟨h₁, h₂⟩
    · rintro ⟨h₁, h₂⟩
      exact ⟨(), h₁, h₂⟩

/-- What every successful iteration preserves, a successful loop preserves. The
property may speak of the part of the list already processed. -/
theorem foldlM_prefix_invariant {f : σ → α → Except ε σ} (P : List α → σ → Prop) :
    ∀ (l pre : List α) (s s' : σ),
      (∀ a ∈ l, ∀ pre s s', P pre s → f s a = .ok s' → P (pre ++ [a]) s') →
      P pre s → l.foldlM f s = .ok s' → P (pre ++ l) s' := by
  intro l
  induction l with
  | nil =>
    intro pre s s' _ hs h
    rw [List.foldlM_nil, pure_eq_ok, Except.ok.injEq] at h
    subst h
    simpa using hs
  | cons a l ih =>
    intro pre s s' hstep hs h
    rw [List.foldlM_cons, bind_eq_ok] at h
    obtain ⟨s₁, h₁, h₂⟩ := h
    have hrest := fun b hb => hstep b (List.mem_cons_of_mem a hb)
    have := ih (pre ++ [a]) s₁ s' hrest (hstep a List.mem_cons_self pre s s₁ hs h₁) h₂
    simpa using this

theorem foldlM_invariant {f : σ → α → Except ε σ} {P : σ → Prop} {l : List α} {s s' : σ}
    (hstep : ∀ a ∈ l, ∀ s s', P s → f s a = .ok s' → P s') (hs : P s)
    (h : l.foldlM f s = .ok s') : P s' := by
  induction l generalizing s with
  | nil =>
    rw [List.foldlM_nil, pure_eq_ok, Except.ok.injEq] at h
    exact h ▸ hs
  | cons a l ih =>
    rw [List.foldlM_cons, bind_eq_ok] at h
    obtain ⟨s₁, h₁, h₂⟩ := h
    exact ih (fun b hb => hstep b (List.mem_cons_of_mem _ hb)) (hstep a (by simp) s s₁ hs h₁) h₂

/-- A loop whose every iteration succeeds, from a state that fits the part of the list
already processed to one that fits the next part, succeeds. -/
theorem foldlM_progress {f : σ → α → Except ε σ} (P : List α → σ → Prop) {l : List α}
    (hstep : ∀ pre a post s, l = pre ++ a :: post → P pre s → ∃ s', f s a = .ok s' ∧ P (pre ++ [a]) s')
    {s : σ} (hs : P [] s) : ∃ s', l.foldlM f s = .ok s' ∧ P l s' := by
  suffices h : ∀ rest pre s, l = pre ++ rest → P pre s →
      ∃ s', rest.foldlM f s = .ok s' ∧ P l s' from h l [] s rfl hs
  intro rest
  induction rest with
  | nil =>
    intro pre s hl hs
    rw [List.append_nil] at hl
    exact ⟨s, rfl, hl ▸ hs⟩
  | cons a rest ih =>
    intro pre s hl hs
    obtain ⟨s₁, h₁, hs₁⟩ := hstep pre a rest s hl hs
    obtain ⟨s', h', hs'⟩ := ih (pre ++ [a]) s₁ (by rw [hl]; simp) hs₁
    exact ⟨s', by rw [List.foldlM_cons, h₁, ok_bind, h'], hs'⟩

/-- A fallible loop keeps up with a loop that cannot fail when every iteration does. -/
theorem foldlM_simulates {f : σ → α → Except ε σ} {g : τ → α → τ} {R : σ → τ → Prop} {l : List α}
    (hstep : ∀ a ∈ l, ∀ s t, R s t → ∃ s', f s a = .ok s' ∧ R s' (g t a)) {s : σ} {t : τ}
    (h : R s t) : ∃ s', l.foldlM f s = .ok s' ∧ R s' (l.foldl g t) := by
  induction l generalizing s t with
  | nil => exact ⟨s, rfl, h⟩
  | cons a l ih =>
    obtain ⟨s₁, h₁, hR₁⟩ := hstep a List.mem_cons_self s t h
    obtain ⟨s', hs', hR'⟩ := ih (fun b hb => hstep b (List.mem_cons_of_mem _ hb)) hR₁
    exact ⟨s', by rw [List.foldlM_cons, h₁, ok_bind, hs'], hR'⟩

theorem mapM_eq_map {f : α → Except ε β} {g : α → β} {l : List α} (h : ∀ a ∈ l, f a = .ok (g a)) :
    l.mapM f = .ok (l.map g) := by
  induction l with
  | nil => rfl
  | cons a l ih =>
    rw [List.mapM_cons, h a (by simp), ok_bind, ih fun b hb => h b (List.mem_cons_of_mem _ hb)]
    rfl

theorem mapM_eq_ok {f : α → Except ε β} {l : List α} {bs : List β} :
    l.mapM f = .ok bs ↔ List.Forall₂ (fun a b => f a = .ok b) l bs := by
  induction l generalizing bs with
  | nil =>
    rw [List.mapM_nil, pure_eq_ok, Except.ok.injEq, List.forall₂_nil_left_iff]
    exact eq_comm
  | cons a l ih =>
    rw [List.mapM_cons, bind_eq_ok, List.forall₂_cons_left_iff]
    refine exists_congr fun b => ?_
    rw [bind_eq_ok]
    refine ⟨?_, ?_⟩
    · rintro ⟨hb, bs', hbs, h⟩
      exact ⟨bs', hb, ih.mp hbs, (Except.ok.inj h).symm⟩
    · rintro ⟨bs', hb, hbs, rfl⟩
      exact ⟨hb, bs', ih.mpr hbs, rfl⟩

/-- A loop with two steps for each element, or two loops. -/
theorem mapM_bind_eq_ok {γ : Type} {f : α → Except ε β} {g : β → Except ε γ} {l : List α} {cs : List γ} :
    (l.mapM fun a => f a >>= g) = .ok cs ↔ ∃ bs, l.mapM f = .ok bs ∧ bs.mapM g = .ok cs := by
  simp only [mapM_eq_ok, bind_eq_ok]
  induction l generalizing cs with
  | nil =>
    rw [List.forall₂_nil_left_iff]
    refine ⟨?_, ?_⟩
    · rintro rfl
      exact ⟨[], .nil, .nil⟩
    · rintro ⟨bs, hbs, hcs⟩
      rw [List.forall₂_nil_left_iff.mp hbs] at hcs
      exact List.forall₂_nil_left_iff.mp hcs
  | cons a l ih =>
    rw [List.forall₂_cons_left_iff]
    refine ⟨?_, ?_⟩
    · rintro ⟨c, cs', ⟨b, hb, hc⟩, hcs, rfl⟩
      obtain ⟨bs, hbs, hbs'⟩ := ih.mp hcs
      exact ⟨b :: bs, .cons hb hbs, .cons hc hbs'⟩
    · rintro ⟨bs, hbs, hcs⟩
      obtain ⟨b, bs', hb, hbs', rfl⟩ := List.forall₂_cons_left_iff.mp hbs
      obtain ⟨c, cs', hc, hcs', rfl⟩ := List.forall₂_cons_left_iff.mp hcs
      exact ⟨c, cs', ⟨b, hb, hc⟩, ih.mpr ⟨bs', hbs', hcs'⟩, rfl⟩

theorem mapM_isOk {f : α → Except ε β} {l : List α} (h : ∀ a ∈ l, ∃ b, f a = .ok b) : ∃ bs, l.mapM f = .ok bs := by
  induction l with
  | nil => exact ⟨[], rfl⟩
  | cons a l ih =>
    obtain ⟨b, hb⟩ := h a List.mem_cons_self
    obtain ⟨bs, hbs⟩ := ih fun c hc => h c (List.mem_cons_of_mem _ hc)
    exact ⟨b :: bs, by rw [List.mapM_cons, hb, ok_bind, hbs, ok_bind]; rfl⟩

theorem mem_of_mapM {f : α → Except ε β} {l : List α} {bs : List β} (h : l.mapM f = .ok bs) {b : β}
    (hb : b ∈ bs) : ∃ a ∈ l, f a = .ok b := by
  induction l generalizing bs with
  | nil =>
    rw [List.mapM_nil, pure_eq_ok, Except.ok.injEq] at h
    subst h
    cases hb
  | cons a l ih =>
    rw [List.mapM_cons, bind_eq_ok] at h
    obtain ⟨c, hc, h⟩ := h
    rw [bind_eq_ok] at h
    obtain ⟨cs, hcs, h⟩ := h
    obtain rfl := Except.ok.inj h
    rcases List.mem_cons.mp hb with rfl | hb
    · exact ⟨a, List.mem_cons_self, hc⟩
    · obtain ⟨a', ha', hfa⟩ := ih hcs hb
      exact ⟨a', List.mem_cons_of_mem _ ha', hfa⟩

theorem ok_of_mem_mapM {f : α → Except ε β} {l : List α} {bs : List β} (h : l.mapM f = .ok bs) {a : α}
    (ha : a ∈ l) : ∃ b, f a = .ok b := by
  induction l generalizing bs with
  | nil => cases ha
  | cons c l ih =>
    rw [List.mapM_cons, bind_eq_ok] at h
    obtain ⟨b, hb, h⟩ := h
    rw [bind_eq_ok] at h
    obtain ⟨bs', hbs, -⟩ := h
    rcases List.mem_cons.mp ha with rfl | ha
    · exact ⟨b, hb⟩
    · exact ih hbs ha

/-- A loop over the elements in another order fails as well, or gives its results in that order. -/
theorem mapM_perm {f : α → Except ε β} {l l' : List α} (h : l.Perm l') :
    (∃ bs bs', l.mapM f = .ok bs ∧ l'.mapM f = .ok bs' ∧ bs.Perm bs') ∨
      ∃ e e', l.mapM f = .error e ∧ l'.mapM f = .error e' := by
  induction h with
  | nil => exact .inl ⟨[], [], rfl, rfl, List.Perm.refl _⟩
  | cons a _ ih =>
    rw [List.mapM_cons, List.mapM_cons]
    cases f a with
    | error e => exact .inr ⟨e, e, rfl, rfl⟩
    | ok b =>
      rcases ih with ⟨bs, bs', hbs, hbs', hperm⟩ | ⟨e, e', he, he'⟩
      · exact .inl ⟨b :: bs, b :: bs', by rw [hbs]; rfl, by rw [hbs']; rfl, hperm.cons b⟩
      · exact .inr ⟨e, e', by rw [he]; rfl, by rw [he']; rfl⟩
  | swap a b l =>
    simp only [List.mapM_cons]
    cases f a with
    | error e =>
      cases f b with
      | error e' => exact .inr ⟨e', e, rfl, rfl⟩
      | ok c => exact .inr ⟨e, e, rfl, rfl⟩
    | ok c =>
      cases f b with
      | error e => exact .inr ⟨e, e, rfl, rfl⟩
      | ok d =>
        cases l.mapM f with
        | error e => exact .inr ⟨e, e, rfl, rfl⟩
        | ok bs => exact .inl ⟨d :: c :: bs, c :: d :: bs, rfl, rfl, List.Perm.swap c d bs⟩
  | trans _ _ ih₁ ih₂ =>
    rcases ih₁ with ⟨bs, bs', hbs, hbs', hperm⟩ | ⟨e, e', he, he'⟩
    · rcases ih₂ with ⟨cs, cs', hcs, hcs', hperm'⟩ | ⟨e, e', he, -⟩
      · obtain rfl := Except.ok.inj (hbs'.symm.trans hcs)
        exact .inl ⟨bs, cs', hbs, hcs', hperm.trans hperm'⟩
      · cases hbs'.symm.trans he
    · rcases ih₂ with ⟨cs, cs', hcs, -, -⟩ | ⟨-, e'', -, he''⟩
      · cases he'.symm.trans hcs
      · exact .inr ⟨e, e'', he, he''⟩

/-- Two outcomes agree when both fail, or both succeed with related values. -/
inductive Agree (R : α → β → Prop) : Except ε α → Except ε β → Prop
  | error (e : ε) : Agree R (.error e) (.error e)
  | ok {a : α} {b : β} (h : R a b) : Agree R (.ok a) (.ok b)

theorem Agree.bind {α' β' : Type} {R : α → β → Prop} {S : α' → β' → Prop}
    {x : Except ε α} {y : Except ε β} {f : α → Except ε α'} {g : β → Except ε β'}
    (h : Agree R x y) (hfg : ∀ a b, R a b → Agree S (f a) (g b)) :
    Agree S (x >>= f) (y >>= g) := by
  cases h with
  | error e => exact .error e
  | ok hab => exact hfg _ _ hab

theorem Agree.refl {R : α → α → Prop} (hR : ∀ a, R a a) (x : Except ε α) : Agree R x x := by
  cases x with
  | error e => exact .error e
  | ok a => exact .ok (hR a)

/-- Two loops over one list agree when related states step to related states. -/
theorem foldlM_agree {f : σ → α → Except ε σ} {g : τ → α → Except ε τ} {R : σ → τ → Prop}
    {l : List α} {s : σ} {t : τ} (hs : R s t)
    (hstep : ∀ a ∈ l, ∀ s t, R s t → Agree R (f s a) (g t a)) :
    Agree R (l.foldlM f s) (l.foldlM g t) := by
  induction l generalizing s t with
  | nil => exact .ok hs
  | cons a l ih =>
    rw [List.foldlM_cons, List.foldlM_cons]
    exact (hstep a (by simp) s t hs).bind fun s' t' h' =>
      ih h' fun b hb => hstep b (List.mem_cons_of_mem _ hb)

end Lib
