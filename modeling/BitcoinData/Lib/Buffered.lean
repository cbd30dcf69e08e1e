import Mathlib.Logic.Relation
import Mathlib.Tactic

/-! A stream that keeps some of its tasks running and delivers their results in the order of the
tasks. A task is started when its turn comes and there is room, which makes a request; requests are
answered in any order; a result is delivered when it is at the front. Whatever happens first, the
requests and the results are those of the tasks in order, and none is left out or comes twice. -/

namespace Lib

variable {α γ β ε : Type}

/-- The tasks that wait, the requests so far, those that run, with their results where there are
any, and what is delivered. -/
structure Buffered (α γ β : Type) where
  waiting : List α
  started : List γ
  running : List (γ × Option β)
  delivered : List β

def Buffered.init (tasks : List α) : Buffered α γ β := ⟨tasks, [], [], []⟩

inductive BufferedStep (limit : ℕ) (prepare : α → Except ε γ) (answer : γ → β) :
    Buffered α γ β → Buffered α γ β → Prop
  | start {task waiting request started running delivered} : running.length < limit →
    prepare task = .ok request →
    BufferedStep limit prepare answer ⟨task :: waiting, started, running, delivered⟩
      ⟨waiting, started ++ [request], running ++ [(request, none)], delivered⟩
  | answer {waiting started before request after delivered} :
    BufferedStep limit prepare answer ⟨waiting, started, before ++ (request, none) :: after, delivered⟩
      ⟨waiting, started, before ++ (request, some (answer request)) :: after, delivered⟩
  | deliver {waiting started request result running delivered} :
    BufferedStep limit prepare answer ⟨waiting, started, (request, some result) :: running, delivered⟩
      ⟨waiting, started, running, delivered ++ [result]⟩

/-- The states of the stream over `tasks`. -/
def BufferedReach (limit : ℕ) (prepare : α → Except ε γ) (answer : γ → β) (tasks : List α)
    (s : Buffered α γ β) : Prop :=
  Relation.ReflTransGen (BufferedStep limit prepare answer) (.init tasks) s

/-- The next task is started, and its request cannot be made. -/
def BufferedFaults (limit : ℕ) (prepare : α → Except ε γ) (s : Buffered α γ β) : Prop :=
  s.running.length < limit ∧ ∃ task waiting e, s.waiting = task :: waiting ∧ prepare task = .error e

variable {limit : ℕ} {prepare : α → Except ε γ} {answer : γ → β} {s s' : Buffered α γ β}
variable {tasks : List α} {request : α → γ}

/-! ## Order -/

structure BufferedOrder (answer : γ → β) (request : α → γ) (tasks : List α) (s : Buffered α γ β) :
    Prop where
  started : ∃ done, tasks = done ++ s.waiting ∧ s.started = done.map request
  results : s.delivered ++ s.running.map (fun r => answer r.1) = s.started.map answer
  answered : ∀ r result, (r, some result) ∈ s.running → result = answer r

theorem BufferedOrder.step (hprepare : ∀ task ∈ tasks, prepare task = .ok (request task))
    (h : BufferedOrder answer request tasks s) (hstep : BufferedStep limit prepare answer s s') :
    BufferedOrder answer request tasks s' := by
  cases hstep with
  | @start task waiting r started running delivered _ hr =>
    obtain ⟨done, htasks, hstarted⟩ := h.started
    have hmem : task ∈ tasks := htasks ▸ List.mem_append_right done List.mem_cons_self
    obtain rfl : request task = r := Except.ok.inj ((hprepare task hmem).symm.trans hr)
    refine ⟨⟨done ++ [task], ?_, ?_⟩, ?_, ?_⟩
    · rw [htasks, List.append_assoc]
      rfl
    · rw [List.map_append, ← hstarted]
      rfl
    · have hresults := h.results
      dsimp only at hresults ⊢
      rw [List.map_append, List.map_append, ← hresults, List.append_assoc]
      rfl
    · intro r result hmem
      rcases List.mem_append.mp hmem with hmem | hmem
      · exact h.answered r result hmem
      · cases List.mem_singleton.mp hmem
  | @answer waiting started before r after delivered =>
    refine ⟨h.started, ?_, ?_⟩
    · have hresults := h.results
      dsimp only at hresults ⊢
      rw [← hresults, List.map_append, List.map_append]
      rfl
    · intro r' result hmem
      rcases List.mem_append.mp hmem with hmem | hmem
      · exact h.answered r' result (List.mem_append_left _ hmem)
      · rcases List.mem_cons.mp hmem with heq | hmem
        · cases heq
          rfl
        · exact h.answered r' result (List.mem_append_right _ (List.mem_cons_of_mem _ hmem))
  | @deliver waiting started r result running delivered =>
    refine ⟨h.started, ?_, ?_⟩
    · have hresults := h.results
      dsimp only at hresults ⊢
      rw [h.answered r result List.mem_cons_self, ← hresults, List.append_assoc]
      rfl
    · intro r' result' hmem
      exact h.answered r' result' (List.mem_cons_of_mem _ hmem)

theorem BufferedReach.order (hprepare : ∀ task ∈ tasks, prepare task = .ok (request task))
    (h : BufferedReach limit prepare answer tasks s) : BufferedOrder answer request tasks s := by
  induction h with
  | refl => exact ⟨⟨[], rfl, rfl⟩, rfl, nofun⟩
  | tail _ hstep ih => exact ih.step hprepare hstep

/-! ## Progress -/

/-- The steps that are left: three for a task, of which a running one has made one or two. -/
def Buffered.left (s : Buffered α γ β) : ℕ :=
  3 * s.waiting.length + (s.running.map fun r => if r.2.isSome then 1 else 2).sum

theorem BufferedStep.left_eq (h : BufferedStep limit prepare answer s s') : s.left = s'.left + 1 := by
  cases h with
  | start _ _ =>
    simp only [Buffered.left, List.length_cons, List.map_append, List.sum_append, List.map_cons,
      List.map_nil, List.sum_cons, List.sum_nil, Option.isSome_none, Bool.false_eq_true, if_false]
    omega
  | answer =>
    simp only [Buffered.left, List.map_append, List.sum_append, List.map_cons, List.sum_cons,
      Option.isSome_none, Option.isSome_some, Bool.false_eq_true, if_false, if_true]
    omega
  | deliver =>
    simp only [Buffered.left, List.map_cons, List.sum_cons, Option.isSome_some, if_true]
    omega

/-- As long as something waits or runs there is a next step. -/
theorem BufferedOrder.progress (hlimit : 1 ≤ limit)
    (hprepare : ∀ task ∈ tasks, prepare task = .ok (request task))
    (h : BufferedOrder answer request tasks s) (hleft : s.left ≠ 0) :
    ∃ s', BufferedStep limit prepare answer s s' := by
  obtain ⟨waiting, started, running, delivered⟩ := s
  cases running with
  | nil =>
    cases waiting with
    | nil => exact absurd rfl hleft
    | cons task waiting =>
      obtain ⟨done, htasks, -⟩ := h.started
      have hmem : task ∈ tasks := htasks ▸ List.mem_append_right done List.mem_cons_self
      exact ⟨_, .start (Nat.lt_of_lt_of_le Nat.zero_lt_one hlimit) (hprepare task hmem)⟩
  | cons r running =>
    obtain ⟨r, _ | result⟩ := r
    · have hanswer : BufferedStep limit prepare answer ⟨waiting, started, [] ++ (r, none) :: running, delivered⟩
          ⟨waiting, started, [] ++ (r, some (answer r)) :: running, delivered⟩ := .answer
      exact ⟨_, hanswer⟩
    · exact ⟨_, .deliver⟩

theorem BufferedOrder.done (h : BufferedOrder answer request tasks s) (hleft : s.left = 0) :
    s.started = tasks.map request ∧ s.delivered = (tasks.map request).map answer := by
  obtain ⟨waiting, started, running, delivered⟩ := s
  obtain ⟨done, htasks, hstarted⟩ := h.started
  have hresults := h.results
  rw [Buffered.left, Nat.add_eq_zero_iff] at hleft
  dsimp only at hleft htasks hstarted hresults ⊢
  obtain rfl : waiting = [] := List.length_eq_zero_iff.mp (by omega)
  cases running with
  | nil =>
    rw [List.append_nil] at htasks
    rw [List.map_nil, List.append_nil] at hresults
    rw [hresults, hstarted, htasks]
    exact ⟨rfl, rfl⟩
  | cons r running =>
    rw [List.map_cons, List.sum_cons] at hleft
    split_ifs at hleft
    · omega
    · omega

/-- What a stream does with its tasks, whose requests are given in order. -/
structure Delivers (limit : ℕ) (prepare : α → Except ε γ) (answer : γ → β) (tasks : List α)
    (requests : List γ) : Prop where
  /-- Every request can be made. -/
  faultless : ∀ s, BufferedReach limit prepare answer tasks s → ¬ BufferedFaults limit prepare s
  /-- At any time some of the requests are made and some of their results delivered. -/
  inOrder : ∀ s, BufferedReach limit prepare answer tasks s →
    s.started <+: requests ∧ s.delivered <+: requests.map answer
  /-- No step is left only when all are. -/
  complete : ∀ s, BufferedReach limit prepare answer tasks s →
    (∀ s', ¬ BufferedStep limit prepare answer s s') →
    s.started = requests ∧ s.delivered = requests.map answer
  /-- And it comes to that, in whatever order the steps are made. -/
  finite : WellFounded fun s' s => BufferedStep limit prepare answer s s'

theorem buffered_delivers (hlimit : 1 ≤ limit)
    (hprepare : ∀ task ∈ tasks, prepare task = .ok (request task)) :
    Delivers limit prepare answer tasks (tasks.map request) := by
  refine ⟨?_, ?_, ?_, ?_⟩
  · rintro s hs ⟨-, task, waiting, e, hwaiting, herror⟩
    obtain ⟨done, htasks, -⟩ := (hs.order hprepare).started
    have hmem : task ∈ tasks := by
      rw [htasks, hwaiting]
      exact List.mem_append_right done List.mem_cons_self
    rw [hprepare task hmem] at herror
    cases herror
  · intro s hs
    have horder := hs.order hprepare
    obtain ⟨done, htasks, hstarted⟩ := horder.started
    have hbegins : s.started <+: tasks.map request := by
      rw [hstarted, htasks, List.map_append]
      exact List.prefix_append _ _
    refine ⟨hbegins, List.IsPrefix.trans ⟨_, horder.results⟩ (hbegins.map answer)⟩
  · intro s hs hstuck
    have horder := hs.order hprepare
    by_cases hleft : s.left = 0
    · exact horder.done hleft
    · obtain ⟨s', hstep⟩ := horder.progress hlimit hprepare hleft
      exact absurd hstep (hstuck s')
  · refine Subrelation.wf (fun {s' s} hstep => ?_) (measure Buffered.left).wf
    have hleft := hstep.left_eq
    change s'.left < s.left
    omega

end Lib
