import BitcoinData.Lib.Lists
import BitcoinData.Spec.MultiSource

/-! Which sources a failed request has tried, over every interleaving of requests. The shared cursor
is the number of picks so far, so the sources of a request are given by the places of its picks in
the order of all picks. -/

namespace BitcoinData

open Lib

section
variable {σ ρ : Type}

/-- The requests that picked, in order. -/
def pickers (events : List (SourceEvent ρ)) : List ℕ :=
  events.filterMap fun
    | .pick r => some r
    | _ => none

/-- The sources of the picks of request `r`: the place of each pick among all picks, as the cursor
counts them, modulo the number of sources. -/
def pickSlots (n : ℕ) (events : List (SourceEvent ρ)) (r : ℕ) : List ℕ :=
  ((pickers events).zipIdx.filter fun p => p.1 = r).map fun p => (UInt64.ofNat p.2).toNat % n

theorem pickSlots_pick (n : ℕ) (events : List (SourceEvent ρ)) (r r' : ℕ) :
    pickSlots n (events ++ [.pick r]) r' = pickSlots n events r' ++
      if r = r' then [(UInt64.ofNat (pickers events).length).toNat % n] else [] := by
  rw [pickSlots, pickers, List.filterMap_append, List.zipIdx_append, List.filter_append,
    List.map_append]
  split_ifs with h
  · simp [pickSlots, pickers, h]
  · simp [pickSlots, pickers, h]

theorem pickSlots_lt {n : ℕ} (hn : 0 < n) (events : List (SourceEvent ρ)) (r : ℕ) :
    ∀ i ∈ pickSlots n events r, i < n := by
  intro i hi
  obtain ⟨p, -, rfl⟩ := List.mem_map.mp hi
  exact Nat.mod_lt _ hn

/-! ## What a request has done -/

/-- A request whose picks went to `slots`. -/
structure Tracked (n : ℕ) (slots : List ℕ) (request : SourceRequest ρ) : Prop where
  rounds : request.rounds = slots.length
  waits : request.asked.isSome → request.result = none
  slots : (∀ value, request.result ≠ some (.ok value)) →
    request.errors.map (·.1) ++ request.asked.toList = slots
  failed : ∀ e, request.result = some (.error e) → request.asked = none ∧ request.rounds = n

theorem tracked_new (n : ℕ) (call : SourceCall) :
    Tracked n [] (SourceRequest.new call : SourceRequest ρ) where
  rounds := rfl
  waits := fun h => by cases h
  slots := fun _ => rfl
  failed := fun e h => by cases h

theorem Tracked.picked {n i : ℕ} {slots : List ℕ} {request : SourceRequest ρ}
    (h : Tracked n slots request)
    (hresult : request.result = none) (hasked : request.asked = none) :
    Tracked n (slots ++ [i]) { request with rounds := request.rounds + 1, asked := some i } where
  rounds := by simp [h.rounds]
  waits := fun _ => hresult
  slots := fun hok => by
    have hslots := h.slots hok
    rw [hasked] at hslots
    simpa using hslots
  failed := fun e he => by
    simp only [hresult, reduceCtorEq] at he

theorem Tracked.replied {n i : ℕ} {slots : List ℕ} {request : SourceRequest ρ}
    (h : Tracked n slots request)
    (hasked : request.asked = some i) (outcome : Except String ρ) :
    Tracked n slots (request.replied n i outcome) := by
  have hslots := h.slots fun value hv => by
    rw [h.waits (by rw [hasked]; rfl)] at hv
    cases hv
  rw [hasked] at hslots
  cases outcome with
  | ok value =>
    exact
      { rounds := h.rounds
        waits := fun hs => (by cases hs)
        slots := fun hok => absurd rfl (hok value)
        failed := fun e he => (by cases he) }
  | error e =>
    refine ⟨h.rounds, fun hs => (by cases hs), fun _ => ?_, fun e' he => ⟨rfl, ?_⟩⟩
    · simpa [SourceRequest.replied] using hslots
    · simp only [SourceRequest.replied] at he
      split_ifs at he with hlast
      exact hlast

/-- The world after `events`: the cursor counts the picks, and every request is where its picks
have taken it. -/
structure Traced (sources : List σ)
    (events : List (SourceEvent ρ)) (w : SourceWorld σ ρ) : Prop where
  same : w.multi.sources = sources
  cursor : w.multi.cursor = UInt64.ofNat (pickers events).length
  absent : ∀ r, w.requests.length ≤ r → pickSlots sources.length events r = []
  tracked : ∀ r request, w.requests[r]? = some request →
    Tracked sources.length (pickSlots sources.length events r) request

variable {sources : List σ} {events : List (SourceEvent ρ)} {w w' : SourceWorld σ ρ}

theorem tracked_set {n r : ℕ} {slots slots' : ℕ → List ℕ} {requests : List (SourceRequest ρ)}
    {request : SourceRequest ρ}
    (h : ∀ r request, requests[r]? = some request → Tracked n (slots r) request)
    (hother : ∀ r', r ≠ r' → slots' r' = slots r') (hnew : Tracked n (slots' r) request) :
    ∀ r' request', (requests.set r request)[r']? = some request' → Tracked n (slots' r') request' := by
  intro r' request' hget
  by_cases hr : r = r'
  · subst hr
    rw [List.getElem?_set_self (by
      have := (List.getElem?_eq_some_iff.mp hget).1
      simpa using this)] at hget
    exact Option.some.inj hget ▸ hnew
  · rw [List.getElem?_set_ne hr] at hget
    rw [hother r' hr]
    exact h r' request' hget

theorem Traced.step (h : Traced sources events w) {event : SourceEvent ρ}
    (hstep : w.step event = some w') :
    Traced sources (events ++ [event]) w' := by
  cases event with
  | request call =>
    obtain rfl := Option.some.inj hstep
    have hpickers : pickers (events ++ [.request call]) = pickers events := by simp [pickers]
    have hslots : ∀ r, pickSlots sources.length (events ++ [.request call]) r =
        pickSlots sources.length events r := by
      intro r
      rw [pickSlots, hpickers, pickSlots]
    refine ⟨h.same, by rw [hpickers]; exact h.cursor, fun r hr => ?_, fun r request hget => ?_⟩
    · rw [hslots]
      simp only [List.length_append, List.length_singleton] at hr
      exact h.absent r (by omega)
    · rw [hslots]
      simp only [List.getElem?_append] at hget
      split_ifs at hget with hlt
      · exact h.tracked r request hget
      · rw [h.absent r (by omega)]
        obtain ⟨hzero, heq⟩ := List.getElem?_eq_some_iff.mp hget
        have hnew : request = SourceRequest.new call := by
          rw [← heq]
          simp
        exact hnew ▸ tracked_new _ _
  | pick r =>
    simp only [SourceWorld.step, Option.bind_eq_bind, Option.bind_eq_some_iff] at hstep
    obtain ⟨request, hrequest, hstep⟩ := hstep
    split_ifs at hstep with hready
    obtain rfl := Option.some.inj hstep
    obtain ⟨hresult, hasked, -⟩ := hready
    have htracked := h.tracked r request hrequest
    have hlen : r < w.requests.length := (List.getElem?_eq_some_iff.mp hrequest).1
    have hpickers : pickers (events ++ [.pick r]) = pickers events ++ [r] := by simp [pickers]
    refine ⟨h.same, ?_, fun r' hr' => ?_, ?_⟩
    · rw [hpickers, List.length_append, List.length_singleton]
      simp only [MultiSource.pick, h.cursor]
      rw [UInt64.ofNat_add]
      rfl
    · simp only [List.length_set] at hr'
      rw [pickSlots_pick, if_neg (by omega), List.append_nil]
      exact h.absent r' hr'
    · refine tracked_set h.tracked (fun r' hr' => ?_) ?_
      · rw [pickSlots_pick, if_neg hr', List.append_nil]
      · rw [pickSlots_pick, if_pos rfl, ← h.cursor, ← h.same]
        rw [← h.same] at htracked
        exact htracked.picked (Option.isNone_iff_eq_none.mp hresult)
          (Option.isNone_iff_eq_none.mp hasked)
  | reply r outcome =>
    simp only [SourceWorld.step, Option.bind_eq_bind, Option.bind_eq_some_iff] at hstep
    obtain ⟨request, hrequest, i, hasked, hstep⟩ := hstep
    obtain rfl := Option.some.inj hstep
    have hpickers : pickers (events ++ [.reply r outcome]) = pickers events := by simp [pickers]
    have hslots : ∀ r', pickSlots sources.length (events ++ [.reply r outcome]) r' =
        pickSlots sources.length events r' := by
      intro r'
      rw [pickSlots, hpickers, pickSlots]
    refine ⟨h.same, by rw [hpickers]; exact h.cursor, fun r' hr' => ?_, ?_⟩
    · rw [hslots]
      simp only [List.length_set] at hr'
      exact h.absent r' hr'
    · refine tracked_set h.tracked (fun r' _ => hslots r') ?_
      rw [hslots, h.same]
      exact (h.tracked r request hrequest).replied hasked outcome

theorem Traced.run {events' : List (SourceEvent ρ)} (h : Traced sources events w)
    (hrun : run SourceWorld.step w events' = some w') : Traced sources (events ++ events') w' := by
  induction events' generalizing events w with
  | nil =>
    rw [run_nil, Option.some.injEq] at hrun
    rw [List.append_nil]
    exact hrun ▸ h
  | cons event events' ih =>
    obtain ⟨w₁, hstep, hrest⟩ := run_cons_eq_some.mp hrun
    have := ih (h.step hstep) hrest
    rwa [List.append_assoc] at this

theorem traced_new {multi : MultiSource σ} (hnew : MultiSource.new sources = some multi) :
    Traced sources ([] : List (SourceEvent ρ)) ⟨multi, []⟩ := by
  rw [MultiSource.new] at hnew
  split_ifs at hnew
  obtain rfl := Option.some.inj hnew
  exact ⟨rfl, rfl, fun _ _ => rfl, fun r request hget => by simp at hget⟩

/-! ## Which sources were tried -/

theorem cover_iff_nodup {n : ℕ} {slots : List ℕ} (hlen : slots.length = n)
    (hlt : ∀ i ∈ slots, i < n) :
    (∀ i < n, i ∈ slots) ↔ slots.Nodup := by
  have hsub : slots.toFinset ⊆ Finset.range n := fun i hi =>
    Finset.mem_range.mpr (hlt i (List.mem_toFinset.mp hi))
  constructor
  · intro hcover
    have hrange : slots.toFinset = Finset.range n :=
      hsub.antisymm fun i hi => List.mem_toFinset.mpr (hcover i (Finset.mem_range.mp hi))
    have hcard : (slots : Multiset ℕ).toFinset.card = Multiset.card (slots : Multiset ℕ) := by
      rw [Multiset.coe_card, hlen]
      exact (congrArg Finset.card hrange).trans (Finset.card_range n)
    exact Multiset.coe_nodup.mp (Multiset.toFinset_card_eq_card_iff_nodup.mp hcard)
  · intro hnd i hi
    have hcard : (Finset.range n).card ≤ slots.toFinset.card := by
      rw [Finset.card_range, List.toFinset_card_of_nodup hnd, hlen]
    have hrange := Finset.eq_of_subset_of_card_le hsub hcard
    exact List.mem_toFinset.mp (hrange ▸ Finset.mem_range.mpr hi)

/-- A request that failed has tried every source if and only if the places of its picks, in the
order of all picks, are different modulo the number of sources. -/
theorem failed_tried_all_iff (sources : List σ) (multi : MultiSource σ)
    (hnew : MultiSource.new sources = some multi) (events : List (SourceEvent ρ)) (w : SourceWorld σ ρ)
    (hrun : run SourceWorld.step ⟨multi, []⟩ events = some w) (r : ℕ) (request : SourceRequest ρ)
    (hget : w.requests[r]? = some request) (e : String) (hfailed : request.result = some (.error e)) :
    (∀ i < sources.length, ∃ e', (i, e') ∈ request.errors) ↔
    (pickSlots sources.length events r).Nodup := by
  have htraced := (traced_new hnew).run hrun
  rw [List.nil_append] at htraced
  have htracked := htraced.tracked r request hget
  obtain ⟨hasked, hrounds⟩ := htracked.failed e hfailed
  have hslots := htracked.slots fun value hv => by
    rw [hfailed] at hv
    cases hv
  rw [hasked] at hslots
  have hpos : 0 < sources.length := by
    rw [← htraced.same]
    exact List.length_pos_of_ne_nil w.multi.nonempty
  rw [← cover_iff_nodup (htracked.rounds.symm.trans hrounds) (pickSlots_lt hpos events r), ← hslots]
  simp

end

def twoSources : List String := ["first", "second"]

/-- The second request picks between the two picks of the first one. -/
def crossedEvents : List (SourceEvent Unit) :=
  [.request .getBestHeight, .request .getBestHeight, .pick 0, .pick 1, .reply 0 (.error "down"),
    .pick 0, .reply 0 (.error "down")]

/-- The first request returns an error, and it has asked source 0 twice and source 1 never. -/
theorem crossed_request_misses_source : ∃ multi w request, MultiSource.new twoSources = some multi ∧
    run SourceWorld.step ⟨multi, []⟩ crossedEvents = some w ∧ w.requests[0]? = some request ∧
    request.result = some (.error "down") ∧ ¬ ∃ e, (1, e) ∈ request.errors := by
  refine ⟨_, _, _, rfl, rfl, rfl, rfl, ?_⟩
  rintro ⟨e, he⟩
  replace he : (1, e) ∈ [(0, "down"), (0, "down")] := he
  simp at he

/-- Two requests at a time, and both sources are down: the second request picks twice between the
two picks of the first one, so each of them gets both sources. -/
def pairedEvents : List (SourceEvent Unit) :=
  [.request .getBestHeight, .request .getBestHeight, .pick 0, .pick 1, .reply 1 (.error "down"), .pick 1,
    .reply 0 (.error "down"), .pick 0, .reply 0 (.error "refused"), .reply 1 (.error "refused")]

theorem failed_tried_all_sample : ∃ multi w request request', MultiSource.new twoSources = some multi ∧
    run SourceWorld.step ⟨multi, []⟩ pairedEvents = some w ∧ w.requests[0]? = some request ∧
    w.requests[1]? = some request' ∧ request.result = some (.error "refused") ∧
    request'.result = some (.error "refused") ∧
    (∀ i < 2, ∃ e, (i, e) ∈ request.errors) ∧ ∀ i < 2, ∃ e, (i, e) ∈ request'.errors := by
  refine ⟨_, _, _, _, rfl, rfl, rfl, rfl, rfl, rfl, ?_, ?_⟩
  · exact (failed_tried_all_iff twoSources _ rfl pairedEvents _ rfl 0 _ rfl "refused" rfl).mpr (by decide)
  · exact (failed_tried_all_iff twoSources _ rfl pairedEvents _ rfl 1 _ rfl "refused" rfl).mpr (by decide)

end BitcoinData
