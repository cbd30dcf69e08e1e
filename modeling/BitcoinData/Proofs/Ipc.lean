import BitcoinData.Spec.Ipc

/-! The actor behind the IPC source loses no request and answers none twice, over every
interleaving of callers, actor and tasks. What has been received and what is in the channel are
together what has been sent, in that order, and while a caller waits its source keeps the channel
open, so the actor is there. -/

namespace BitcoinData

open Lib

section
variable {ρ : Type}

/-! ## Events -/

theorem sentRequests_append (events events' : List (IpcEvent ρ)) :
    sentRequests (events ++ events') = sentRequests events ++ sentRequests events' :=
  List.filterMap_append

theorem receivedRequests_append (events events' : List (IpcEvent ρ)) :
    receivedRequests (events ++ events') = receivedRequests events ++ receivedRequests events' :=
  List.filterMap_append

theorem repliedRequests_append (events events' : List (IpcEvent ρ)) :
    repliedRequests (events ++ events') = repliedRequests events ++ repliedRequests events' :=
  List.filterMap_append

theorem sentRequests_same {events : List (IpcEvent ρ)} {event : IpcEvent ρ}
    (h : sentRequests [event] = []) : sentRequests (events ++ [event]) = sentRequests events := by
  rw [sentRequests_append, h, List.append_nil]

theorem receivedRequests_same {events : List (IpcEvent ρ)} {event : IpcEvent ρ}
    (h : receivedRequests [event] = []) :
    receivedRequests (events ++ [event]) = receivedRequests events := by
  rw [receivedRequests_append, h, List.append_nil]

theorem repliedRequests_same {events : List (IpcEvent ρ)} {event : IpcEvent ρ}
    (h : repliedRequests [event] = []) :
    repliedRequests (events ++ [event]) = repliedRequests events := by
  rw [repliedRequests_append, h, List.append_nil]

theorem noFail_append {events : List (IpcEvent ρ)} {event : IpcEvent ρ} (h : ∀ r, .fail r ∉ events)
    (hevent : ∀ r, event ≠ .fail r) (r : ℕ) : .fail r ∉ events ++ [event] := by
  intro hmem
  rcases List.mem_append.mp hmem with hmem | hmem
  · exact h r hmem
  · exact hevent r (List.mem_singleton.mp hmem).symm

theorem mem_repliedRequests {events : List (IpcEvent ρ)} {r : ℕ} :
    r ∈ repliedRequests events ↔ ∃ outcome, .reply r outcome ∈ events := by
  rw [repliedRequests, List.mem_filterMap]
  refine ⟨?_, ?_⟩
  · rintro ⟨event, hevent, hr⟩
    cases event with
    | reply r' outcome =>
      obtain rfl := Option.some.inj hr
      exact ⟨outcome, hevent⟩
    | _ => cases hr
  · rintro ⟨outcome, hevent⟩
    exact ⟨_, hevent, rfl⟩

theorem countP_isProgress (events : List (IpcEvent ρ)) : events.countP (·.isProgress) =
    (sentRequests events).length + (receivedRequests events).length +
      (repliedRequests events).length := by
  induction events with
  | nil => rfl
  | cons event events ih =>
    have hone : [event].countP (·.isProgress) = (sentRequests [event]).length +
        (receivedRequests [event]).length + (repliedRequests [event]).length := by
      cases event <;> rfl
    rw [← List.singleton_append, List.countP_append, hone, ih, sentRequests_append,
      receivedRequests_append, repliedRequests_append]
    simp only [List.length_append]
    omega

/-! ## One request -/

/-- Where the run has brought a request. -/
structure Placed (n : ℕ) (events : List (IpcEvent ρ)) (sources : List Bool) (r : ℕ)
    (request : IpcRequest ρ) : Prop where
  place : request.stage.At n r (sentRequests events) (receivedRequests events)
  replied : ∀ outcome, .reply r outcome ∈ events ↔ ∃ thread, request.stage = .replied thread outcome
  source : request.isOpen = true → sources[request.source]? = some true

variable {n r : ℕ} {events : List (IpcEvent ρ)} {sources sources' : List Bool}
  {request : IpcRequest ρ} {event : IpcEvent ρ}

theorem IpcStage.At.mem_received {sent received : List ℕ} {stage : IpcStage ρ}
    (h : stage.At n r sent received) {thread : ℕ} {outcome : Except String ρ}
    (hstage : stage = .replied thread outcome) : r ∈ received := by
  subst hstage
  obtain ⟨i, hi, -⟩ := h
  exact List.mem_of_getElem? hi

theorem Placed.append (h : Placed n events sources r request) (hsent : r ∉ sentRequests [event])
    (hreceived : r ∉ receivedRequests [event]) (hreplied : r ∉ repliedRequests [event])
    (hsource : request.isOpen = true → sources[request.source]? = some true →
      sources'[request.source]? = some true) :
    Placed n (events ++ [event]) sources' r request where
  place := by
    have hplace := h.place
    rw [sentRequests_append, receivedRequests_append]
    cases hstage : request.stage with
    | sending =>
      rw [hstage] at hplace
      exact fun hmem => (List.mem_append.mp hmem).elim hplace hsent
    | queued =>
      rw [hstage] at hplace
      exact ⟨List.mem_append_left _ hplace.1,
        fun hmem => (List.mem_append.mp hmem).elim hplace.2 hreceived⟩
    | running thread =>
      rw [hstage] at hplace
      obtain ⟨i, hi, hthread⟩ := hplace
      exact ⟨i, (List.getElem?_append_left (List.getElem?_eq_some_iff.mp hi).1).trans hi, hthread⟩
    | replied thread outcome =>
      rw [hstage] at hplace
      obtain ⟨i, hi, hthread⟩ := hplace
      exact ⟨i, (List.getElem?_append_left (List.getElem?_eq_some_iff.mp hi).1).trans hi, hthread⟩
    | failed message =>
      rw [hstage] at hplace
      exact hplace
  replied outcome := by
    have hother : IpcEvent.reply r outcome ∉ [event] := fun hmem =>
      hreplied (mem_repliedRequests.mpr ⟨outcome, hmem⟩)
    rw [List.mem_append, or_iff_left hother]
    exact h.replied outcome
  source hopen := hsource hopen (h.source hopen)

/-! ## The world -/

structure IpcTraced (threadCount : ℕ) (events : List (IpcEvent ρ)) (w : IpcWorld ρ) : Prop where
  threads : w.threads = max threadCount 1
  next : w.next = (receivedRequests events).length % w.threads
  fifo : sentRequests events = receivedRequests events ++ w.channel
  sentOnce : (sentRequests events).Nodup
  repliedOnce : (repliedRequests events).Nodup
  room : w.channel.length ≤ w.channelCapacity
  absent : ∀ r, w.requests.length ≤ r → r ∉ sentRequests events ∧ r ∉ repliedRequests events
  placed : ∀ r request, w.requests[r]? = some request → Placed w.threads events w.sources r request
  running : true ∈ w.sources → w.running = true
  noFail : ∀ r, .fail r ∉ events

variable {threadCount : ℕ} {w w' : IpcWorld ρ}

theorem ipcTraced_connect (threadCount : ℕ) : IpcTraced threadCount [] (.connect threadCount : IpcWorld ρ) where
  threads := rfl
  next := (Nat.zero_mod _).symm
  fifo := rfl
  sentOnce := List.nodup_nil
  repliedOnce := List.nodup_nil
  room := Nat.zero_le _
  absent _ _ := ⟨List.not_mem_nil, List.not_mem_nil⟩
  placed _ _ h := by cases h
  running _ := rfl
  noFail _ := List.not_mem_nil

theorem placed_modify {sources : List Bool} {events events' : List (IpcEvent ρ)}
    {requests : List (IpcRequest ρ)} {f : IpcRequest ρ → IpcRequest ρ}
    (h : ∀ r request, requests[r]? = some request → Placed n events sources r request)
    (hother : ∀ r' request, r ≠ r' → Placed n events sources r' request →
      Placed n events' sources r' request)
    (hnew : ∀ request, requests[r]? = some request → Placed n events' sources r (f request)) :
    ∀ r' request, (requests.modify r f)[r']? = some request → Placed n events' sources r' request := by
  intro r' request hget
  rw [List.getElem?_modify] at hget
  obtain ⟨request', hrequest', rfl⟩ := Option.map_eq_some_iff.mp hget
  split_ifs with hr
  · subst hr
    exact hnew request' hrequest'
  · exact hother r' request' hr (h r' request' hrequest')

theorem IpcTraced.append (h : IpcTraced threadCount events w) (hsent : sentRequests [event] = [])
    (hreceived : receivedRequests [event] = []) (hreplied : repliedRequests [event] = [])
    (hfail : ∀ r, event ≠ .fail r) {requests : List (IpcRequest ρ)} {sources : List Bool} {running : Bool}
    (hlength : w.requests.length ≤ requests.length)
    (hplaced : ∀ r request, requests[r]? = some request →
      Placed w.threads (events ++ [event]) sources r request)
    (hrunning : true ∈ sources → running = true) :
    IpcTraced threadCount (events ++ [event]) { w with requests, sources, running } where
  threads := h.threads
  next := by rw [receivedRequests_same hreceived, h.next]
  fifo := by rw [sentRequests_same hsent, receivedRequests_same hreceived, h.fifo]
  sentOnce := by
    rw [sentRequests_same hsent]
    exact h.sentOnce
  repliedOnce := by
    rw [repliedRequests_same hreplied]
    exact h.repliedOnce
  room := h.room
  absent r hr := by
    rw [sentRequests_same hsent, repliedRequests_same hreplied]
    exact h.absent r (hlength.trans hr)
  placed := hplaced
  running := hrunning
  noFail := noFail_append h.noFail hfail

theorem IpcTraced.lt_of_mem (h : IpcTraced threadCount events w) (hr : r ∈ sentRequests events) :
    r < w.requests.length :=
  not_le.mp fun hle => (h.absent r hle).1 hr

theorem IpcTraced.received_sent (h : IpcTraced threadCount events w) (hr : r ∈ receivedRequests events) :
    r ∈ sentRequests events := h.fifo ▸ List.mem_append_left _ hr

theorem IpcTraced.cloneStep (h : IpcTraced threadCount events w) {s : ℕ} (hs : w.sources[s]? = some true) :
    IpcTraced threadCount (events ++ [.clone s]) { w with sources := w.sources ++ [true] } := by
  refine h.append rfl rfl rfl (fun r => by simp) le_rfl ?_ fun _ => h.running (List.mem_of_getElem? hs)
  intro r request hrequest
  refine (h.placed r request hrequest).append List.not_mem_nil List.not_mem_nil List.not_mem_nil ?_
  intro _ hsource
  exact (List.getElem?_append_left (List.getElem?_eq_some_iff.mp hsource).1).trans hsource

theorem IpcTraced.dropStep (h : IpcTraced threadCount events w) {s : ℕ}
    (hfree : ∀ request ∈ w.requests, request.source = s → request.isOpen = false) :
    IpcTraced threadCount (events ++ [.dropSource s]) { w with sources := w.sources.set s false } := by
  refine h.append rfl rfl rfl (fun r => by simp) le_rfl ?_ ?_
  · intro r request hrequest
    refine (h.placed r request hrequest).append List.not_mem_nil List.not_mem_nil List.not_mem_nil ?_
    intro hopen hsource
    have hne : s ≠ request.source := by
      rintro rfl
      rw [hfree request (List.mem_of_getElem? hrequest) rfl] at hopen
      cases hopen
    rw [List.getElem?_set_ne hne]
    exact hsource
  · intro halive
    rcases List.mem_or_eq_of_mem_set halive with halive | halive
    · exact h.running halive
    · cases halive

theorem IpcTraced.requestStep (h : IpcTraced threadCount events w) {s : ℕ} (call : IpcCall)
    (hs : w.sources[s]? = some true) : IpcTraced threadCount (events ++ [.request s call])
      { w with requests := w.requests ++ [⟨s, call, .sending, true⟩] } := by
  refine h.append rfl rfl rfl (fun r => by simp) (by simp) ?_ h.running
  intro r request hrequest
  rw [List.getElem?_append] at hrequest
  split_ifs at hrequest with hlt
  · exact (h.placed r request hrequest).append List.not_mem_nil List.not_mem_nil List.not_mem_nil
      fun _ hsource => hsource
  · obtain ⟨hsent, hreplied⟩ := h.absent r (not_lt.mp hlt)
    have hnew : request = ⟨s, call, .sending, true⟩ := by
      have hmem := List.mem_of_getElem? hrequest
      exact List.mem_singleton.mp hmem
    subst hnew
    refine ⟨?_, fun outcome => ⟨fun hmem => ?_, ?_⟩, fun _ => hs⟩
    · rw [sentRequests_append]
      exact fun hmem => (List.mem_append.mp hmem).elim hsent List.not_mem_nil
    · rcases List.mem_append.mp hmem with hmem | hmem
      · exact absurd (mem_repliedRequests.mpr ⟨outcome, hmem⟩) hreplied
      · cases List.mem_singleton.mp hmem
    · rintro ⟨thread, hthread⟩
      cases hthread

theorem IpcTraced.cancelStep (h : IpcTraced threadCount events w) (r : ℕ) :
    IpcTraced threadCount (events ++ [.cancel r])
      { w with requests := w.requests.modify r fun request => { request with waiting := false } } := by
  refine h.append rfl rfl rfl (fun r => by simp) (by simp) ?_ h.running
  refine placed_modify h.placed (fun r' request _ hplaced => ?_) fun request hrequest => ?_
  · exact hplaced.append List.not_mem_nil List.not_mem_nil List.not_mem_nil fun _ hsource => hsource
  · have hplaced := @Placed.append _ _ _ _ _ w.sources _ (.cancel r) (h.placed r request hrequest)
      List.not_mem_nil List.not_mem_nil List.not_mem_nil fun _ hsource => hsource
    exact ⟨hplaced.place, hplaced.replied, fun hopen => by cases hopen⟩

theorem IpcTraced.sendStep (h : IpcTraced threadCount events w) {s : ℕ} {call : IpcCall}
    (hrequest : w.requests[r]? = some ⟨s, call, .sending, true⟩)
    (hroom : w.channel.length < w.channelCapacity) : IpcTraced threadCount (events ++ [.send r])
      { w.setStage r .queued with channel := w.channel ++ [r] } := by
  have hplaced := h.placed r _ hrequest
  have hunsent : r ∉ sentRequests events := hplaced.place
  have hsent : sentRequests (events ++ [.send r]) = sentRequests events ++ [r] := sentRequests_append _ _
  have hreceived : receivedRequests (events ++ [.send r]) = receivedRequests events := receivedRequests_same rfl
  have hreplied : repliedRequests (events ++ [.send r]) = repliedRequests events := repliedRequests_same rfl
  refine ⟨h.threads, ?_, ?_, ?_, ?_, ?_, fun r' hr' => ?_, ?_, h.running,
    noFail_append h.noFail (fun _ => by simp)⟩
  · rw [hreceived]
    exact h.next
  · rw [hsent, hreceived, h.fifo]
    exact List.append_assoc _ _ _
  · rw [hsent]
    exact List.nodup_append.mpr ⟨h.sentOnce, List.nodup_singleton r, fun a ha b hb heq =>
      hunsent (List.mem_singleton.mp hb ▸ heq ▸ ha)⟩
  · rw [hreplied]
    exact h.repliedOnce
  · change (w.channel ++ [r]).length ≤ _
    rw [List.length_append]
    exact hroom
  · simp only [IpcWorld.setStage, List.length_modify] at hr'
    obtain ⟨hnot, hnotReplied⟩ := h.absent r' hr'
    rw [hsent, hreplied]
    refine ⟨fun hmem => (List.mem_append.mp hmem).elim hnot fun hr => ?_, hnotReplied⟩
    have hlt := (List.getElem?_eq_some_iff.mp hrequest).1
    rw [List.mem_singleton.mp hr] at hr'
    omega
  · refine placed_modify h.placed (fun r' request hne hplaced => ?_) fun request hrequest' => ?_
    · refine hplaced.append ?_ List.not_mem_nil List.not_mem_nil fun _ hsource => hsource
      exact fun hmem => hne (List.mem_singleton.mp hmem).symm
    · rw [hrequest, Option.some.injEq] at hrequest'
      subst hrequest'
      refine ⟨⟨?_, ?_⟩, fun outcome => ⟨fun hmem => ?_, ?_⟩, fun _ => hplaced.source rfl⟩
      · rw [hsent]
        exact List.mem_append_right _ (List.mem_singleton_self r)
      · rw [hreceived]
        exact fun hmem => hunsent (h.received_sent hmem)
      · rcases List.mem_append.mp hmem with hmem | hmem
        · obtain ⟨thread, hthread⟩ := (hplaced.replied outcome).mp hmem
          cases hthread
        · cases List.mem_singleton.mp hmem
      · rintro ⟨thread, hthread⟩
        cases hthread

theorem IpcTraced.receiveStep (h : IpcTraced threadCount events w) {channel : List ℕ}
    (hchannel : w.channel = r :: channel) : IpcTraced threadCount (events ++ [.receive r])
      { w.pickThread.2.setStage r (.running w.pickThread.1) with channel } := by
  have hsent : sentRequests (events ++ [.receive r]) = sentRequests events := sentRequests_same rfl
  have hreceived : receivedRequests (events ++ [.receive r]) = receivedRequests events ++ [r] :=
    receivedRequests_append _ _
  have hreplied : repliedRequests (events ++ [.receive r]) = repliedRequests events := repliedRequests_same rfl
  have hfifo := h.fifo
  rw [hchannel] at hfifo
  have hnew : r ∉ receivedRequests events := by
    intro hmem
    have hnodup := h.sentOnce
    rw [hfifo] at hnodup
    exact (List.nodup_append.mp hnodup).2.2 r hmem r List.mem_cons_self rfl
  refine ⟨h.threads, ?_, ?_, ?_, ?_, ?_, fun r' hr' => ?_, ?_, h.running,
    noFail_append h.noFail (fun _ => by simp)⟩
  · change (w.next + 1) % w.threads = _
    rw [hreceived, List.length_append, h.next, Nat.mod_add_mod]
    rfl
  · rw [hsent, hreceived, hfifo, List.append_assoc]
    rfl
  · rw [hsent]
    exact h.sentOnce
  · rw [hreplied]
    exact h.repliedOnce
  · have hroom := h.room
    rw [hchannel] at hroom
    exact (Nat.le_succ _).trans hroom
  · simp only [IpcWorld.setStage, IpcWorld.pickThread, List.length_modify] at hr'
    rw [hsent, hreplied]
    exact h.absent r' hr'
  · refine placed_modify h.placed (fun r' request hne hplaced => ?_) fun request hrequest => ?_
    · refine hplaced.append List.not_mem_nil ?_ List.not_mem_nil fun _ hsource => hsource
      exact fun hmem => hne (List.mem_singleton.mp hmem).symm
    · have hplaced := h.placed r request hrequest
      have hpending : request.stage.isPending = true := by
        have hplace := hplaced.place
        cases hstage : request.stage with
        | replied thread outcome => exact absurd (hplace.mem_received hstage) hnew
        | failed message =>
          rw [hstage] at hplace
          exact hplace.elim
        | _ => rfl
      refine ⟨?_, fun outcome => ⟨fun hmem => ?_, ?_⟩, fun hopen => hplaced.source ?_⟩
      · refine ⟨(receivedRequests events).length, ?_, h.next⟩
        rw [hreceived]
        exact List.getElem?_concat_length
      · rcases List.mem_append.mp hmem with hmem | hmem
        · obtain ⟨thread, hthread⟩ := (hplaced.replied outcome).mp hmem
          rw [hthread] at hpending
          cases hpending
        · cases List.mem_singleton.mp hmem
      · rintro ⟨thread, hthread⟩
        cases hthread
      · rw [IpcRequest.isOpen, hpending]
        exact hopen

theorem IpcTraced.replyStep (h : IpcTraced threadCount events w) {s thread : ℕ} {call : IpcCall}
    {waiting : Bool} (hrequest : w.requests[r]? = some ⟨s, call, .running thread, waiting⟩)
    (outcome : Except String ρ) : IpcTraced threadCount (events ++ [.reply r outcome])
      (w.setStage r (.replied thread outcome)) := by
  have hplaced := h.placed r _ hrequest
  have hsent : sentRequests (events ++ [.reply r outcome]) = sentRequests events := sentRequests_same rfl
  have hreceived : receivedRequests (events ++ [.reply r outcome]) = receivedRequests events := receivedRequests_same rfl
  have hreplied : repliedRequests (events ++ [.reply r outcome]) = repliedRequests events ++ [r] :=
    repliedRequests_append _ _
  have hunanswered : ∀ outcome', .reply r outcome' ∉ events := by
    intro outcome' hmem
    obtain ⟨thread', hthread⟩ := (hplaced.replied outcome').mp hmem
    cases hthread
  have hnew : r ∉ repliedRequests events := fun hmem => by
    obtain ⟨outcome', hmem'⟩ := mem_repliedRequests.mp hmem
    exact hunanswered outcome' hmem'
  refine ⟨h.threads, ?_, ?_, ?_, ?_, h.room, fun r' hr' => ?_, ?_, h.running,
    noFail_append h.noFail (fun _ => by simp)⟩
  · rw [hreceived]
    exact h.next
  · rw [hsent, hreceived]
    exact h.fifo
  · rw [hsent]
    exact h.sentOnce
  · rw [hreplied]
    exact List.nodup_append.mpr ⟨h.repliedOnce, List.nodup_singleton r, fun a ha b hb heq =>
      hnew (List.mem_singleton.mp hb ▸ heq ▸ ha)⟩
  · simp only [IpcWorld.setStage, List.length_modify] at hr'
    obtain ⟨hnot, hnotReplied⟩ := h.absent r' hr'
    rw [hsent, hreplied]
    refine ⟨hnot, fun hmem => (List.mem_append.mp hmem).elim hnotReplied fun hr => ?_⟩
    have hlt := (List.getElem?_eq_some_iff.mp hrequest).1
    rw [List.mem_singleton.mp hr] at hr'
    omega
  · refine placed_modify h.placed (fun r' request hne hplaced => ?_) fun request hrequest' => ?_
    · refine hplaced.append List.not_mem_nil List.not_mem_nil ?_ fun _ hsource => hsource
      exact fun hmem => hne (List.mem_singleton.mp hmem).symm
    · rw [hrequest, Option.some.injEq] at hrequest'
      subst hrequest'
      refine ⟨?_, fun outcome' => ⟨fun hmem => ?_, ?_⟩, fun hopen => ?_⟩
      · rw [hsent, hreceived]
        exact hplaced.place
      · rcases List.mem_append.mp hmem with hmem | hmem
        · exact absurd hmem (hunanswered outcome')
        · obtain ⟨-, rfl⟩ := IpcEvent.reply.inj (List.mem_singleton.mp hmem)
          exact ⟨thread, rfl⟩
      · rintro ⟨thread', hthread⟩
        obtain ⟨-, rfl⟩ := IpcStage.replied.inj hthread
        exact List.mem_append_right _ (List.mem_singleton_self _)
      · rw [IpcRequest.isOpen, Bool.and_eq_true] at hopen
        cases hopen.2

/-- While a caller waits, its source keeps the actor in its loop. -/
theorem IpcTraced.running_of_open (h : IpcTraced threadCount events w)
    (hrequest : w.requests[r]? = some request) (hopen : request.isOpen = true) : w.running = true :=
  h.running (List.mem_of_getElem? ((h.placed r request hrequest).source hopen))

theorem IpcTraced.step (h : IpcTraced threadCount events w) {event : IpcEvent ρ}
    (hstep : w.step event = some w') : IpcTraced threadCount (events ++ [event]) w' := by
  cases event with
  | clone s =>
    simp only [IpcWorld.step] at hstep
    split_ifs at hstep with hs
    obtain rfl := Option.some.inj hstep
    exact h.cloneStep hs
  | dropSource s =>
    simp only [IpcWorld.step] at hstep
    split_ifs at hstep with hs
    obtain rfl := Option.some.inj hstep
    exact h.dropStep hs.2
  | request s call =>
    simp only [IpcWorld.step] at hstep
    split_ifs at hstep with hs
    obtain rfl := Option.some.inj hstep
    exact h.requestStep call hs
  | cancel r =>
    obtain rfl := Option.some.inj hstep
    exact h.cancelStep r
  | send r =>
    simp only [IpcWorld.step] at hstep
    split at hstep
    next hrequest =>
      split_ifs at hstep with hready
      obtain rfl := Option.some.inj hstep
      exact h.sendStep hrequest hready.2
    next => cases hstep
  | receive r =>
    simp only [IpcWorld.step] at hstep
    split at hstep
    next hchannel =>
      split_ifs at hstep with hready
      obtain rfl := Option.some.inj hstep
      obtain ⟨-, rfl⟩ := hready
      exact h.receiveStep hchannel
    next => cases hstep
  | reply r outcome =>
    simp only [IpcWorld.step] at hstep
    split at hstep
    next hrequest =>
      split_ifs at hstep
      obtain rfl := Option.some.inj hstep
      exact h.replyStep hrequest outcome
    next => cases hstep
  | close =>
    simp only [IpcWorld.step] at hstep
    split_ifs at hstep with hready
    obtain rfl := Option.some.inj hstep
    refine h.append rfl rfl rfl (fun r => by simp) le_rfl ?_ fun halive => absurd halive hready.2.2
    exact fun r request hrequest => (h.placed r request hrequest).append List.not_mem_nil
      List.not_mem_nil List.not_mem_nil fun _ hsource => hsource
  | fail r =>
    -- nobody who waits finds the actor gone
    simp only [IpcWorld.step] at hstep
    split at hstep
    case h_4 => cases hstep
    all_goals
      next hrequest =>
        rw [h.running_of_open hrequest rfl] at hstep
        cases hstep

theorem IpcTraced.run {events' : List (IpcEvent ρ)} (h : IpcTraced threadCount events w)
    (hrun : run IpcWorld.step w events' = some w') : IpcTraced threadCount (events ++ events') w' := by
  induction events' generalizing events w with
  | nil =>
    rw [run_nil, Option.some.injEq] at hrun
    rw [List.append_nil]
    exact hrun ▸ h
  | cons event events' ih =>
    obtain ⟨w₁, hstep, hrest⟩ := run_cons_eq_some.mp hrun
    have hnext := ih (h.step hstep) hrest
    rwa [List.append_assoc] at hnext

/-! ## What callers can rely on -/

/-- A caller that waits is never stuck: it can send, the actor can receive, or the node can answer,
whatever it answers. -/
theorem IpcTraced.progress (h : IpcTraced threadCount events w)
    (hrequest : w.requests[r]? = some request) (hopen : request.isOpen = true) :
    ∃ event : IpcEvent ρ, event.isProgress = true ∧ (w.step event).isSome = true := by
  have hrunning := h.running_of_open hrequest hopen
  have hreceive : w.channel ≠ [] → ∃ event : IpcEvent ρ, event.isProgress = true ∧
      (w.step event).isSome = true := by
    intro hne
    obtain ⟨head, channel, hchannel⟩ := List.exists_cons_of_ne_nil hne
    refine ⟨.receive head, rfl, ?_⟩
    unfold IpcWorld.step
    simp only [hchannel, hrunning, and_self, if_true, Option.isSome_some]
  have hplace := (h.placed r request hrequest).place
  obtain ⟨s, call, stage, waiting⟩ := request
  rw [IpcRequest.isOpen, Bool.and_eq_true] at hopen
  obtain ⟨rfl, hpending⟩ := hopen
  cases stage with
  | sending =>
    by_cases hroom : w.channel.length < w.channelCapacity
    · refine ⟨.send r, rfl, ?_⟩
      unfold IpcWorld.step
      simp only [hrequest, hrunning, hroom, and_self, if_true, Option.isSome_some]
    · refine hreceive fun hnil => hroom ?_
      rw [hnil, IpcWorld.channelCapacity]
      exact lt_of_lt_of_le (by decide) (le_max_right _ _)
  | queued =>
    refine hreceive fun hnil => ?_
    obtain ⟨hsent, hnot⟩ := hplace
    rw [h.fifo, hnil, List.append_nil] at hsent
    exact hnot hsent
  | running thread =>
    refine ⟨.reply r (.error ""), rfl, ?_⟩
    unfold IpcWorld.step
    simp only [hrequest, hrunning, if_true, Option.isSome_some]
  | replied thread outcome => cases hpending
  | failed message => cases hpending

theorem IpcTraced.countP_le (h : IpcTraced threadCount events w) :
    events.countP (·.isProgress) ≤ 3 * w.requests.length := by
  have hbound : ∀ ids : List ℕ, ids.Nodup → (∀ r ∈ ids, r < w.requests.length) →
      ids.length ≤ w.requests.length := by
    intro ids hnodup hlt
    have hsub : ids ⊆ List.range w.requests.length := fun r hr => List.mem_range.mpr (hlt r hr)
    exact (hnodup.subperm hsub).length_le.trans List.length_range.le
  have hsent := hbound _ h.sentOnce fun r hr => h.lt_of_mem hr
  have hreplied := hbound _ h.repliedOnce fun r hr => not_le.mp fun hle => (h.absent r hle).2 hr
  have hreceived := congrArg List.length h.fifo
  rw [List.length_append] at hreceived
  rw [countP_isProgress]
  omega

/-- Over every interleaving: requests are received in the order in which they were sent, each at
most once, and handed to the threads in turn; a request has the one answer of its own task; no
caller finds the actor gone; and as long as one waits, a request can go on its way, at most three
times each. -/
theorem ipc_requests_served {threadCount : ℕ} {events : List (IpcEvent ρ)} {w : IpcWorld ρ}
    (hrun : run IpcWorld.step (.connect threadCount) events = some w) :
    sentRequests events = receivedRequests events ++ w.channel ∧ (sentRequests events).Nodup ∧
      (repliedRequests events).Nodup ∧ w.channel.length ≤ w.channelCapacity ∧
      (∀ r request, w.requests[r]? = some request →
        request.stage.At (max threadCount 1) r (sentRequests events) (receivedRequests events) ∧
        (∀ outcome, .reply r outcome ∈ events ↔ ∃ thread, request.stage = .replied thread outcome) ∧
        (request.isOpen = true → ∃ event : IpcEvent ρ, event.isProgress = true ∧
          (w.step event).isSome = true)) ∧
      (∀ r, .fail r ∉ events) ∧ events.countP (·.isProgress) ≤ 3 * w.requests.length := by
  have h := (ipcTraced_connect threadCount).run hrun
  rw [List.nil_append] at h
  refine ⟨h.fifo, h.sentOnce, h.repliedOnce, h.room, fun r request hrequest => ?_, h.noFail, h.countP_le⟩
  have hplaced := h.placed r request hrequest
  exact ⟨h.threads ▸ hplaced.place, hplaced.replied, h.progress hrequest⟩

/-- Two threads: the second request is sent first, the caller of the third has gone, and the actor
ends when the source is dropped. -/
def sampleIpcEvents : List (IpcEvent ℕ) :=
  [.request 0 .getBestHeight, .request 0 (.getBlockHash 7), .send 1, .send 0, .request 0 .getBestHeight,
    .receive 1, .send 2, .receive 0, .reply 0 (.ok 9), .cancel 2,
    .reply 1 (.error "IPC Chain.getBlockHash(7) failed"), .receive 2, .dropSource 0, .close]

theorem ipc_requests_served_sample : ∃ w : IpcWorld ℕ,
    (w.requests.map (·.isOpen) = [false, false, false] ∧ w.running = false) ∧
      sentRequests sampleIpcEvents = receivedRequests sampleIpcEvents ++ w.channel ∧
      ∀ r, .fail r ∉ sampleIpcEvents := by
  have hrun : (run IpcWorld.step (.connect 2) sampleIpcEvents).any (fun w =>
      decide (w.requests.map (·.isOpen) = [false, false, false] ∧ w.running = false)) = true := by
    decide +kernel
  obtain ⟨w, hw, hend⟩ := (Option.any_eq_true _ _).mp hrun
  obtain ⟨hfifo, -, -, -, -, hfail, -⟩ := ipc_requests_served hw
  exact ⟨w, of_decide_eq_true hend, hfifo, hfail⟩

end

end BitcoinData
