import BitcoinData.Lib.Runs
import BitcoinData.Spec.Types

/-! `sources/src/ipc.rs`: callers on any thread, a bounded channel and one actor that hands every
request to the next of its worker threads. Each request has its own channel for the reply. A step
of the world is one step of a caller, of the actor or of a task that has the answer of the node;
the calls of the node are left open. -/

namespace BitcoinData

/-- `IpcRequest` without its reply channel. -/
inductive IpcCall
  | getBestHeight
  | getBlockHash (height : UInt64)
  | getBlockRaw (hash : BlockHashBytes)
  | getBlockByHeight (height : UInt64)
  | waitForTipChange (oldTip : Option BlockHashBytes)
deriving DecidableEq

section
variable {ρ : Type}

/-- How far a request has come. -/
inductive IpcStage (ρ : Type)
  /-- `self.tx.send`, which waits for room in the channel. -/
  | sending
  | queued
  /-- A task of the actor waits for the node, on a worker thread. -/
  | running (thread : ℕ)
  | replied (thread : ℕ) (outcome : Except String ρ)
  /-- The caller found the actor gone. -/
  | failed (message : String)

/-- The caller has no result yet. -/
def IpcStage.isPending : IpcStage ρ → Bool
  | .sending | .queued | .running _ => true
  | .replied _ _ | .failed _ => false

structure IpcRequest (ρ : Type) where
  /-- The clone of the source that `request` borrows. -/
  source : ℕ
  call : IpcCall
  stage : IpcStage ρ
  /-- The caller has not dropped its future. -/
  waiting : Bool

/-- The future of the request still exists and has not been completed. -/
def IpcRequest.isOpen (self : IpcRequest ρ) : Bool := self.waiting && self.stage.isPending

structure IpcWorld (ρ : Type) where
  threads : ℕ
  next : ℕ
  channel : List ℕ
  requests : List (IpcRequest ρ)
  /-- For each clone of the source, whether it still exists; each holds a sender of the channel. -/
  sources : List Bool
  /-- The actor is in its loop. -/
  running : Bool

inductive IpcEvent (ρ : Type)
  | clone (source : ℕ)
  | dropSource (source : ℕ)
  | request (source : ℕ) (call : IpcCall)
  /-- A caller drops its future. -/
  | cancel (r : ℕ)
  | send (r : ℕ)
  | receive (r : ℕ)
  | reply (r : ℕ) (outcome : Except String ρ)
  /-- The channel is empty and has no sender left. -/
  | close
  | fail (r : ℕ)

namespace IpcWorld

/-- `connect_with_threads`, when the node has been reached. -/
def connect (threadCount : ℕ) : IpcWorld ρ where
  threads := max threadCount 1
  next := 0
  channel := []
  requests := []
  sources := [true]
  running := true

def channelCapacity (self : IpcWorld ρ) : ℕ := max (self.threads * 8) 128

def pickThread (self : IpcWorld ρ) : ℕ × IpcWorld ρ :=
  (self.next, { self with next := (self.next + 1) % self.threads })

def setStage (self : IpcWorld ρ) (r : ℕ) (stage : IpcStage ρ) : IpcWorld ρ :=
  { self with requests := self.requests.modify r fun request => { request with stage } }

/-- A source is not dropped while a request borrows it. -/
def step (self : IpcWorld ρ) : IpcEvent ρ → Option (IpcWorld ρ)
  | .clone s =>
    if self.sources[s]? = some true then some { self with sources := self.sources ++ [true] } else none
  | .dropSource s =>
    if self.sources[s]? = some true ∧
        ∀ request ∈ self.requests, request.source = s → request.isOpen = false then
      some { self with sources := self.sources.set s false }
    else none
  | .request s call =>
    if self.sources[s]? = some true then
      some { self with requests := self.requests ++ [⟨s, call, .sending, true⟩] }
    else none
  | .cancel r =>
    some { self with requests := self.requests.modify r fun request => { request with waiting := false } }
  | .send r =>
    match self.requests[r]? with
    | some ⟨_, _, .sending, true⟩ =>
      if self.running = true ∧ self.channel.length < self.channelCapacity then
        some { self.setStage r .queued with channel := self.channel ++ [r] }
      else none
    | _ => none
  | .receive r =>
    match self.channel with
    | head :: channel =>
      if self.running = true ∧ head = r then
        let (thread, world) := self.pickThread
        some { world.setStage r (.running thread) with channel }
      else none
    | [] => none
  | .reply r outcome =>
    match self.requests[r]? with
    | some ⟨_, _, .running thread, _⟩ =>
      if self.running = true then some (self.setStage r (.replied thread outcome)) else none
    | _ => none
  | .close =>
    if self.running = true ∧ self.channel = [] ∧ true ∉ self.sources then
      some { self with running := false }
    else none
  | .fail r =>
    match self.requests[r]? with
    | some ⟨_, _, .sending, true⟩ =>
      if self.running = false then some (self.setStage r (.failed "IPC actor is not running")) else none
    | some ⟨_, _, .queued, true⟩ =>
      if self.running = false then some (self.setStage r (.failed "IPC actor dropped response")) else none
    | some ⟨_, _, .running _, true⟩ =>
      if self.running = false then some (self.setStage r (.failed "IPC actor dropped response")) else none
    | _ => none

end IpcWorld

/-! ## What happened in a run -/

def sentRequests (events : List (IpcEvent ρ)) : List ℕ :=
  events.filterMap fun
    | .send r => some r
    | _ => none

def receivedRequests (events : List (IpcEvent ρ)) : List ℕ :=
  events.filterMap fun
    | .receive r => some r
    | _ => none

def repliedRequests (events : List (IpcEvent ρ)) : List ℕ :=
  events.filterMap fun
    | .reply r _ => some r
    | _ => none

/-- What brings requests on their way: a caller, the actor or a task with its answer. -/
def IpcEvent.isProgress : IpcEvent ρ → Bool
  | .send _ | .receive _ | .reply _ _ => true
  | _ => false

/-- The place of request `r` among all requests tells its stage. The received requests are handed
to the `n` threads in turn. -/
def IpcStage.At (n r : ℕ) (sent received : List ℕ) : IpcStage ρ → Prop
  | .sending => r ∉ sent
  | .queued => r ∈ sent ∧ r ∉ received
  | .running thread => ∃ i, received[i]? = some r ∧ thread = i % n
  | .replied thread _ => ∃ i, received[i]? = some r ∧ thread = i % n
  | .failed _ => False

end

end BitcoinData
