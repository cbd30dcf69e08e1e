import BitcoinData.Lib.Runs
import BitcoinData.Spec.Types

/-! `sources/src/multi.rs`: requests that fail over from source to source. All requests share one
atomic cursor, and between two picks of a request any others may run; a step of the world is a new
request, one pick of a request or the reply of the source that it asked. -/

namespace BitcoinData

variable {σ ρ : Type}

/-- A source is known here only by its place among the others. -/
structure MultiSource (σ : Type) where
  sources : List σ
  cursor : UInt64
  nonempty : sources ≠ []

namespace MultiSource

/-- `new` panics without a source. -/
def new (sources : List σ) : Option (MultiSource σ) :=
  if h : sources = [] then none else some ⟨sources, 0, h⟩

/-- `fetch_add` wraps around at the width of `usize`. -/
def pick (self : MultiSource σ) : ℕ × MultiSource σ :=
  (self.cursor.toNat % self.sources.length, { self with cursor := self.cursor + 1 })

end MultiSource

/-- The methods with the loop over the sources. They differ in the call they pass on. -/
inductive SourceCall
  | getBlockHash (height : UInt64)
  | getBlockRaw (hash : BlockHashBytes)
  | getBlockSpentTxouts (hash : BlockHashBytes)
  | getBlocksSpentTxouts (hashes : List BlockHashBytes)
  | getBestHeight
  | getBlockByHeight (height : UInt64)
  | getBlockRangeByHeight (startHeight : UInt64) (count : ℕ)

/-- One request between two of its steps: the rounds of its loop so far, the source it waits for,
the sources that failed with their errors, and what it returned. -/
structure SourceRequest (ρ : Type) where
  call : SourceCall
  rounds : ℕ
  asked : Option ℕ
  errors : List (ℕ × String)
  result : Option (Except String ρ)

namespace SourceRequest

def new (call : SourceCall) : SourceRequest ρ := ⟨call, 0, none, [], none⟩

/-- The reply of source `i` out of `n`. An error in the last round is returned. -/
def replied (self : SourceRequest ρ) (n i : ℕ) : Except String ρ → SourceRequest ρ
  | .ok value => { self with asked := none, result := some (.ok value) }
  | .error e =>
    { self with
      asked := none
      errors := self.errors ++ [(i, e)]
      result := if self.rounds = n then some (.error e) else none }

end SourceRequest

structure SourceWorld (σ ρ : Type) where
  multi : MultiSource σ
  requests : List (SourceRequest ρ)

inductive SourceEvent (ρ : Type)
  | request (call : SourceCall)
  | pick (r : ℕ)
  | reply (r : ℕ) (outcome : Except String ρ)

def SourceWorld.step (w : SourceWorld σ ρ) : SourceEvent ρ → Option (SourceWorld σ ρ)
  | .request call => some { w with requests := w.requests ++ [SourceRequest.new call] }
  | .pick r => do
    let request ← w.requests[r]?
    if request.result.isNone ∧ request.asked.isNone ∧ request.rounds < w.multi.sources.length then
      let (i, multi) := w.multi.pick
      some { multi, requests := w.requests.set r { request with rounds := request.rounds + 1, asked := some i } }
    else none
  | .reply r outcome => do
    let request ← w.requests[r]?
    let i ← request.asked
    some { w with requests := w.requests.set r (request.replied w.multi.sources.length i outcome) }

end BitcoinData
