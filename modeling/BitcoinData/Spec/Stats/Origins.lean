import BitcoinData.Spec.Stats.Resume

/-! Where a spent output came from, told by the blocks alone: the live outputs with the number of
the block that created each, next to the scanner, which has only its packed IDs. -/

namespace BitcoinData.Stats

/-- The live outputs, each with the number of its block and its script type. -/
abbrev Origins := Finmap fun _ : OutPointKey => ℕ × ScriptType

namespace Origins

def spend (origins : Origins) (input : PreparedInput) : Origins := origins.erase input.previousOutput

/-- A repeated outpoint takes the place of the older output. -/
def create (block : ℕ) (txid : TxidBytes) (origins : Origins)
    (output : (ScriptType × Option XOnlyKey) × ℕ) : Origins :=
  origins.insert { txid, vout := UInt32.ofNat output.2 } (block, output.1.1)

def tx (block : ℕ) (origins : Origins) (tx : PreparedTx) : Origins :=
  (tx.outputScriptTypes.zip tx.outputXonlyKeys).zipIdx.foldl (create block tx.txid)
    (if tx.isCoinbase then origins else tx.inputs.foldl spend origins)

/-- The outputs that are live after blocks, the first of which has number `block`. -/
def blocks : ℕ → Origins → List PreparedBlockFrame → Origins
  | _, origins, [] => origins
  | block, origins, frame :: frames => blocks (block + 1) (frame.txs.foldl (tx block) origins) frames

end Origins

section
variable [Sha256]

/-- The input loop of a transaction after `inputs`, behind the transactions `txs` of a block that
starts in `state`. -/
def inputLoopAt (state : StatsScannerState) (txs : List PreparedTx) (inputs : List PreparedInput) :
    InputLoop :=
  let acc := txs.foldl (processTx state.lastId) (state, .default)
  inputs.foldl (processInput state.lastId acc.1.lastId) ⟨acc.1, acc.2, false, false, false⟩

end

/-- The IDs of the scanner fit their packing, and no spend was counted inside its own transaction. -/
structure IdsSafe (state : StatsScannerState) : Prop where
  bound : state.lastId < 2 ^ 60
  packing : ∀ id ≤ state.lastId, ∀ t,
    (UtxoEntry.new id t).id = id ∧ (UtxoEntry.new id t).scriptType = t
  le_last : ∀ outpoint entry, state.utxo.lookup outpoint = some entry → entry.id ≤ state.lastId
  distinct : ∀ outpoint entry outpoint' entry', state.utxo.lookup outpoint = some entry →
    state.utxo.lookup outpoint' = some entry' → entry.id = entry'.id → outpoint = outpoint'
  sameTx : state.stats.sameTxSpends = 0
  p2trSameTx : state.stats.p2trSameTxSpends = 0

/-- No assertion fails and no subtraction underflows when `uids` are measured: once sorted they
ascend strictly, and none lies above the anchor. -/
structure StreamSafe (uids : List ℕ) (anchor : ℕ) : Prop where
  ascending : (uids.insertionSort (· ≤ ·)).IsChain (· < ·)
  le_anchor : ∀ uid ∈ uids, uid ≤ anchor

/-- The counters of spends inside a block move with a spend exactly when the output was created
in that block. -/
structure CountsSpend (block : ℕ) (origin : Option (ℕ × ScriptType)) (stats stats' : RunStats) :
    Prop where
  sameBlock : stats'.sameBlockSpends =
    stats.sameBlockSpends + if origin.any (fun o => o.1 = block) then 1 else 0
  p2trSameBlock : stats'.p2trSameBlockSpends =
    stats.p2trSameBlockSpends + if origin = some (block, .p2tr) then 1 else 0

/-- One block of a scan, from the state before it. -/
structure BlockSafe [Sha256] (block : ℕ) (origins : Origins) (state : StatsScannerState)
    (frame : PreparedBlockFrame) : Prop where
  /-- At its end. -/
  grows : state.lastId ≤ (frame.txs.foldl (processTx state.lastId) (state, .default)).1.lastId
  spent : StreamSafe (frame.txs.foldl (processTx state.lastId) (state, .default)).2.spentUids
    (frame.txs.foldl (processTx state.lastId) (state, .default)).1.lastId
  p2trSpent : StreamSafe (frame.txs.foldl (processTx state.lastId) (state, .default)).2.p2trSpentUids
    (frame.txs.foldl (processTx state.lastId) (state, .default)).1.lastId
  /-- In front of each input. -/
  inputs : ∀ txs tx rest, frame.txs = txs ++ tx :: rest → tx.isCoinbase = false →
    ∀ before input after, tx.inputs = before ++ input :: after →
      IdsSafe (inputLoopAt state txs before).state ∧
      CountsSpend block ((before.foldl Origins.spend (txs.foldl (Origins.tx block) origins)).lookup
          input.previousOutput)
        (inputLoopAt state txs before).state.stats (inputLoopAt state txs (before ++ [input])).state.stats

end BitcoinData.Stats
