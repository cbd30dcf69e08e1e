import BitcoinData.Spec.Stats.Scan

/-! Scans one after another: the chain they read, the checkpoint each starts from, and
the rows that the scans before it have left behind. -/

namespace BitcoinData.Stats

open Lib

/-- A chain has one block for each height, and every block creates an output: at least
that of its coinbase. -/
structure Chain where
  frame : ℕ → DecodedBlockFrame
  height_eq : ∀ h, (frame h).height = h
  hasOutput : ∀ h, ∃ tx ∈ (frame h).txdata, tx.output ≠ []

/-- The blocks of `count` heights from `start` on, prepared. -/
def Chain.prepared (chain : Chain) (start count : ℕ) : List PreparedBlockFrame :=
  (List.range' start count).map fun h => prepareDecodedBlock (chain.frame h)

/-- A source whose node is at height `best` of the chain and that answers every request. -/
structure Serves (source : BlockSource) (chain : Chain) (best : ℕ) : Prop where
  bestHeight : source.getBestHeight = .ok best
  blockHash : ∀ h ≤ best, source.getBlockHash h = .ok (chain.frame h).hash
  block : ∀ h ≤ best, source.getBlockByHeight h = .ok (chain.frame h)
  range : ∀ start count, start + count ≤ best + 1 →
    source.getBlockRangeByHeight start count = .ok ((List.range' start count).map chain.frame)

/-- The checkpoint that a scan resumes from. A scan without finalized blocks returns before
it looks for one. -/
def resumedFrom (source : BlockSource) (cfg : ScanConfig) (dir : CheckpointDir) :
    Except String (Option StatsCheckpoint) := do
  let tipHeight ← source.getBestHeight
  if cfg.safeHeight tipHeight < cfg.start then return none
  else if cfg.checkpoints.enabled then restoreNewestValidCheckpoint source cfg dir
  else return none

/-- `CheckpointWriter::write_checkpoint` on a directory. A scan calls it only when it is enabled. -/
def CheckpointConfig.writeCheckpoint (self : CheckpointConfig) (dir : CheckpointDir)
    (checkpoint : StatsCheckpoint) : CheckpointDir :=
  if self.writes then
    let dir := dir.save checkpoint
    (dir.pruned self.keep).foldl CheckpointDir.remove dir
  else dir

section
variable [Sha256]

/-- The blocks alone: the rows up to the first failure, and the state after the last block. -/
def runBlocks (utxoHashWindow : ℕ) : StatsScannerState → List PreparedBlockFrame →
    List BlockStats × Except String StatsScannerState
  | state, [] => ([], .ok state)
  | state, frame :: frames =>
    match processBlock utxoHashWindow state frame with
    | .error e => ([], .error e)
    | .ok (state, row) =>
      let (rows, result) := runBlocks utxoHashWindow state frames
      (row :: rows, result)

/-- The state of a scan that starts afresh with `cfg`, after the heights up to `height`. -/
def freshState (chain : Chain) (cfg : ScanConfig) (height : ℕ) : Except String StatsScannerState :=
  (runBlocks cfg.utxoHashWindow (.new cfg.utxoHashWindow)
    (chain.prepared cfg.start (height + 1 - cfg.start))).2

/-- A checkpoint left by a sequence of scans, each of them stopped somewhere after it saved a
checkpoint that the next one resumed from, with the rows emitted up to there. -/
inductive Checkpointed (Run : BlockSource → ScanConfig → Prop) :
    List BlockStats → Option StatsCheckpoint → Prop
  | none : Checkpointed Run [] none
  | saved {rows restored source cfg dir before checkpoint} :
    Checkpointed Run rows restored → Run source cfg → resumedFrom source cfg dir = .ok restored →
    before ++ [.saveCheckpoint checkpoint] <+: (scan source cfg dir).effects →
    Checkpointed Run (rows ++ emittedRows before) (some checkpoint)

/-- A checkpoint directory filled by scans of the chain, one after another, each with its own
configuration and stopped after any of its effects. -/
inductive Filled (chain : Chain) : CheckpointDir → Prop
  | empty : Filled chain []
  | scan {dir source cfg best effects} :
    Filled chain dir → Serves source chain best → effects <+: (scan source cfg dir).effects →
    Filled chain (effects.foldl CheckpointDir.apply dir)

/-- The scans that led to a checkpoint, each resumed from the checkpoint before, began with one
that started afresh at height `start`. -/
inductive BeganAt (chain : Chain) (start : ℕ) : StatsCheckpoint → Prop
  | fresh {source cfg dir best before checkpoint} :
    cfg.start = start → Serves source chain best → resumedFrom source cfg dir = .ok none →
    before ++ [.saveCheckpoint checkpoint] <+: (Stats.scan source cfg dir).effects →
    BeganAt chain start checkpoint
  | resumed {source cfg dir best before earlier checkpoint} :
    BeganAt chain start earlier → Serves source chain best →
    resumedFrom source cfg dir = .ok (some earlier) →
    before ++ [.saveCheckpoint checkpoint] <+: (Stats.scan source cfg dir).effects →
    BeganAt chain start checkpoint

end

end BitcoinData.Stats
