import BitcoinData.Lib.Unordered
import BitcoinData.Spec.Stats.Resume

/-! The fetch pipeline of `stats/scan.rs`: the blocks of a batch are fetched and prepared beside
each other, and the order in which they are ready is left open. -/

namespace BitcoinData.Stats

open Lib

/-- The contract of `BlockSource`: the height of a block is the one asked for, and a range is the
blocks one by one. -/
structure ServesBlocks (source : BlockSource) (block : ℕ → DecodedBlockFrame) (best : ℕ) : Prop where
  bestHeight : source.getBestHeight = .ok best
  byHeight : ∀ h ≤ best, source.getBlockByHeight h = .ok (block h)
  height_eq : ∀ h ≤ best, (block h).height = h
  range : ∀ start count, start + count ≤ best + 1 →
    source.getBlockRangeByHeight start count = .ok ((List.range' start count).map block)

/-- The order in which the blocks of a batch are ready, by its first height and its length. -/
abbrev Schedule := ℕ → ℕ → List ℕ

/-- Every batch is run by `buffer_unordered`. -/
def Schedule.Possible (schedule : Schedule) (inFlight : ℕ) : Prop :=
  ∀ start count, Completes inFlight (List.range' start count) [] (schedule start count)

def ScanConfig.batchSize (cfg : ScanConfig) : ℕ := max cfg.sourceBatchSize 1

def ScanConfig.inFlight (cfg : ScanConfig) (buffer : ℕ) : ℕ := min (max buffer 1) cfg.batchSize

/-- `fetch_and_prepare_batch`. Blocks are collected as they are ready. -/
def fetchAndPrepareBatchIn (source : BlockSource) (schedule : Schedule) (startHeight count : ℕ) :
    Except String (List PreparedBlockFrame) := do
  if source.supportsBlockRangeBatches then
    let frames ← source.getBlockRangeByHeight startHeight count
    return frames.map prepareDecodedBlock
  else
    let _ ← checkedAddU64 startHeight count
    let frames ← (schedule startHeight count).mapM source.getBlockByHeight
    return (frames.map prepareDecodedBlock).insertionSort fun a b => a.height ≤ b.height

/-- The next batch, with the number of heights asked for. -/
def nextBatch (source : BlockSource) (cfg : ScanConfig) (schedule : Schedule)
    (maxEnd nextHeight : ℕ) : Except String (ℕ × List PreparedBlockFrame) := do
  let remaining ← checkedAddU64 (maxEnd - nextHeight) 1
  let thisCount := min remaining cfg.batchSize
  let batch ← fetchAndPrepareBatchIn source schedule nextHeight thisCount
  return (thisCount, batch)

section
variable [Sha256]

/-- The loop over the batches, which advances by the number of heights asked for. -/
def scanBatchesIn (source : BlockSource) (cfg : ScanConfig) (schedule : Schedule) (maxEnd : ℕ) :
    ℕ → ℕ → ScanLoop → ScanLoop × Except String Unit
  | 0, _, loop => (loop, .ok ())
  | fuel + 1, nextHeight, loop =>
    if nextHeight ≤ maxEnd then
      match nextBatch source cfg schedule maxEnd nextHeight with
      | .error e => (loop, .error e)
      | .ok (thisCount, batch) =>
        match commitFrames cfg loop batch with
        | (loop, .error e) => (loop, .error e)
        | (loop, .ok ()) =>
          match checkedAddU64 nextHeight thisCount with
          | .error e => (loop, .error e)
          | .ok nextHeight => scanBatchesIn source cfg schedule maxEnd fuel nextHeight loop
    else (loop, .ok ())

/-- How a scan ends after its batches. -/
def ScanOutcome.ofLoop (cfg : ScanConfig) : ScanLoop × Except String Unit → ScanOutcome
  | (loop, .error e) => ⟨loop.effects, .error e⟩
  | (loop, .ok ()) => ⟨(loop.finish cfg).effects, .ok loop.state⟩

def scanFromIn (source : BlockSource) (cfg : ScanConfig) (schedule : Schedule) (dir : CheckpointDir)
    (maxEnd : ℕ) (restored : Option StatsCheckpoint) : ScanOutcome :=
  let loop := ScanLoop.start cfg dir restored
  let start := scanStart cfg restored
  if start > maxEnd then ⟨loop.effects, .ok loop.state⟩
  else
    -- `scan_blocks`
    match checkedAddU64 (maxEnd - start) 1 with
    | .error e => ⟨loop.effects, .error e⟩
    | .ok _ => .ofLoop cfg (scanBatchesIn source cfg schedule maxEnd (maxEnd + 1 - start) start loop)

/-- `scan`, with the blocks of each batch ready in the given order. -/
def scanIn (source : BlockSource) (cfg : ScanConfig) (schedule : Schedule) (dir : CheckpointDir) :
    ScanOutcome :=
  match source.getBestHeight with
  | .error e => ⟨[], .error e⟩
  | .ok tipHeight =>
    if cfg.safeHeight tipHeight < cfg.start then ⟨[], .ok (.new cfg.utxoHashWindow)⟩
    else if cfg.checkpoints.enabled then
      match restoreNewestValidCheckpoint source cfg dir with
      | .error e => ⟨[], .error e⟩
      | .ok restored => scanFromIn source cfg schedule dir (cfg.maxEnd tipHeight) restored
    else scanFromIn source cfg schedule dir (cfg.maxEnd tipHeight) none

end

/-- The blocks of `count` heights from `start` on, prepared one after the other. -/
def preparedBlocks (block : ℕ → DecodedBlockFrame) (start count : ℕ) : List PreparedBlockFrame :=
  (List.range' start count).map fun h => prepareDecodedBlock (block h)

end BitcoinData.Stats
