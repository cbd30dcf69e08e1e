import BitcoinData.Lib.Runs
import BitcoinData.Spec.Files
import BitcoinData.Spec.IndexStore

/-! `bin/light_indexer.rs`: `run_command` and `catch_up_ranges` as a state machine.
The disk holds the file archive and RocksDB. A window of blocks is fetched, checked
and applied in memory; its disk effects then happen one at a time, and the process
may stop between any two of them. The block source is whatever the environment
answers to each range request. -/

namespace BitcoinData

open Lib

/-! ## Settings -/

/-- What one archive is indexed with: `ensure_meta` pins the first two. -/
structure IndexerConfig where
  network : String
  emitStartHeight : ℕ
  finalityDepth : ℕ

/-- The tunable part of `CatchUpConfig`; `run_command` refuses zero sizes. -/
structure CatchUpConfig where
  fetchBatchSize : ℕ
  flushBlocks : ℕ
  memoryBudgetBytes : ℕ
  fetchBatchSize_pos : 0 < fetchBatchSize
  flushBlocks_pos : 0 < flushBlocks

def ESTIMATED_PENDING_RAW_MULTIPLIER : ℕ := 4
def ESTIMATED_PENDING_PAYLOAD_MULTIPLIER : ℕ := 2
def ESTIMATED_PENDING_BLOCK_OVERHEAD_BYTES : ℕ := 64 * 1024

def saturatingMul (a b : ℕ) : ℕ := min (a * b) U64_MAX
def saturatingAdd (a b : ℕ) : ℕ := min (a + b) U64_MAX

def estimatePendingMemoryBytes (processedRawBytesSinceFlush pendingPayloadBytes pendingBlocks : ℕ) :
    ℕ :=
  saturatingAdd (saturatingAdd
    (saturatingMul processedRawBytesSinceFlush ESTIMATED_PENDING_RAW_MULTIPLIER)
    (saturatingMul pendingPayloadBytes ESTIMATED_PENDING_PAYLOAD_MULTIPLIER))
    (saturatingMul pendingBlocks ESTIMATED_PENDING_BLOCK_OVERHEAD_BYTES)

/-! ## One chunk -/

/-- A fetched and decoded source chunk. -/
structure DecodedChunk where
  blocks : List BlockScanInput
  rawBytes : ℕ

/-- The block source as one window sees it: any answer to any range request. -/
abbrev FetchChunk := ℕ → ℕ → Except String DecodedChunk

/-- The checks of `decoded.windows(2)`. -/
def validateLinks : List BlockScanInput → Except String Unit
  | prev :: current :: rest => do
    ensure (current.height = prev.height + 1)
      s!"decoded block heights are not contiguous: {prev.height} followed by {current.height}"
    ensure (current.previousBlockHash = prev.blockHash)
      s!"decoded block at height {current.height} does not connect to height {prev.height}"
    validateLinks (current :: rest)
  | _ => .ok ()

def validateDecodedChunk (decoded : List BlockScanInput) (expectedStartHeight : ℕ)
    (expectedPreviousHash : Option BlockHashBytes) : Except String Unit := do
  let first ← okOr decoded.head? s!"decoded block chunk at height {expectedStartHeight} is empty"
  ensure (first.height = expectedStartHeight)
    s!"decoded block chunk starts at height {first.height}, expected {expectedStartHeight}"
  ensure (∀ hash ∈ expectedPreviousHash, first.previousBlockHash = hash)
    s!"decoded block at height {first.height} does not connect to previous chunk tip"
  validateLinks decoded

def spentOutpoints (blocks : List BlockScanInput) : List OutPointKey :=
  blocks.flatMap fun block => block.txs.flatMap fun tx => tx.inputs.map (·.previousOutput)

/-- The source sorts the outpoints before it looks them up; they are distinct, so
the order does not matter. -/
def lookupSpendUidsForChunk (indexStore : RocksIndexStore) (state : P2trIndexerState)
    (decoded : List BlockScanInput) : P2trIndexerState × List OutPointKey :=
  let outpoints := (spentOutpoints decoded).filter fun outpoint =>
    !outpoint.isCoinbase && !state.containsOutpoint outpoint
  state.cacheSpendUidCandidates (indexStore.lookupOutpointUids outpoints.dedup)

structure Pending where
  applied : AppliedBlock
  payload : Bytes

/-- The local variables of the chunk loop. -/
structure ChunkState where
  state : P2trIndexerState
  pending : List Pending
  lastBlock : Option (ℕ × BlockHashBytes)
  previousTipHash : Option BlockHashBytes
  processedRawBytesSinceFlush : ℕ
  pendingPayloadBytes : ℕ
  chunkStart : ℕ

section
variable [Externals]

/-- One block of the serial apply loop. -/
def applyScan (emitStartHeight : ℕ) (acc : P2trIndexerState × List Pending × ℕ)
    (scan : BlockScanInput) : Except String (P2trIndexerState × List Pending × ℕ) :=
  if scan.height ≥ emitStartHeight then do
    let (state, applied) ← acc.1.applyBlockWithStats scan
    let payload ← storedBlockBytes applied.storageBlock
    return (state, acc.2.1 ++ [{ applied, payload }], saturatingAdd acc.2.2 payload.length)
  else
    .ok acc

def processChunk (emitStartHeight : ℕ) (indexStore : RocksIndexStore) (cs : ChunkState)
    (chunk : DecodedChunk) : Except String ChunkState := do
  validateDecodedChunk chunk.blocks cs.chunkStart cs.previousTipHash
  let chunkLast ← okOr chunk.blocks.getLast? "non-empty"
  let (state, rocksdbSpendOutpoints) :=
    lookupSpendUidsForChunk indexStore cs.state chunk.blocks
  let (state, pending, pendingPayloadBytes) ←
    chunk.blocks.foldlM (applyScan emitStartHeight) (state, cs.pending, cs.pendingPayloadBytes)
  return {
    state := state.evictSpendUidCandidates rocksdbSpendOutpoints
    pending
    lastBlock := some (chunkLast.height, chunkLast.blockHash)
    previousTipHash := some chunkLast.blockHash
    processedRawBytesSinceFlush := cs.processedRawBytesSinceFlush + chunk.rawBytes
    pendingPayloadBytes
    chunkStart := chunkLast.height + 1 }

def memoryBudgetReached (config : CatchUpConfig) (flushEndHeight : ℕ) (cs : ChunkState) : Bool :=
  config.memoryBudgetBytes > 0 && cs.chunkStart ≤ flushEndHeight &&
    estimatePendingMemoryBytes cs.processedRawBytesSinceFlush cs.pendingPayloadBytes
      cs.pending.length ≥ config.memoryBudgetBytes

/-- The loop `while chunk_start <= flush_end_height`. Every chunk advances
`chunk_start`, so one round of fuel per block of the window is enough. -/
def chunkLoop (emitStartHeight : ℕ) (config : CatchUpConfig) (indexStore : RocksIndexStore)
    (fetch : FetchChunk) (flushEndHeight : ℕ) : ℕ → ChunkState → Except String ChunkState
  | 0, cs => .ok cs
  | fuel + 1, cs =>
    if cs.chunkStart ≤ flushEndHeight then do
      let chunkCount := min (flushEndHeight - cs.chunkStart + 1) config.fetchBatchSize
      let chunk ← fetch cs.chunkStart chunkCount
      let cs ← processChunk emitStartHeight indexStore cs chunk
      if memoryBudgetReached config flushEndHeight cs then return cs
      else chunkLoop emitStartHeight config indexStore fetch flushEndHeight fuel cs
    else .ok cs

/-- A window ready to be flushed. -/
structure Window where
  pending : List Pending
  lastHeight : ℕ
  lastHash : BlockHashBytes
  state : P2trIndexerState

/-- `catch_up_ranges` up to its first disk effect. -/
def catchUpWindow (emitStartHeight : ℕ) (config : CatchUpConfig) (indexStore : RocksIndexStore)
    (fetch : FetchChunk) (state : P2trIndexerState) (startHeight finalizedTip : ℕ) :
    Except String Window := do
  let flushCount := min (finalizedTip - startHeight + 1) config.flushBlocks
  let flushEndHeight := startHeight + flushCount - 1
  let cs ← chunkLoop emitStartHeight config indexStore fetch flushEndHeight flushCount
    { state
      pending := []
      lastBlock := none
      previousTipHash := indexStore.previousTipHash
      processedRawBytesSinceFlush := 0
      pendingPayloadBytes := 0
      chunkStart := startHeight }
  let (lastHeight, lastHash) ← okOr cs.lastBlock "last height set"
  return { pending := cs.pending, lastHeight, lastHash, state := cs.state }

end

/-! ## Disk effects -/

structure Disk where
  archive : FileArchive
  indexStore : RocksIndexStore

def Disk.empty : Disk := ⟨FileArchive.empty, RocksIndexStore.empty⟩

/-- The argument of `mark_spent_outputs`. -/
def Window.spends (window : Window) : List (ℕ × UInt32 × ℕ) :=
  window.pending.flatMap fun p => p.applied.spentUtxos.map fun spent =>
    (spent.creationHeight, spent.outputIndex, spent.spentHeight)

def hexDigit (n : ℕ) : Char :=
  ['0', '1', '2', '3', '4', '5', '6', '7', '8', '9', 'a', 'b', 'c', 'd', 'e', 'f'].getD n '0'

def hexEncode (bytes : Bytes) : List Char :=
  bytes.flatMap fun b => [hexDigit (b.toNat / 16), hexDigit (b.toNat % 16)]

def displayHash (hash : BlockHashBytes) : String := String.ofList (hexEncode hash.bytes.reverse)

def Window.manifest (config : IndexerConfig) (window : Window) : Manifest :=
  { version := WIRE_VERSION
    network := config.network
    genesisHash := none
    finalityDepth := config.finalityDepth
    suggestedReorgCacheDepth := max config.finalityDepth 144
    maxRangeCount := DEFAULT_MAX_RANGE_COUNT
    tip := some { height := window.lastHeight, blockHash := displayHash window.lastHash } }

/-- Where a process is between two effects of `catch_up_ranges`. -/
inductive Stage
  | idle
  | writing (window : Window) (rest : List Pending)
  | marking (window : Window) (rest : List (ℕ × List (UInt32 × UInt32)))
  | truncating (window : Window)
  | finishing (window : Window)

/-- A running `run_command`. -/
structure Process where
  state : P2trIndexerState
  chainNextHeight : ℕ
  stage : Stage

structure System where
  disk : Disk
  process : Option Process

def System.init : System := ⟨Disk.empty, none⟩

/-- What the environment may do next. -/
inductive Action
  | start
  | catchUp (config : CatchUpConfig) (bestHeight : ℕ) (fetch : FetchChunk)
  | effect
  | crash

/-- The start of `run_command`, up to its loop. -/
def startProcess (config : IndexerConfig) (disk : Disk) : Except String (Disk × Process) := do
  let indexStore ← disk.indexStore.ensureMeta config.network config.emitStartHeight
  let chainNextHeight := match indexStore.tip with
    | some tip => tip.height + 1
    | none => config.emitStartHeight
  let lastUid := match indexStore.tip with
    | some tip => tip.lastUid
    | none => 0
  return ({ disk with indexStore },
    { state := P2trIndexerState.restoreAtUid lastUid, chainNextHeight, stage := .idle })

section
variable [Externals]

/-- The next disk effect of a process that is flushing a window. -/
def performEffect (config : IndexerConfig) (disk : Disk) (process : Process) :
    Option (Except String (Disk × Process)) :=
  match process.stage with
  | .idle => none
  | .writing window (p :: rest) =>
    some (.ok ({ disk with
      archive := disk.archive.writeBlockBytes p.applied.lightBlock.height p.payload },
      { process with stage := .writing window rest }))
  | .writing window [] =>
    some do
      let groups ← FileArchive.groupSpends window.spends
      return (disk, { process with stage := .marking window groups })
  | .marking window (group :: rest) =>
    some do
      let (archive, _) ← disk.archive.markCreationBlock group
      return ({ disk with archive }, { process with stage := .marking window rest })
  | .marking window [] =>
    some (.ok ({ disk with
      indexStore := disk.indexStore.commitAppliedBlocks (window.pending.map (·.applied))
        window.lastHeight window.lastHash window.state.lastUid },
      { process with stage := .truncating window }))
  | .truncating window =>
    some (.ok ({ disk with archive := { disk.archive with manifest := .torn } },
      { process with stage := .finishing window }))
  | .finishing window =>
    some (.ok ({ disk with
      archive := { disk.archive with manifest := .complete (window.manifest config) } },
      { process with stage := .idle }))

/-- One step of the indexer and its environment. An error ends the process, as does
a crash; the disk keeps the effects performed so far. -/
def step (config : IndexerConfig) (sys : System) : Action → Option System
  | .start =>
    match sys.process with
    | some _ => none
    | none =>
      match startProcess config sys.disk with
      | .ok (disk, process) => some ⟨disk, some process⟩
      | .error _ => some sys
  | .catchUp tuning bestHeight fetch =>
    match sys.process with
    | some ⟨state, chainNextHeight, .idle⟩ =>
      let finalizedTip := bestHeight - config.finalityDepth
      if chainNextHeight ≤ finalizedTip then
        match catchUpWindow config.emitStartHeight tuning sys.disk.indexStore fetch state
            chainNextHeight finalizedTip with
        | .ok window => some ⟨sys.disk, some {
            state := window.state
            chainNextHeight := window.lastHeight + 1
            stage := .writing window window.pending }⟩
        | .error _ => some ⟨sys.disk, none⟩
      else none
    | _ => none
  | .effect =>
    match sys.process with
    | none => none
    | some process =>
      match performEffect config sys.disk process with
      | none => none
      | some (.ok (disk, process)) => some ⟨disk, some process⟩
      | some (.error _) => some ⟨sys.disk, none⟩
  | .crash => some ⟨sys.disk, none⟩

/-- The states an archive can be in. -/
def Reachable (config : IndexerConfig) (sys : System) : Prop :=
  ∃ acts, run (step config) System.init acts = some sys

end

end BitcoinData
