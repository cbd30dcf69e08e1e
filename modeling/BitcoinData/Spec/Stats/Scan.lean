import Mathlib.Data.Char
import Mathlib.Data.List.Lex
import Mathlib.Order.Basic
import BitcoinData.Spec.LightIndexer
import BitcoinData.Spec.Stats.Block

/-! `stats/scan.rs` with `utxo_hash.rs` and `checkpoint.rs`: the scan loop, the scanner
state it carries from block to block, and the checkpoints it writes and restores. A
scan is modelled by what it does to its sink and to its checkpoint directory, in order,
and by its result; a process that is stopped has done a prefix of that. Timing and
progress reports are left out. -/

namespace BitcoinData.Stats

open Lib

class Sha256 where
  digest : Bytes → FixedBytes 32

/-! ## `utxo_hash.rs` -/

def xorInto (dst src : FixedBytes 32) : FixedBytes 32 :=
  ⟨List.zipWith (· ^^^ ·) dst.bytes src.bytes, by
    rw [List.length_zipWith, dst.length_eq, src.length_eq, min_self]⟩

def u64ToBeBytes (v : ℕ) : Bytes :=
  (List.range 8).map fun i => UInt8.ofNat (v >>> (8 * (7 - i)))

structure RollingUtxoHash where
  window : List (FixedBytes 32)
  acc : FixedBytes 32
  windowBlocks : ℕ
  currentBlock : FixedBytes 32
deriving DecidableEq

namespace RollingUtxoHash

def new (windowBlocks : ℕ) : RollingUtxoHash :=
  { window := []
    acc := FixedBytes.fill 32 0
    windowBlocks
    currentBlock := FixedBytes.fill 32 0 }

def enabled (self : RollingUtxoHash) : Bool := self.windowBlocks > 0

section
variable [Sha256]

/-- `add_output` and `remove_output`, which differ in the tag they hash. -/
def toggle (self : RollingUtxoHash) (tag : Bytes) (globalId : ℕ) : RollingUtxoHash :=
  if self.enabled then
    { self with
      currentBlock := xorInto self.currentBlock (Sha256.digest (tag ++ u64ToBeBytes globalId)) }
  else self

def addOutput (self : RollingUtxoHash) (globalId : ℕ) : RollingUtxoHash :=
  self.toggle [0x61, 0x64, 0x64] globalId

def removeOutput (self : RollingUtxoHash) (globalId : ℕ) : RollingUtxoHash :=
  self.toggle [0x72, 0x65, 0x6d] globalId

end

def finalizeBlock (self : RollingUtxoHash) : List Char × RollingUtxoHash :=
  if self.enabled then
    let window := self.window ++ [self.currentBlock]
    let excess := window.length - self.windowBlocks
    let acc := (window.take excess).foldl xorInto (xorInto self.acc self.currentBlock)
    (hexEncode acc.bytes,
      { self with window := window.drop excess, acc, currentBlock := FixedBytes.fill 32 0 })
  else ([], self)

end RollingUtxoHash

/-! ## Blocks -/

structure TxIn where
  previousOutput : OutPointKey
  witness : List Bytes
deriving DecidableEq

/-- A decoded transaction with its `compute_txid`; an output is its script. -/
structure Transaction where
  txid : TxidBytes
  input : List TxIn
  output : List Bytes
deriving DecidableEq

def Transaction.isCoinbase (self : Transaction) : Bool :=
  match self.input with
  | [vin] => vin.previousOutput.isCoinbase
  | _ => false

structure DecodedBlockFrame where
  height : ℕ
  hash : BlockHashBytes
  txdata : List Transaction
deriving DecidableEq

structure PreparedInput where
  previousOutput : OutPointKey
  p2trSpendClass : SpendClass
deriving DecidableEq

structure PreparedTx where
  txid : TxidBytes
  isCoinbase : Bool
  inputs : List PreparedInput
  outputScriptTypes : List ScriptType
  outputXonlyKeys : List (Option XOnlyKey)
deriving DecidableEq

structure PreparedBlockFrame where
  height : ℕ
  hash : BlockHashBytes
  txs : List PreparedTx
deriving DecidableEq

def prepareTx (tx : Transaction) : PreparedTx :=
  { txid := tx.txid
    isCoinbase := tx.isCoinbase
    inputs := if tx.isCoinbase then [] else tx.input.map fun vin =>
      { previousOutput := vin.previousOutput, p2trSpendClass := classifyP2trSpend vin.witness }
    outputScriptTypes := tx.output.map classifyScript
    outputXonlyKeys := tx.output.map fun script =>
      if classifyScript script = .p2tr then extractXonlyScript script else none }

def prepareDecodedBlock (frame : DecodedBlockFrame) : PreparedBlockFrame :=
  { height := frame.height, hash := frame.hash, txs := frame.txdata.map prepareTx }

/-! ## Scanner state -/

/-- The output id in the upper 60 bits, the script type in the lower 4. -/
structure UtxoEntry where
  packed : ℕ
deriving DecidableEq

def UtxoEntry.new (id : ℕ) (scriptType : ScriptType) : UtxoEntry :=
  ⟨(id <<< 4) % 2 ^ 64 ||| scriptType.toU8⟩

def UtxoEntry.id (self : UtxoEntry) : ℕ := self.packed >>> 4

def UtxoEntry.scriptType (self : UtxoEntry) : ScriptType :=
  ScriptType.fromU8 (self.packed &&& (2 ^ 4 - 1))

structure StatsScannerState where
  lastId : ℕ
  utxo : Finmap fun _ : OutPointKey => UtxoEntry
  seenKeys : Finset XOnlyKey
  stats : RunStats
  utxoHash : RollingUtxoHash
  missing : ℕ

def StatsScannerState.new (utxoHashWindow : ℕ) : StatsScannerState :=
  { lastId := 0
    utxo := ∅
    seenKeys := ∅
    stats := .new
    utxoHash := .new utxoHashWindow
    missing := 0 }

/-! ## The serial commit of one block -/

section
variable [Sha256]

/-- The input loop of one transaction. -/
structure InputLoop where
  state : StatsScannerState
  perBlock : PerBlock
  anySpEligibleInput : Bool
  hasNonP2trInput : Bool
  p2trInputSeen : Bool

def spendContext (prevId lastIdAtTxStart lastIdAtBlockStart : ℕ) : SpendContext :=
  if prevId > lastIdAtTxStart then .sameTx
  else if prevId > lastIdAtBlockStart then .sameBlock
  else .earlier

def processInput (lastIdAtBlockStart lastIdAtTxStart : ℕ) (loop : InputLoop)
    (input : PreparedInput) : InputLoop :=
  let state := loop.state
  match state.utxo.lookup input.previousOutput with
  | some entry =>
    let prevId := entry.id
    let prevScriptType := entry.scriptType
    let ctx := spendContext prevId lastIdAtTxStart lastIdAtBlockStart
    let isP2trSpend : Bool := prevScriptType = .p2tr
    let stats := (state.stats.recordSpend ctx).recordInputScript prevScriptType
    let perBlock := (loop.perBlock.recordSpendUid prevId isP2trSpend).recordInputScript prevScriptType
    let cls := input.p2trSpendClass
    let state := { state with
      utxo := state.utxo.erase input.previousOutput
      utxoHash := state.utxoHash.removeOutput prevId }
    if isP2trSpend then
      { state := { state with stats := stats.recordP2trSpend cls ctx }
        perBlock := perBlock.recordP2trSpend cls
        anySpEligibleInput := loop.anySpEligibleInput || cls.path ≠ .scriptNums
        hasNonP2trInput := loop.hasNonP2trInput
        p2trInputSeen := true }
    else
      { loop with state := { state with stats }, perBlock, hasNonP2trInput := true }
  | none =>
    { loop with state := { state with missing := state.missing + 1 }, hasNonP2trInput := true }

/-- The counters of the run at one output. -/
def RunStats.accountOutput (self : RunStats) (scriptType : ScriptType) (reused txIsNonsp : Bool) : RunStats :=
  let self := { self with outputs := self.outputs + 1 }
  let self := self.recordOutputScript scriptType
  let self := if scriptType = .p2tr then
      let self := { self with p2trOutputs := self.p2trOutputs + 1 }
      if reused then { self with p2trReused := self.p2trReused + 1 } else self
    else self
  if txIsNonsp then { self with nonspTxOutputs := self.nonspTxOutputs + 1 } else self

/-- The counters of the block at one output. -/
def PerBlock.accountOutput (self : PerBlock) (scriptType : ScriptType) (reused txIsNonsp : Bool) :
    PerBlock :=
  let self := self.recordOutputScript scriptType
  let self := self.recordOutput (scriptType = .p2tr) reused
  if txIsNonsp then { self with nonspTxOutputs := self.nonspTxOutputs + 1 } else self

def processOutput (txid : TxidBytes) (txIsNonsp : Bool) (acc : StatsScannerState × PerBlock)
    (output : (ScriptType × Option XOnlyKey) × ℕ) : StatsScannerState × PerBlock :=
  let (state, perBlock) := acc
  let ((scriptType, xonlyKey), voutIdx) := output
  let lastId := state.lastId + 1
  let reused : Bool := xonlyKey.any fun k => k ∈ state.seenKeys
  let seenKeys := match xonlyKey with
    | some k => insert k state.seenKeys
    | none => state.seenKeys
  let op : OutPointKey := { txid, vout := UInt32.ofNat voutIdx }
  ({ state with
      lastId
      utxo := state.utxo.insert op (UtxoEntry.new lastId scriptType)
      seenKeys
      stats := state.stats.accountOutput scriptType reused txIsNonsp
      utxoHash := state.utxoHash.addOutput lastId },
    perBlock.accountOutput scriptType reused txIsNonsp)

def processTx (lastIdAtBlockStart : ℕ) (acc : StatsScannerState × PerBlock) (tx : PreparedTx) :
    StatsScannerState × PerBlock :=
  let (state, perBlock) := acc
  let start : InputLoop := ⟨state, perBlock, false, false, false⟩
  let loop := if tx.isCoinbase then start
    else tx.inputs.foldl (processInput lastIdAtBlockStart state.lastId) start
  let txIsNonsp := !tx.isCoinbase && loop.p2trInputSeen && !loop.anySpEligibleInput &&
    !loop.hasNonP2trInput
  let acc := if txIsNonsp then
      ({ loop.state with
          stats := { loop.state.stats with nonspTxs := loop.state.stats.nonspTxs + 1 } },
        { loop.perBlock with nonspTxs := loop.perBlock.nonspTxs + 1 })
    else (loop.state, loop.perBlock)
  (tx.outputScriptTypes.zip tx.outputXonlyKeys).zipIdx.foldl (processOutput tx.txid txIsNonsp) acc

def blockHashHex (hash : BlockHashBytes) : List Char := hexEncode hash.bytes.reverse

/-- The body of the loop over a batch, up to the sink. -/
def processBlock (utxoHashWindow : ℕ) (state : StatsScannerState) (frame : PreparedBlockFrame) :
    Except String (StatsScannerState × BlockStats) := do
  let lastIdAtBlockStart := state.lastId
  let (state, perBlock) := frame.txs.foldl (processTx lastIdAtBlockStart) (state, .default)
  let (utxoHashHex, utxoHash) := state.utxoHash.finalizeBlock
  let row := { BlockStats.new frame.height with
    blockHash := blockHashHex frame.hash
    lastGlobalId := state.lastId
    utxoHash := utxoHashHex
    utxoHashWindow }
  let (stats, row) ← perBlock.measureSortedUidEncoding state.lastId state.stats row
  let (row, _) := perBlock.drainInto row
  let row := { row with outputCount := state.lastId - lastIdAtBlockStart }
  return ({ state with utxoHash, stats }, row.refreshClasses)

end

/-! ## Checkpoints -/

structure CheckpointConfig where
  every : ℕ
  keep : ℕ
  enabled : Bool
deriving DecidableEq

structure ScanConfig where
  start : ℕ
  blocks : ℕ
  sourceBatchSize : ℕ
  utxoHashWindow : ℕ
  finalityDepth : ℕ
  checkpoints : CheckpointConfig
deriving DecidableEq

structure StatsCheckpoint where
  checkpointFormatVersion : ℕ
  statsStateVersion : ℕ
  startHeight : ℕ
  nextHeight : ℕ
  height : ℕ
  blockHash : BlockHashBytes
  utxoHashWindow : ℕ
  finalityDepth : ℕ
  scannerState : StatsScannerState

def CHECKPOINT_FORMAT_VERSION : ℕ := 1

def makeCheckpoint (cfg : ScanConfig) (state : StatsScannerState) (height : ℕ)
    (blockHash : BlockHashBytes) : StatsCheckpoint :=
  { checkpointFormatVersion := CHECKPOINT_FORMAT_VERSION
    statsStateVersion := STATS_STATE_VERSION
    startHeight := cfg.start
    nextHeight := height + 1
    height
    blockHash
    utxoHashWindow := cfg.utxoHashWindow
    finalityDepth := cfg.finalityDepth
    scannerState := state }

/-- A decimal number with leading zeros up to `width` digits. -/
def zeroPadded (width n : ℕ) : List Char :=
  List.replicate (width - (Nat.toDigits 10 n).length) '0' ++ Nat.toDigits 10 n

/-- `checkpoint-`. -/
def checkpointStem : List Char := ['c', 'h', 'e', 'c', 'k', 'p', 'o', 'i', 'n', 't', '-']

/-- `.postcard`. -/
def checkpointExtension : List Char := ['.', 'p', 'o', 's', 't', 'c', 'a', 'r', 'd']

/-- The name of a checkpoint file, `checkpoint_path` without its directory. -/
def checkpointName (height : ℕ) (hash : BlockHashBytes) : List Char :=
  checkpointStem ++ (zeroPadded 12 height ++ '-' :: (blockHashHex hash ++ checkpointExtension))

def isCheckpointName (name : List Char) : Bool :=
  checkpointStem.isPrefixOf name && checkpointExtension.isSuffixOf name

/-- A file of the checkpoint directory; `none` does not decode as a checkpoint. -/
structure CheckpointFile where
  name : List Char
  content : Option StatsCheckpoint

/-- A directory, in the order in which it is read. -/
abbrev CheckpointDir := List CheckpointFile

namespace CheckpointDir

def save (dir : CheckpointDir) (checkpoint : StatsCheckpoint) : CheckpointDir :=
  let name := checkpointName checkpoint.height checkpoint.blockHash
  dir.filter (fun file => file.name ≠ name) ++ [⟨name, some checkpoint⟩]

def remove (dir : CheckpointDir) (name : List Char) : CheckpointDir :=
  dir.filter fun file => file.name ≠ name

def listNewestFirst (dir : CheckpointDir) : List CheckpointFile :=
  ((dir.filter fun file => isCheckpointName file.name).insertionSort
    fun a b => a.name ≤ b.name).reverse

/-- The names that `prune_checkpoints` removes, in its order. -/
def pruned (dir : CheckpointDir) (keep : ℕ) : List (List Char) :=
  if keep = 0 then []
  else
    let checkpoints := dir.listNewestFirst
    if checkpoints.length ≤ keep then []
    else (checkpoints.reverse.take (checkpoints.length - keep)).map (·.name)

end CheckpointDir

namespace CheckpointConfig

/-- `CheckpointWriter::enabled`. -/
def writes (self : CheckpointConfig) : Bool := self.enabled && self.every > 0

/-- `on_committed_block`: whether a checkpoint is due, and the new count. -/
def onCommittedBlock (self : CheckpointConfig) (processedSinceCheckpoint : ℕ) : Bool × ℕ :=
  if !self.writes then (false, processedSinceCheckpoint)
  else if processedSinceCheckpoint + 1 ≥ self.every then (true, 0)
  else (false, processedSinceCheckpoint + 1)

def needsFinalFlush (self : CheckpointConfig) (processedSinceCheckpoint : ℕ) : Bool :=
  self.writes && processedSinceCheckpoint > 0

end CheckpointConfig

/-! ## The source -/

/-- A `BlockSource` and the decoding of what it returns; a block that does not decode
is a failed request. -/
structure BlockSource where
  getBestHeight : Except String ℕ
  getBlockHash : ℕ → Except String BlockHashBytes
  getBlockByHeight : ℕ → Except String DecodedBlockFrame
  getBlockRangeByHeight : ℕ → ℕ → Except String (List DecodedBlockFrame)
  supportsBlockRangeBatches : Bool

/-- Concurrent fetches are joined and sorted by height. -/
def fetchAndPrepareBatch (source : BlockSource) (startHeight count : ℕ) :
    Except String (List PreparedBlockFrame) := do
  if source.supportsBlockRangeBatches then
    let frames ← source.getBlockRangeByHeight startHeight count
    return frames.map prepareDecodedBlock
  else
    let frames ← (List.range' startHeight count).mapM source.getBlockByHeight
    return (frames.map prepareDecodedBlock).insertionSort fun a b => a.height ≤ b.height

/-- The newest checkpoint of the current version, of the configured hash window and
on the canonical chain. -/
def restoreFrom (source : BlockSource) (cfg : ScanConfig) :
    List CheckpointFile → Except String (Option StatsCheckpoint)
  | [] => .ok none
  | file :: older =>
    match file.content with
    | none => restoreFrom source cfg older
    | some checkpoint =>
      if checkpoint.statsStateVersion ≠ STATS_STATE_VERSION then restoreFrom source cfg older
      else if checkpoint.utxoHashWindow ≠ cfg.utxoHashWindow then restoreFrom source cfg older
      else do
        let canonicalHash ← source.getBlockHash checkpoint.height
        if canonicalHash = checkpoint.blockHash then return some checkpoint
        else restoreFrom source cfg older

def restoreNewestValidCheckpoint (source : BlockSource) (cfg : ScanConfig) (dir : CheckpointDir) :
    Except String (Option StatsCheckpoint) :=
  restoreFrom source cfg dir.listNewestFirst

/-! ## The scan -/

/-- What a scan does outside its own memory. -/
inductive ScanEffect
  | rollbackToHeight (height : ℕ)
  | emitBlock (row : BlockStats)
  | saveCheckpoint (checkpoint : StatsCheckpoint)
  | removeCheckpoint (name : List Char)
  | emitRun (stats : RunStats)
  | flush

def CheckpointDir.apply (dir : CheckpointDir) : ScanEffect → CheckpointDir
  | .saveCheckpoint checkpoint => dir.save checkpoint
  | .removeCheckpoint name => dir.remove name
  | _ => dir

/-- The variables of the scan loop, with the effects so far. -/
structure ScanLoop where
  state : StatsScannerState
  processedSinceCheckpoint : ℕ
  lastCommitted : Option (ℕ × BlockHashBytes)
  dir : CheckpointDir
  effects : List ScanEffect

def ScanLoop.perform (self : ScanLoop) (effect : ScanEffect) : ScanLoop :=
  { self with dir := self.dir.apply effect, effects := self.effects ++ [effect] }

def ScanLoop.writeCheckpoint (self : ScanLoop) (cfg : CheckpointConfig)
    (checkpoint : StatsCheckpoint) : ScanLoop :=
  let saved := self.perform (.saveCheckpoint checkpoint)
  ((saved.dir.pruned cfg.keep).map ScanEffect.removeCheckpoint).foldl ScanLoop.perform saved

section
variable [Sha256]

def commitFrame (cfg : ScanConfig) (loop : ScanLoop) (frame : PreparedBlockFrame) :
    Except String ScanLoop := do
  let (state, row) ← processBlock cfg.utxoHashWindow loop.state frame
  let (due, processedSinceCheckpoint) :=
    cfg.checkpoints.onCommittedBlock loop.processedSinceCheckpoint
  let loop := { loop.perform (.emitBlock row) with
    state
    processedSinceCheckpoint
    lastCommitted := some (frame.height, frame.hash) }
  if due then
    return loop.writeCheckpoint cfg.checkpoints (makeCheckpoint cfg state frame.height frame.hash)
  else
    return loop

/-- The loop over a batch; an error leaves what was done before it. -/
def commitFrames (cfg : ScanConfig) : ScanLoop → List PreparedBlockFrame →
    ScanLoop × Except String Unit
  | loop, [] => (loop, .ok ())
  | loop, frame :: frames =>
    match commitFrame cfg loop frame with
    | .ok loop => commitFrames cfg loop frames
    | .error e => (loop, .error e)

/-- The loop over the batches. Each takes at least one height, so the number of heights
left is enough fuel. -/
def scanBatches (source : BlockSource) (cfg : ScanConfig) (maxEnd : ℕ) :
    ℕ → ℕ → ScanLoop → ScanLoop × Except String Unit
  | 0, _, loop => (loop, .ok ())
  | fuel + 1, nextHeight, loop =>
    if nextHeight ≤ maxEnd then
      let thisCount := min (maxEnd - nextHeight + 1) (max cfg.sourceBatchSize 1)
      match fetchAndPrepareBatch source nextHeight thisCount with
      | .error e => (loop, .error e)
      | .ok batch =>
        match commitFrames cfg loop batch with
        | (loop, .error e) => (loop, .error e)
        | (loop, .ok ()) => scanBatches source cfg maxEnd fuel (nextHeight + thisCount) loop
    else (loop, .ok ())

/-- After the last batch. -/
def ScanLoop.finish (self : ScanLoop) (cfg : ScanConfig) : ScanLoop :=
  let loop := if cfg.checkpoints.needsFinalFlush self.processedSinceCheckpoint then
      match self.lastCommitted with
      | some (height, hash) =>
        self.writeCheckpoint cfg.checkpoints (makeCheckpoint cfg self.state height hash)
      | none => self
    else self
  (loop.perform (.emitRun loop.state.stats)).perform .flush

/-- `result` is the final scanner state; the source returns its `stats`. -/
structure ScanOutcome where
  effects : List ScanEffect
  result : Except String StatsScannerState

/-- Where the scan starts, and with what. -/
def scanStart (cfg : ScanConfig) : Option StatsCheckpoint → ℕ
  | some checkpoint => checkpoint.nextHeight
  | none => cfg.start

def ScanLoop.start (cfg : ScanConfig) (dir : CheckpointDir) : Option StatsCheckpoint → ScanLoop
  | some checkpoint =>
    { state := checkpoint.scannerState
      processedSinceCheckpoint := 0
      lastCommitted := none
      dir
      effects := [.rollbackToHeight checkpoint.height] }
  | none =>
    { state := .new cfg.utxoHashWindow
      processedSinceCheckpoint := 0
      lastCommitted := none
      dir
      effects := [] }

/-- The scan once its last height and its checkpoint are known. -/
def scanFrom (source : BlockSource) (cfg : ScanConfig) (dir : CheckpointDir) (maxEnd : ℕ)
    (restored : Option StatsCheckpoint) : ScanOutcome :=
  let loop := ScanLoop.start cfg dir restored
  let start := scanStart cfg restored
  if start > maxEnd then ⟨loop.effects, .ok loop.state⟩
  else
    match scanBatches source cfg maxEnd (maxEnd + 1 - start) start loop with
    | (loop, .error e) => ⟨loop.effects, .error e⟩
    | (loop, .ok ()) => ⟨(loop.finish cfg).effects, .ok loop.state⟩

def ScanConfig.safeHeight (cfg : ScanConfig) (tipHeight : ℕ) : ℕ := tipHeight - cfg.finalityDepth

def ScanConfig.maxEnd (cfg : ScanConfig) (tipHeight : ℕ) : ℕ :=
  min (min (cfg.start + (cfg.blocks - 1)) U64_MAX) (cfg.safeHeight tipHeight)

def scan (source : BlockSource) (cfg : ScanConfig) (dir : CheckpointDir) : ScanOutcome :=
  match source.getBestHeight with
  | .error e => ⟨[], .error e⟩
  | .ok tipHeight =>
    if cfg.safeHeight tipHeight < cfg.start then ⟨[], .ok (.new cfg.utxoHashWindow)⟩
    else if cfg.checkpoints.enabled then
      match restoreNewestValidCheckpoint source cfg dir with
      | .error e => ⟨[], .error e⟩
      | .ok restored => scanFrom source cfg dir (cfg.maxEnd tipHeight) restored
    else scanFrom source cfg dir (cfg.maxEnd tipHeight) none

end

def emittedRows (effects : List ScanEffect) : List BlockStats :=
  effects.filterMap fun
    | .emitBlock row => some row
    | _ => none

/-- The checkpoint that an effect saves. -/
def ScanEffect.checkpoint? : ScanEffect → Option StatsCheckpoint
  | .saveCheckpoint checkpoint => some checkpoint
  | _ => none

end BitcoinData.Stats
