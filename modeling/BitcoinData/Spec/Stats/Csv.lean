import BitcoinData.Lib.Lines
import BitcoinData.Spec.Stats.Resume

/-! `stats/sinks/csv.rs`: the rows of a CSV file behind a buffered writer. Everything the sink
writes is ASCII, so a character is a byte. Bytes in the writer are lost when the process
stops; bytes handed to the file are not. -/

namespace BitcoinData.Stats

open Lib

/-! ## Text of a row -/

/-- `to_string` of an unsigned integer of the given width. -/
def uintToString (bits n : ℕ) : List Char := Nat.toDigits 10 (n % 2 ^ bits)

def u32ToString : ℕ → List Char := uintToString 32
def u64ToString : ℕ → List Char := uintToString 64
def u128ToString : ℕ → List Char := uintToString 128

def headerColumns : List (List Char) :=
  ["height", "block_hash", "stats_version", "last_global_id", "output_count",
    "p2tr_output_count", "p2tr_reused_count", "spends", "p2tr_spends", "p2tr_keypath_spends",
    "p2tr_scriptpath_spends", "p2tr_nums_spends", "p2tr_sp_eligible_spends",
    "p2tr_inscription_spends", "p2tr_nums_and_inscription_spends", "nonsp_txs",
    "nonsp_tx_outputs", "out_p2pk", "out_p2pkh", "out_p2sh", "out_p2wpkh", "out_p2wsh",
    "out_p2tr", "out_p2a", "out_op_return", "out_unknown", "in_p2pk", "in_p2pkh", "in_p2sh",
    "in_p2wpkh", "in_p2wsh", "in_p2tr", "in_p2a", "in_op_return", "in_unknown",
    "sorted_spent_values", "sorted_spent_leb128_bytes", "sorted_spent_rice_best_k",
    "sorted_spent_rice_best_bits", "sorted_spent_elias_delta_bits",
    "sorted_spent_ef_bits_with_64bit_base", "sorted_p2tr_spent_values",
    "sorted_p2tr_spent_leb128_bytes", "sorted_p2tr_spent_rice_best_k",
    "sorted_p2tr_spent_rice_best_bits", "sorted_p2tr_spent_elias_delta_bits",
    "sorted_p2tr_spent_ef_bits_with_64bit_base", "utxo_hash",
    "utxo_hash_window"].map String.toList

def BLOCK_STATS_HEADER : List Char := [','].intercalate headerColumns

def typeCountFields (counts : TypeCounts) : List (List Char) :=
  [counts.p2pk, counts.p2pkh, counts.p2sh, counts.p2wpkh, counts.p2wsh, counts.p2tr, counts.p2a,
    counts.opReturn, counts.unknown].map u64ToString

def estimateFields (estimate : SortedUidBlockEstimate) : List (List Char) :=
  [u64ToString estimate.values, u128ToString estimate.leb128Bytes, u32ToString estimate.riceBestK,
    u128ToString estimate.riceBestBits, u128ToString estimate.eliasDeltaBits,
    u128ToString estimate.efBitsWith64bitBase]

/-- The fields after the height. -/
def otherFields (r : BlockStats) : List (List Char) :=
  [r.blockHash, u32ToString r.statsVersion, u64ToString r.lastGlobalId, u64ToString r.outputCount,
    u64ToString r.p2trOutputCount, u64ToString r.p2trReusedCount, u64ToString r.spends,
    u64ToString r.p2trSpends, u64ToString r.p2trKeypathSpends, u64ToString r.p2trScriptpathSpends,
    u64ToString r.p2trNumsSpends, u64ToString r.p2trSpEligibleSpends,
    u64ToString r.p2trInscriptionSpends, u64ToString r.p2trNumsAndInscriptionSpends,
    u64ToString r.nonspTxs, u64ToString r.nonspTxOutputs] ++
  typeCountFields r.scriptOutputs ++ typeCountFields r.scriptInputs ++
  estimateFields r.sortedSpent ++ estimateFields r.sortedP2trSpent ++
  [r.utxoHash, u64ToString r.utxoHashWindow]

/-- The fields joined with commas, without the newline. -/
def csvLine (r : BlockStats) : List Char :=
  u64ToString r.height ++ (otherFields r).flatMap fun field => ',' :: field

/-! ## The writer -/

/-- `tokio::io::BufWriter<File>`: what the file holds, and what only the writer holds. -/
structure CsvSink where
  file : List Char
  buf : List Char

/-- The capacity of `BufWriter::new`. -/
def DEFAULT_BUF_SIZE : ℕ := 8 * 1024

namespace CsvSink

def flush (self : CsvSink) : CsvSink := ⟨self.file ++ self.buf, []⟩

/-- `write_all`: what does not fit makes room first, and what would fill the buffer is
written past it. -/
def write (self : CsvSink) (data : List Char) : CsvSink :=
  let self := if self.buf.length + data.length > DEFAULT_BUF_SIZE then self.flush else self
  if data.length ≥ DEFAULT_BUF_SIZE then { self with file := self.file ++ data }
  else { self with buf := self.buf ++ data }

/-- `StatsCsvSink::append` on a file. -/
def append (file : List Char) : CsvSink :=
  let self : CsvSink := ⟨file, []⟩
  if file.length = 0 then (self.write BLOCK_STATS_HEADER).write ['\n'] else self

def emitBlock (self : CsvSink) (row : BlockStats) : CsvSink := self.write (csvLine row ++ ['\n'])

end CsvSink

/-! ## Rollback -/

def stripSign : List Char → List Char
  | '+' :: rest => rest
  | text => text

def parseU64 (text : List Char) : Option ℕ :=
  let digits := stripSign text
  if digits = [] ∨ ¬ digits.all Char.isDigit then none
  else
    let value := Nat.ofDigitChars 10 digits 0
    if value < 2 ^ 64 then some value else none

/-- The height that a line of the file is the row of. -/
def rowHeight (line : List Char) : Option ℕ := parseU64 (line.takeWhile (· ≠ ','))

def rollbackCsvToHeight (content : List Char) (height : ℕ) : List Char :=
  unlines ((lines content).zipIdx.filterMap fun p =>
    if p.2 = 0 then some p.1
    else if (rowHeight p.1).any (· ≤ height) then some p.1
    else none)

namespace CsvSink

def rollbackToHeight (self : CsvSink) (height : ℕ) : CsvSink :=
  let self := self.flush
  { self with file := rollbackCsvToHeight self.file height }

/-- `emit_run` keeps its default, which does nothing. -/
def apply (self : CsvSink) : ScanEffect → CsvSink
  | .rollbackToHeight height => self.rollbackToHeight height
  | .emitBlock row => self.emitBlock row
  | .flush => self.flush
  | .saveCheckpoint _ => self
  | .removeCheckpoint _ => self
  | .emitRun _ => self

end CsvSink

/-- The sink after some effects of a scan that opened `file`. -/
def csvAfter (file : List Char) (effects : List ScanEffect) : CsvSink :=
  effects.foldl CsvSink.apply (.append file)

/-- A process that opened `file` and `dir` and stops here: for every checkpoint in the directory,
the file holds the row of each height that the process has emitted up to it. -/
def Committed (file : List Char) (dir : CheckpointDir) (effects : List ScanEffect) : Prop :=
  ∀ entry ∈ effects.foldl CheckpointDir.apply dir, ∀ checkpoint, entry.content = some checkpoint →
    ∀ row ∈ emittedRows effects, row.height ≤ checkpoint.height →
      csvLine row ∈ lines (csvAfter file effects).file

/-! ## Restarts -/

def ScanEffect.isRollback : ScanEffect → Bool
  | .rollbackToHeight _ => true
  | _ => false

/-- The sink of a scan before its rows: the file is open, and rolled back if the scan came so far. -/
def reopened (file : List Char) (effects : List ScanEffect) : CsvSink :=
  csvAfter file (effects.filter ScanEffect.isRollback)

/-- What a stop after `effects` may leave of `file`: the first of the rows emitted, with all those
up to the last checkpoint. A header that was not in the file yet is lost only with every row. -/
structure Survives (file : List Char) (effects : List ScanEffect) (kept : List BlockStats)
    (file' : List Char) : Prop where
  emitted : kept <+: emittedRows effects
  checkpointed : ∀ before checkpoint, before ++ [.saveCheckpoint checkpoint] <+: effects →
    emittedRows before <+: kept
  text : file' = (reopened file effects).flush.file ++ unlines (kept.map csvLine) ∨
    kept = [] ∧ file' = (reopened file effects).file

section
variable [Sha256]

/-- A run with `--resume` over the heights from `start` to `last` of the chain. -/
structure ResumeRun (chain : Chain) (start last : ℕ) (source : BlockSource) (cfg : ScanConfig) : Prop where
  serves : ∃ best, Serves source chain best ∧ cfg.maxEnd best = last
  start_eq : cfg.start = start
  resume : cfg.checkpoints.enabled = true

/-- The CSV file and the checkpoint directory after any number of runs, each of them stopped
somewhere. `Ok` may restrict in which states a run is started. -/
inductive Restarts (Ok : List Char → CheckpointDir → BlockSource → ScanConfig → Prop) (chain : Chain)
    (start last : ℕ) : List Char → CheckpointDir → Prop
  | empty : Restarts Ok chain start last [] []
  | stopped {file dir source cfg effects kept file'} :
    Restarts Ok chain start last file dir → ResumeRun chain start last source cfg →
    Ok file dir source cfg → effects <+: (scan source cfg dir).effects →
    Survives file effects kept file' →
    Restarts Ok chain start last file' (effects.foldl CheckpointDir.apply dir)

end

/-- A run that finds no checkpoint to resume from finds no rows either. -/
def StartsClean (file : List Char) (dir : CheckpointDir) (source : BlockSource) (cfg : ScanConfig) : Prop :=
  resumedFrom source cfg dir = .ok none → (lines file).length ≤ 1

/-- The header, and one row for each height in ascending order. -/
def ExactlyOnce (file : List Char) (start last : ℕ) : Prop :=
  ∃ rows : List BlockStats, lines file = BLOCK_STATS_HEADER :: rows.map csvLine ∧
    rows.map (·.height) = List.range' start (last + 1 - start)

end BitcoinData.Stats
