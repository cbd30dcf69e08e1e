import BitcoinData.Spec.Rest
import BitcoinData.Spec.Stats.Scan

/-! `stats/stats.rs` and `schema/stats.capnp`: the message of a row. A Cap'n Proto message is the
record of its fields: a field that was set reads back as it was set, and every other field as zero
or empty. -/

namespace BitcoinData.Stats

structure ScriptCountsMessage where
  p2pk : ℕ
  p2pkh : ℕ
  p2sh : ℕ
  p2wpkh : ℕ
  p2wsh : ℕ
  p2tr : ℕ
  p2a : ℕ
  opReturn : ℕ
  unknown : ℕ
deriving DecidableEq

def ScriptCountsMessage.default : ScriptCountsMessage := ⟨0, 0, 0, 0, 0, 0, 0, 0, 0⟩

structure BlockStatsMessage where
  height : ℕ
  lastGlobalId : ℕ
  outputCount : ℕ
  p2trOutputCount : ℕ
  p2trReusedCount : ℕ
  spends : ℕ
  p2trSpends : ℕ
  p2trKeypathSpends : ℕ
  p2trScriptpathSpends : ℕ
  p2trNumsSpends : ℕ
  p2trSpEligibleSpends : ℕ
  nonspTxs : ℕ
  nonspTxOutputs : ℕ
  utxoHash : Bytes
  utxoHashWindow : ℕ
  p2trInscriptionSpends : ℕ
  p2trNumsAndInscriptionSpends : ℕ
  scriptOutputs : ScriptCountsMessage
  scriptInputs : ScriptCountsMessage
  sortedSpentValues : ℕ
  sortedSpentLeb128Bytes : ℕ
  sortedSpentRiceBestK : ℕ
  sortedSpentRiceBestBits : ℕ
  sortedSpentEliasDeltaBits : ℕ
  sortedSpentEfBitsWith64BitBase : ℕ
  sortedP2trSpentValues : ℕ
  sortedP2trSpentLeb128Bytes : ℕ
  sortedP2trSpentRiceBestK : ℕ
  sortedP2trSpentRiceBestBits : ℕ
  sortedP2trSpentEliasDeltaBits : ℕ
  sortedP2trSpentEfBitsWith64BitBase : ℕ
deriving DecidableEq

def BlockStatsMessage.default : BlockStatsMessage :=
  ⟨0, 0, 0, 0, 0, 0, 0, 0, 0, 0, 0, 0, 0, [], 0, 0, 0, .default, .default,
    0, 0, 0, 0, 0, 0, 0, 0, 0, 0, 0, 0⟩

/-! ## Encoding -/

def u128ToU64 (value : ℕ) : ℕ := min value U64_MAX

section
variable [HexCrate]

def fillBlockStats (b : BlockStatsMessage) (src : BlockStats) : BlockStatsMessage :=
  { b with
    height := src.height
    lastGlobalId := src.lastGlobalId
    outputCount := src.outputCount
    p2trOutputCount := src.p2trOutputCount
    p2trReusedCount := src.p2trReusedCount
    spends := src.spends
    p2trSpends := src.p2trSpends
    p2trKeypathSpends := src.p2trKeypathSpends
    p2trScriptpathSpends := src.p2trScriptpathSpends
    p2trNumsSpends := src.p2trNumsSpends
    p2trSpEligibleSpends := src.p2trSpEligibleSpends
    nonspTxs := src.nonspTxs
    nonspTxOutputs := src.nonspTxOutputs
    utxoHash := (HexCrate.decode (asBytes (String.ofList src.utxoHash))).toOption.getD []
    utxoHashWindow := src.utxoHashWindow
    sortedSpentValues := src.sortedSpent.values
    sortedSpentLeb128Bytes := u128ToU64 src.sortedSpent.leb128Bytes
    sortedSpentRiceBestK := src.sortedSpent.riceBestK
    sortedSpentRiceBestBits := u128ToU64 src.sortedSpent.riceBestBits
    sortedSpentEliasDeltaBits := u128ToU64 src.sortedSpent.eliasDeltaBits
    sortedSpentEfBitsWith64BitBase := u128ToU64 src.sortedSpent.efBitsWith64bitBase
    sortedP2trSpentValues := src.sortedP2trSpent.values
    sortedP2trSpentLeb128Bytes := u128ToU64 src.sortedP2trSpent.leb128Bytes
    sortedP2trSpentRiceBestK := src.sortedP2trSpent.riceBestK
    sortedP2trSpentRiceBestBits := u128ToU64 src.sortedP2trSpent.riceBestBits
    sortedP2trSpentEliasDeltaBits := u128ToU64 src.sortedP2trSpent.eliasDeltaBits
    sortedP2trSpentEfBitsWith64BitBase := u128ToU64 src.sortedP2trSpent.efBitsWith64bitBase }

def encodeBlockStats (src : BlockStats) : BlockStatsMessage := fillBlockStats .default src

end

/-! ## What the schema declares -/

def ScriptCountsMessage.ofCounts (counts : TypeCounts) : ScriptCountsMessage :=
  { p2pk := counts.p2pk
    p2pkh := counts.p2pkh
    p2sh := counts.p2sh
    p2wpkh := counts.p2wpkh
    p2wsh := counts.p2wsh
    p2tr := counts.p2tr
    p2a := counts.p2a
    opReturn := counts.opReturn
    unknown := counts.unknown }

/-- The six fields of one stream of sorted IDs, with the wide counts clamped. -/
structure CoversEstimate (estimate : SortedUidBlockEstimate)
    (values leb128Bytes riceBestK riceBestBits eliasDeltaBits efBitsWith64BitBase : ℕ) : Prop where
  values_eq : values = estimate.values
  leb128Bytes_eq : leb128Bytes = min estimate.leb128Bytes U64_MAX
  riceBestK_eq : riceBestK = estimate.riceBestK
  riceBestBits_eq : riceBestBits = min estimate.riceBestBits U64_MAX
  eliasDeltaBits_eq : eliasDeltaBits = min estimate.eliasDeltaBits U64_MAX
  efBits_eq : efBitsWith64BitBase = min estimate.efBitsWith64bitBase U64_MAX

/-- Every field that the schema declares holds the value of the row. -/
structure CoversSchema [HexCrate] (m : BlockStatsMessage) (row : BlockStats) : Prop where
  height : m.height = row.height
  lastGlobalId : m.lastGlobalId = row.lastGlobalId
  outputCount : m.outputCount = row.outputCount
  p2trOutputCount : m.p2trOutputCount = row.p2trOutputCount
  p2trReusedCount : m.p2trReusedCount = row.p2trReusedCount
  spends : m.spends = row.spends
  p2trSpends : m.p2trSpends = row.p2trSpends
  p2trKeypathSpends : m.p2trKeypathSpends = row.p2trKeypathSpends
  p2trScriptpathSpends : m.p2trScriptpathSpends = row.p2trScriptpathSpends
  p2trNumsSpends : m.p2trNumsSpends = row.p2trNumsSpends
  p2trSpEligibleSpends : m.p2trSpEligibleSpends = row.p2trSpEligibleSpends
  nonspTxs : m.nonspTxs = row.nonspTxs
  nonspTxOutputs : m.nonspTxOutputs = row.nonspTxOutputs
  utxoHash : ∀ bytes, HexCrate.decode (asBytes (String.ofList row.utxoHash)) = .ok bytes →
    m.utxoHash = bytes
  utxoHashWindow : m.utxoHashWindow = row.utxoHashWindow
  p2trInscriptionSpends : m.p2trInscriptionSpends = row.p2trInscriptionSpends
  p2trNumsAndInscriptionSpends : m.p2trNumsAndInscriptionSpends = row.p2trNumsAndInscriptionSpends
  scriptOutputs : m.scriptOutputs = .ofCounts row.scriptOutputs
  scriptInputs : m.scriptInputs = .ofCounts row.scriptInputs
  sortedSpent : CoversEstimate row.sortedSpent m.sortedSpentValues m.sortedSpentLeb128Bytes
    m.sortedSpentRiceBestK m.sortedSpentRiceBestBits m.sortedSpentEliasDeltaBits
    m.sortedSpentEfBitsWith64BitBase
  sortedP2trSpent : CoversEstimate row.sortedP2trSpent m.sortedP2trSpentValues
    m.sortedP2trSpentLeb128Bytes m.sortedP2trSpentRiceBestK m.sortedP2trSpentRiceBestBits
    m.sortedP2trSpentEliasDeltaBits m.sortedP2trSpentEfBitsWith64BitBase

end BitcoinData.Stats
