import BitcoinData.Spec.Stats.Scan

/-! The counters that a row and the totals of a run have in common, and the identities
between them. -/

namespace BitcoinData.Stats

/-- What is counted of a stream of sorted spent IDs. -/
inductive StreamCounter
  | values
  | leb128Bytes
  | eliasDeltaBits
  | efBitsWith64bitBase
deriving DecidableEq

inductive Counter
  | outputs
  | p2trOutputs
  | p2trReused
  | spends
  | p2trSpends
  | p2trKeypathSpends
  | p2trScriptpathSpends
  | p2trNumsSpends
  | p2trSpEligibleSpends
  | p2trInscriptionSpends
  | p2trNumsAndInscriptionSpends
  | nonspTxs
  | nonspTxOutputs
  | scriptOutputs (t : ScriptType)
  | scriptInputs (t : ScriptType)
  | sortedSpentIds (c : StreamCounter)
  | sortedP2trSpentIds (c : StreamCounter)
deriving DecidableEq

def SortedUidCodecStats.counter (self : SortedUidCodecStats) : StreamCounter → ℕ
  | .values => self.combined.values
  | .leb128Bytes => self.combined.leb128Bytes
  | .eliasDeltaBits => self.combined.eliasDeltaBits
  | .efBitsWith64bitBase => self.efBitsWith64bitBase

def SortedUidBlockEstimate.counter (self : SortedUidBlockEstimate) : StreamCounter → ℕ
  | .values => self.values
  | .leb128Bytes => self.leb128Bytes
  | .eliasDeltaBits => self.eliasDeltaBits
  | .efBitsWith64bitBase => self.efBitsWith64bitBase

def RunStats.counter (self : RunStats) : Counter → ℕ
  | .outputs => self.outputs
  | .p2trOutputs => self.p2trOutputs
  | .p2trReused => self.p2trReused
  | .spends => self.spends
  | .p2trSpends => self.p2trSpends
  | .p2trKeypathSpends => self.p2trKeypathSpends
  | .p2trScriptpathSpends => self.p2trScriptpathSpends
  | .p2trNumsSpends => self.p2trNumsSpends
  | .p2trSpEligibleSpends => self.p2trSpEligibleSpends
  | .p2trInscriptionSpends => self.p2trInscriptionSpends
  | .p2trNumsAndInscriptionSpends => self.p2trNumsAndInscriptionSpends
  | .nonspTxs => self.nonspTxs
  | .nonspTxOutputs => self.nonspTxOutputs
  | .scriptOutputs t => self.scriptOutputs.get t
  | .scriptInputs t => self.scriptInputs.get t
  | .sortedSpentIds c => self.sortedSpentIds.counter c
  | .sortedP2trSpentIds c => self.sortedP2trSpentIds.counter c

def BlockStats.counter (self : BlockStats) : Counter → ℕ
  | .outputs => self.outputCount
  | .p2trOutputs => self.p2trOutputCount
  | .p2trReused => self.p2trReusedCount
  | .spends => self.spends
  | .p2trSpends => self.p2trSpends
  | .p2trKeypathSpends => self.p2trKeypathSpends
  | .p2trScriptpathSpends => self.p2trScriptpathSpends
  | .p2trNumsSpends => self.p2trNumsSpends
  | .p2trSpEligibleSpends => self.p2trSpEligibleSpends
  | .p2trInscriptionSpends => self.p2trInscriptionSpends
  | .p2trNumsAndInscriptionSpends => self.p2trNumsAndInscriptionSpends
  | .nonspTxs => self.nonspTxs
  | .nonspTxOutputs => self.nonspTxOutputs
  | .scriptOutputs t => self.scriptOutputs.get t
  | .scriptInputs t => self.scriptInputs.get t
  | .sortedSpentIds c => self.sortedSpent.counter c
  | .sortedP2trSpentIds c => self.sortedP2trSpent.counter c

/-- Every P2TR spend takes one path and has one eligibility; every output and every
spend has one script type. -/
structure Balanced (count : Counter → ℕ) : Prop where
  paths : count .p2trSpends = count .p2trKeypathSpends + count .p2trScriptpathSpends
  eligibility : count .p2trSpends = count .p2trSpEligibleSpends + count .p2trNumsSpends
  outputs : count .outputs = (ScriptType.all.map fun t => count (.scriptOutputs t)).sum
  inputs : count .spends = (ScriptType.all.map fun t => count (.scriptInputs t)).sum

end BitcoinData.Stats
