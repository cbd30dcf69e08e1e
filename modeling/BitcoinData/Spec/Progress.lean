import BitcoinData.Spec.Chain

/-! An indexer that is left alone: the chains it can index, the sources that serve them,
and the steps that are still to be made until the finalized tip is committed. -/

namespace BitcoinData

/-- A block as the scan step hands it over, inside the 16-bit and 32-bit fields of the
stored format. -/
structure ScannedBlock (block : BlockScanInput) : Prop where
  txCount : block.txs.length ≤ U16_MAX
  positions : ∀ (k : ℕ) (tx : TxScanInput), block.txs[k]? = some tx → tx.txIndex.toNat = k
  keys : ∀ tx ∈ block.txs, ∀ output ∈ tx.outputs, output.isP2tr = true →
    ∃ key, output.p2trXonlyKey = some key
  slots : block.p2trSlots.length ≤ U16_MAX
  inputs : block.inputOutpoints.length ≤ U32_MAX
  rawBytes : block.rawBlockBytes ≠ 0

/-- A valid chain of such blocks, each connected to the one before it, at heights that fit
the stored format. -/
structure IndexableChain (emitStartHeight : ℕ) (chain : List BlockScanInput) : Prop where
  valid : ValidChain emitStartHeight chain
  linked : ∀ (k : ℕ) (a b : BlockScanInput), chain[k]? = some a → chain[k + 1]? = some b →
    b.previousBlockHash = a.blockHash
  heights : emitStartHeight + chain.length ≤ U32_MAX + 1
  blocks : ∀ block ∈ chain, ScannedBlock block

/-- A source that answers every request inside the chain with the blocks asked for. -/
structure Serves (emitStartHeight : ℕ) (chain : List BlockScanInput) (fetch : FetchChunk) : Prop where
  honest : HonestFetch chain fetch
  answers : ∀ start count, emitStartHeight ≤ start → 0 < count →
    start + count ≤ emitStartHeight + chain.length → ∃ rawBytes, fetch start count =
      .ok { blocks := (chain.drop (start - emitStartHeight)).take count, rawBytes }

/-- An action that neither stops the process nor gives it a failing source; `bestHeight` is
the best height of the source. -/
def Undisturbed (config : IndexerConfig) (chain : List BlockScanInput) (bestHeight : ℕ) :
    Action → Prop
  | .start => True
  | .catchUp _ best fetch => best = bestHeight ∧ Serves config.emitStartHeight chain fetch
  | .effect => True
  | .crash => False

/-- Steps that the blocks from `height` up to `finalizedTip` take at most: six for a block,
and one for each of its inputs. -/
def blockSteps (emitStartHeight : ℕ) (chain : List BlockScanInput) (finalizedTip height : ℕ) : ℕ :=
  (((chain.take (finalizedTip + 1 - emitStartHeight)).drop (height - emitStartHeight)).map
    fun block => 6 + block.inputOutpoints.length).sum

def stepsLeft (config : IndexerConfig) (chain : List BlockScanInput) (finalizedTip : ℕ)
    (sys : System) : ℕ :=
  let blocksFrom := blockSteps config.emitStartHeight chain finalizedTip
  match sys.process with
  | none => 1 + match sys.disk.indexStore.tip with
    | some tip => blocksFrom (tip.height + 1)
    | none => blocksFrom config.emitStartHeight
  | some process =>
    match process.stage with
    | .idle => blocksFrom process.chainNextHeight
    | .writing window rest => rest.length + window.spends.length + 4 + blocksFrom (window.lastHeight + 1)
    | .marking window rest => rest.length + 3 + blocksFrom (window.lastHeight + 1)
    | .truncating window => 2 + blocksFrom (window.lastHeight + 1)
    | .finishing window => 1 + blocksFrom (window.lastHeight + 1)

/-- A process that waits, with every height up to `finalizedTip` committed. -/
def CaughtUp (config : IndexerConfig) (finalizedTip : ℕ) (sys : System) : Prop :=
  ∃ process, sys.process = some process ∧ process.stage = .idle ∧
    finalizedTip < process.chainNextHeight ∧ (config.emitStartHeight ≤ finalizedTip →
      ∃ tip, sys.disk.indexStore.tip = some tip ∧ finalizedTip ≤ tip.height)

end BitcoinData
