import BitcoinData.Lib.Codec
import BitcoinData.Spec.Chain

/-! One instance of `Externals`, so that nothing below is about an empty class, and
small transactions to build concrete chains from. The digest of a key is the key
itself, and messages are written field after field. -/

namespace BitcoinData

open Lib

def lightCodec : Codec LightBlockMessage :=
  (Codec.pair (.pair .u16 (.pair .nat (.pair (.list .u8) (.pair (.list .u8) .u64))))
    (.pair (.pair .u16 (.pair (.list .u8) (.pair .u32 (.pair (.list .u8) (.list .u8)))))
      (.pair .u8 (.pair (.list .u8) (.pair .u16 (.pair .u32 (.list .u8))))))).via
    (fun m => ((m.version, m.height, m.blockHash, m.previousBlockHash, m.firstUid),
      (m.txCount, m.skippedTxsForTweaks, m.tweakCount, m.tweakOutputCounts, m.txTweaks),
      m.truncatedOutputHashBits, m.truncatedOutputHashes, m.spentIdCodec, m.spentCount,
      m.spentIds))
    (fun t => ⟨t.1.1, t.1.2.1, t.1.2.2.1, t.1.2.2.2.1, t.1.2.2.2.2, t.2.1.1, t.2.1.2.1,
      t.2.1.2.2.1, t.2.1.2.2.2.1, t.2.1.2.2.2.2, t.2.2.1, t.2.2.2.1, t.2.2.2.2.1,
      t.2.2.2.2.2.1, t.2.2.2.2.2.2⟩)
    fun _ => rfl

def tweakCodec : Codec StoredTweakEntryMessage :=
  (Codec.pair .u16 (.list .u8)).via (fun m => (m.outputCount, m.tweak)) (fun t => ⟨t.1, t.2⟩)
    fun _ => rfl

def outputCodec : Codec StoredOutputEntryMessage :=
  (Codec.pair (.list .u8) (.pair .u32 .u8)).via (fun m => (m.key, m.spentHeight, m.flags))
    (fun t => ⟨t.1, t.2.1, t.2.2⟩) fun _ => rfl

def spendCodec : Codec StoredSpendEntryMessage :=
  (Codec.pair .u64 .u32).via (fun m => (m.spentUid, m.creationHeight)) (fun t => ⟨t.1, t.2⟩)
    fun _ => rfl

def storedCodec : Codec StoredLightBlockMessage :=
  (Codec.pair (.pair .u16 (.pair .u32 (.pair (.list .u8) (.pair (.list .u8) .u64))))
    (.pair (.pair .u16 (.pair (.list .u8) (.pair (.list tweakCodec) (.pair (.list .u16)
      (.list outputCodec)))))
      (.pair (.list spendCodec) (.pair .u32 (.pair (.list .u8) (.list .u8)))))).via
    (fun m => ((m.version, m.height, m.blockHash, m.previousBlockHash, m.firstUid),
      (m.txCount, m.skippedTxsForTweaks, m.tweaks, m.skippedOutputs, m.outputs),
      m.spends, m.rawBlockBytes, m.truncatedOutputHashForTwoLabels,
      m.truncatedOutputHashForHundredLabels))
    (fun t => ⟨t.1.1, t.1.2.1, t.1.2.2.1, t.1.2.2.2.1, t.1.2.2.2.2, t.2.1.1, t.2.1.2.1,
      t.2.1.2.2.1, t.2.1.2.2.2.1, t.2.1.2.2.2.2, t.2.2.1, t.2.2.2.1, t.2.2.2.2.1, t.2.2.2.2.2⟩)
    fun _ => rfl

namespace Codec

/-- The whole byte string is one value. -/
def readAll {α : Type} (c : Lib.Codec α) (bytes : Bytes) : Except String α :=
  match c.read bytes with
  | some (a, []) => .ok a
  | _ => .error "malformed message"

theorem readAll_write {α : Type} (c : Lib.Codec α) (a : α) : readAll c (c.write a) = .ok a := by
  have h := c.read_write a []
  rw [List.append_nil] at h
  simp [readAll, h]

end Codec

@[reducible] def sampleExternals : Externals where
  digest32 key := key
  writeLight := lightCodec.write
  readLight := Codec.readAll lightCodec
  readLight_writeLight := Codec.readAll_write lightCodec
  writeStored := storedCodec.write
  readStored := Codec.readAll storedCodec
  readStored_writeStored := Codec.readAll_write storedCodec

/-! ## Sample blocks -/

/-- A hash, key or transaction id with one distinguishing byte. -/
def sampleId (tag : UInt8) : FixedBytes 32 := FixedBytes.fill 32 tag

/-- A transaction with silent-payment data that spends `spent` and pays one native
P2TR output for every listed key. -/
def sampleTx (txid : UInt8) (txIndex : UInt16) (spent : List OutPointKey) (keys : List UInt8) :
    TxScanInput :=
  { txid := sampleId txid
    txIndex
    inputs := spent.map fun previousOutput => { previousOutput, scriptSig := [], witness := [] }
    outputs := keys.zipIdx.map fun p =>
      { vout := UInt32.ofNat p.2
        valueSat := 1000
        scriptPubkey := []
        p2trXonlyKey := some (sampleId p.1)
        isP2tr := true
        isNums := false }
    silentPaymentTweak := some (FixedBytes.fill 33 2) }

def sampleBlock (height : ℕ) (hash previous : UInt8) (txs : List TxScanInput) : BlockScanInput :=
  { height
    blockHash := sampleId hash
    previousBlockHash := sampleId previous
    rawBlockBytes := 400
    txs }

/-! ## Sample runs -/

def sampleConfig : IndexerConfig := { network := "regtest", emitStartHeight := 100, finalityDepth := 1 }

def sampleTuning : CatchUpConfig :=
  { fetchBatchSize := 10
    flushBlocks := 10
    memoryBudgetBytes := 0
    fetchBatchSize_pos := by decide
    flushBlocks_pos := by decide }

/-- A source that holds `blocks` and answers a request with those in the range. -/
def sampleFetch (blocks : List BlockScanInput) : FetchChunk := fun start count =>
  .ok { blocks := blocks.filter fun block => start ≤ block.height ∧ block.height < start + count
        rawBytes := 400 }

/-- One window over a source with the chain `blocks`. -/
def sampleCatchUp (bestHeight : ℕ) (blocks : List BlockScanInput) : Action :=
  .catchUp sampleTuning bestHeight (sampleFetch blocks)

/-! ## A sample chain -/

/-- Two outputs, both spent later, one of them by the block that follows. -/
def sampleChain : List BlockScanInput :=
  [sampleBlock 100 1 0 [sampleTx 10 0 [] [1, 2]],
    sampleBlock 101 2 1 [sampleTx 11 0 [⟨sampleId 10, 1⟩] [3]],
    sampleBlock 102 3 2 [sampleTx 12 0 [⟨sampleId 10, 0⟩] []]]

theorem sampleChain_valid : ValidChain sampleConfig.emitStartHeight sampleChain where
  heights := by decide
  createdOnce := by decide +kernel
  spentOnce := by
    intro before outpoint after h
    have hnd : (chainEvents sampleChain).Nodup := by decide +kernel
    rw [h] at hnd
    exact List.nodup_iff_count_le_one.mp (List.nodup_cons.mp (List.nodup_append.mp hnd).2.1).2 _
  notNull := by decide +kernel

theorem sampleFetch_honest : HonestFetch sampleChain (sampleFetch sampleChain) := by
  intro start count chunk h
  obtain rfl := Except.ok.inj h
  simp only [sampleChain, sampleBlock, List.filter_cons, List.filter_nil, decide_eq_true_eq]
  split_ifs
  -- the middle block cannot be the only one left out
  any_goals omega
  all_goals decide +kernel

end BitcoinData
