import BitcoinData.Spec.Stats.Resume

/-! A chain to run scans on: each block has one coinbase with a Taproot output, which the
next block spends on the key path. -/

namespace BitcoinData.Stats

/-- The hash window of the sample is 0, so nothing is ever hashed. -/
@[reducible] def sampleSha256 : Sha256 := ⟨fun _ => FixedBytes.fill 32 0⟩

def sampleTxid (height : ℕ) (tag : UInt8) : TxidBytes :=
  ⟨tag :: List.replicate 31 (UInt8.ofNat height), rfl⟩

def sampleScript (byte : UInt8) : Bytes := 0x51 :: 0x20 :: List.replicate 32 byte

def sampleCoinbase (height : ℕ) : Transaction :=
  { txid := sampleTxid height 1
    input := [⟨⟨FixedBytes.fill 32 0, 4294967295⟩, []⟩]
    output := [sampleScript (UInt8.ofNat height)] }

def sampleSpend (height : ℕ) : Transaction :=
  { txid := sampleTxid height 2
    input := [⟨⟨sampleTxid (height - 1) 1, 0⟩, [List.replicate 64 0]⟩]
    output := [[0x6a]] }

def sampleChain : Chain where
  frame height :=
    { height
      hash := FixedBytes.fill 32 (UInt8.ofNat height)
      txdata := sampleCoinbase height :: if height = 0 then [] else [sampleSpend height] }
  height_eq _ := rfl
  hasOutput height := ⟨sampleCoinbase height, by simp, by simp [sampleCoinbase]⟩

/-- A node at height `best`. -/
def Chain.source (chain : Chain) (best : ℕ) : BlockSource where
  getBestHeight := .ok best
  getBlockHash h := .ok (chain.frame h).hash
  getBlockByHeight h := .ok (chain.frame h)
  getBlockRangeByHeight start count := .ok ((List.range' start count).map chain.frame)
  supportsBlockRangeBatches := true

theorem Chain.serves_source (chain : Chain) (best : ℕ) : Serves (chain.source best) chain best :=
  ⟨rfl, fun _ _ => rfl, fun _ _ => rfl, fun _ _ _ => rfl⟩

def sampleConfig (start blocks every : ℕ) : ScanConfig :=
  { start
    blocks
    sourceBatchSize := 1
    utxoHashWindow := 0
    finalityDepth := 6
    checkpoints := { every, keep := 10, enabled := true } }

end BitcoinData.Stats
