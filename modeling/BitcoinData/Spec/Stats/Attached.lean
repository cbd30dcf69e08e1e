import BitcoinData.Spec.IpcChain
import BitcoinData.Spec.Stats.Pipeline

/-! The scanner attached to a source of raw blocks. Every frame goes through `core/parse.rs`, and
the tip of a node behind REST is that of its chain info. -/

namespace BitcoinData

open Lib

structure ChainInfo where
  blocks : ℕ
deriving DecidableEq

class ChainInfoJson where
  /-- `serde_json::from_str`. -/
  fromStr : String → Except String ChainInfo

class ConsensusDecode where
  /-- `Block::consensus_decode`: a block from the front of the bytes, with the bytes behind it. -/
  blockConsensusDecode : Bytes → Except String (Block × Bytes)

def RestSource.getBestHeight [ChainInfoJson] (self : RestSource) : Except String ℕ := do
  let text ← self.getText "/rest/chaininfo.json"
  let info ← ChainInfoJson.fromStr text
  return info.blocks

namespace Stats

/-! ## Decoding -/

/-- What the scanner reads of a transaction. -/
def ofTransaction (tx : BitcoinData.Transaction) : Transaction where
  txid := tx.txid
  input := tx.input.map fun vin => { previousOutput := vin.previousOutput, witness := vin.witness }
  output := tx.output.map (·.scriptPubkey)

section
variable [ConsensusDecode]

/-- Neither the hash of the frame nor bytes behind the block are looked at. -/
def decodeRawBlock (frame : RawBlockFrame) : Except String DecodedBlockFrame := do
  let (block, _) ← ConsensusDecode.blockConsensusDecode frame.bytes
  return { height := frame.height, hash := frame.hash, txdata := block.txdata.map ofTransaction }

/-- A source of raw blocks as the scanner uses it. -/
def attach (source : BitcoinData.BlockSource) (bestHeight : Except String ℕ) (batches : Bool) :
    BlockSource where
  getBestHeight := bestHeight
  getBlockHash height := (source.getBlockHash height).mapError DecodeFault.message
  getBlockByHeight height := do
    let frame ← (source.getBlockByHeight height).mapError DecodeFault.message
    decodeRawBlock frame
  getBlockRangeByHeight start count := do
    let frames ← (source.getBlockRangeByHeight start count).mapError DecodeFault.message
    frames.mapM decodeRawBlock
  supportsBlockRangeBatches := batches

/-- REST supports batches. -/
def attachRest [HexCrate] [ChainInfoJson] (source : RestSource) (schedule : RestSchedule) :
    BlockSource :=
  attach (source.toBlockSource schedule) source.getBestHeight true

/-- IPC has no batches. -/
def attachIpc (client : ChainClient) : BlockSource :=
  attach client.toBlockSource client.getBestHeight false

/-- The blocks of a node are what its bytes are decoded to. -/
def DecodesChain (chain : List NodeBlock) : Prop :=
  ∀ block ∈ chain, ∃ rest, ConsensusDecode.blockConsensusDecode block.bytes = .ok (block.block, rest)

end

/-! ## The blocks of a node -/

def nodeFrame (block : NodeBlock × ℕ) : DecodedBlockFrame where
  height := block.2
  hash := block.1.block.blockHash
  txdata := block.1.block.txdata.map ofTransaction

/-- The blocks of the heights from `start` to `last`, of a chain from `startHeight` on. -/
def nodeFrames (startHeight : ℕ) (chain : List NodeBlock) (start last : ℕ) : List DecodedBlockFrame :=
  (((chain.drop (start - startHeight)).take (last + 1 - start)).zipIdx start).map nodeFrame

end Stats

end BitcoinData
