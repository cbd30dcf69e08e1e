import BitcoinData.Spec.Decode
import BitcoinData.Spec.Progress
import BitcoinData.Spec.RestRange

/-! A node: the blocks of its chain as they are serialized, with their undo data, what an honest
source answers for them, and what the indexer decodes them to. -/

namespace BitcoinData

open Lib

structure NodeBlock where
  bytes : Bytes
  block : Block
  undo : BlockSpentTxOuts

/-- The block inside the 16-bit and 32-bit fields of the stored format. -/
structure NodeBlock.Fits (b : NodeBlock) : Prop where
  bytes : b.bytes ≠ []
  txCount : b.block.txdata.length ≤ U16_MAX
  taproot : (b.block.txdata.flatMap (·.output)).countP (fun output => Stats.isP2tr output.scriptPubkey) ≤
    U16_MAX
  inputs : (b.block.txdata.flatMap (·.input)).length ≤ U32_MAX

/-- A frame of the block; a source may leave the undo data out. -/
structure FrameOf (height : ℕ) (b : NodeBlock) (frame : RawBlockFrame) : Prop where
  height : frame.height = height
  hash : frame.hash = b.block.blockHash
  bytes : frame.bytes = b.bytes
  undo : frame.spentTxouts = none ∨ frame.spentTxouts = some b.undo

/-- An honest source for the blocks from `startHeight` on, and an honest undo source. -/
structure ServesFrames (startHeight : ℕ) (chain : List NodeBlock) (source undoSource : BlockSource) :
    Prop where
  range : ∀ first count, startHeight ≤ first → 0 < count → first + count ≤ startHeight + chain.length →
    ∃ frames, source.getBlockRangeByHeight first count = .ok frames ∧
      List.Forall₂ (fun block frame => FrameOf block.2 block.1 frame)
        (((chain.drop (first - startHeight)).take count).zipIdx first) frames
  beyond : ∀ first count, startHeight ≤ first → 0 < count →
    startHeight + chain.length < first + count → ∃ e, source.getBlockRangeByHeight first count = .error e
  undo : ∀ blocks, blocks ≠ [] → blocks ⊆ chain →
    undoSource.getBlocksSpentTxouts (blocks.map (·.block.blockHash)) = .ok (blocks.map (some ·.undo))

/-- A fetch that answers only what `catch_up_ranges` asks for: heights from the start height on,
and at least one. -/
def askedFrom (startHeight : ℕ) (fetch : FetchChunk) : FetchChunk := fun first count =>
  if startHeight ≤ first ∧ 0 < count then fetch first count else .error "not asked for"

/-- The same action with nothing else asked for. -/
def Action.asked (startHeight : ℕ) : Action → Action
  | .catchUp config bestHeight fetch => .catchUp config bestHeight (askedFrom startHeight fetch)
  | action => action

section
variable [BitcoinCrate] [ScanPointCrypto]

/-- The fetch of an indexer that is attached to an honest node. -/
def AttachedFetch (startHeight : ℕ) (chain : List NodeBlock) (fetch : FetchChunk) : Prop :=
  ∃ source undoSource schedule, ServesFrames startHeight chain source undoSource ∧
    ChunkSchedule.Possible schedule ∧ fetch = chunkFetcher source undoSource schedule

/-- The chain of a node, with the blocks that the indexer decodes it to. -/
structure NodeChain (startHeight : ℕ) (chain : List NodeBlock) (decoded : List BlockScanInput) : Prop where
  deserialize : ∀ block ∈ chain, BitcoinCrate.deserialize block.bytes = .ok block.block
  decode : (chain.zipIdx startHeight).mapM (fun block => decodeBlockFrame block.2
    block.1.block.blockHash block.1.bytes (some block.1.undo)) = .ok decoded
  linked : ∀ (k : ℕ) (a b : NodeBlock), chain[k]? = some a → chain[k + 1]? = some b →
    b.block.prevBlockhash = a.block.blockHash
  heights : startHeight + chain.length ≤ U32_MAX + 1
  fits : ∀ block ∈ chain, block.Fits
  valid : ValidChain startHeight decoded

end

/-! ## Behind the REST interface -/

/-- A node with REST enabled, over the requests that the source sends. -/
structure RestNode (startHeight : ℕ) (chain : List NodeBlock) (source : RestSource) : Prop where
  hash : ∀ (k : ℕ) (block : NodeBlock), chain[k]? = some block →
    source.getText s!"/rest/blockhashbyheight/{startHeight + k}.hex" = .ok (displayHash block.block.blockHash)
  beyond : ∀ height, startHeight + chain.length ≤ height →
    ∃ e, source.getText s!"/rest/blockhashbyheight/{height}.hex" = .error e
  block : ∀ block ∈ chain,
    source.getBytes s!"/rest/block/{displayHash block.block.blockHash}.bin" = .ok block.bytes
  undo : ∀ block ∈ chain, ∃ body,
    source.getBytes s!"/rest/spenttxouts/{displayHash block.block.blockHash}.bin" = .ok body ∧
      RestForm block.undo.encoded body
  held : ∀ block ∈ chain, block.undo.Held
  values : ∀ block ∈ chain, ∀ inputs ∈ block.undo.txs, ∀ output ∈ inputs,
    output.valueSat.toNat ≤ MAX_MONEY_SAT

end BitcoinData
