import BitcoinData.Lib.Buffered
import BitcoinData.Lib.Result
import BitcoinData.Spec.SpentTxOuts

/-! `core/pipeline.rs`: the streams of raw blocks by height, one request for each height or one for
each batch of heights, with a number of requests in flight. The sums and products of heights are
those of a build with overflow checks, where an overflow is a panic. `usize` has 64 bits. -/

namespace BitcoinData

open Lib

structure RawBlockFrame where
  height : ℕ
  hash : BlockHashBytes
  bytes : Bytes
  spentTxouts : Option BlockSpentTxOuts
deriving DecidableEq

/-- The calls of a `BlockSource` that the streams make. -/
structure RawBlockSource where
  getBlockByHeight : ℕ → Except String RawBlockFrame
  getBlockRangeByHeight : ℕ → ℕ → Except String (List RawBlockFrame)

/-! ## Arithmetic on `u64` -/

def addU64 (a b : ℕ) : Except String ℕ :=
  if a + b ≤ U64_MAX then .ok (a + b) else .error "attempt to add with overflow"

def subU64 (a b : ℕ) : Except String ℕ :=
  if b ≤ a then .ok (a - b) else .error "attempt to subtract with overflow"

def mulU64 (a b : ℕ) : Except String ℕ :=
  if a * b ≤ U64_MAX then .ok (a * b) else .error "attempt to multiply with overflow"

def divCeilU64 (a b : ℕ) : ℕ := if a % b > 0 then a / b + 1 else a / b

/-! ## `raw_block_stream_by_height` -/

/-- `start_height..(start_height + count)`. -/
def streamHeights (startHeight count : ℕ) : Except String (List ℕ) := do
  let stop ← addU64 startHeight count
  return List.range' startHeight (stop - startHeight)

/-- The request for a height is the height. -/
def heightRequest (height : ℕ) : Except String ℕ := .ok height

/-! ## `raw_block_stream_by_height_batched` -/

def batchIndexes (count batchSize : ℕ) : List ℕ :=
  List.range (if count = 0 then 0 else divCeilU64 count batchSize)

/-- The first height of a batch and the number of its heights. -/
def batchRequest (startHeight count batchSize batchIdx : ℕ) : Except String (ℕ × ℕ) := do
  let offset ← mulU64 batchIdx batchSize
  let batchStart ← addU64 startHeight offset
  let stop ← addU64 startHeight count
  let remaining ← subU64 stop batchStart
  return (batchStart, min remaining batchSize)

def RawBlockSource.getBatch (self : RawBlockSource) (request : ℕ × ℕ) :
    Except String (List RawBlockFrame) :=
  self.getBlockRangeByHeight request.1 request.2

/-- What the result of one batch is in the stream. -/
def batchItems : Except String (List RawBlockFrame) → List (Except String RawBlockFrame)
  | .ok frames => frames.map .ok
  | .error e => [.error e]

/-! ## Sources -/

/-- In the range of heights, a block can be fetched by its height, and a range of blocks is the
blocks one by one. -/
structure ServesRange (source : RawBlockSource) (frame : ℕ → RawBlockFrame) (startHeight count : ℕ) :
    Prop where
  byHeight : ∀ h, startHeight ≤ h → h < startHeight + count → source.getBlockByHeight h = .ok (frame h)
  range : ∀ first n, startHeight ≤ first → first + n ≤ startHeight + count →
    source.getBlockRangeByHeight first n = .ok ((List.range' first n).map frame)

end BitcoinData
