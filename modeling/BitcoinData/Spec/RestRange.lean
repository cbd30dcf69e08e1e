import BitcoinData.Lib.Unordered
import BitcoinData.Spec.Rest
import BitcoinData.Spec.Source

/-! The rest of `sources/src/rest.rs`: hashes, raw blocks and ranges of frames. A range is three
stages of requests beside each other, whose results are sorted back into the order of the requests;
the order in which the answers arrive is left open. -/

namespace BitcoinData

open Lib

namespace RestSource

def getText (self : RestSource) (path : String) : Except String String := do
  let url := self.url path
  let resp ← self.send url
  if !resp.isSuccess then
    .error s!"REST {resp.status} for {url}: {resp.text}"
  else
    return resp.text

section
variable [HexCrate]

/-- The answer is the hash in the order in which it is displayed. -/
def getBlockHash (self : RestSource) (height : ℕ) : Except String BlockHashBytes := do
  let trimmed ← self.getText s!"/rest/blockhashbyheight/{height}.hex"
  let digits := asBytes trimmed
  ensure (digits.length = 64 ∧ digits.all isAsciiHexdigit = true)
    s!"{self.base}: expected 64-char hex block hash for height {height}, got {(String.ofList (trimmed.toList.take 120)).quote}"
  hashOfDisplay digits

end

def getBlockRaw (self : RestSource) (hash : BlockHashBytes) : Except String Bytes :=
  self.getBytes s!"/rest/block/{displayHash hash}.bin"

end RestSource

/-! ## Stages -/

/-- The requests of a stage in the order in which they are answered; the answers are sorted by the
keys of the requests before they are collected. -/
def collectSorted {α β : Type} (key : α → ℕ) (request : α → Except DecodeFault β) (order : List α) :
    Except DecodeFault (List β) :=
  ((order.map fun task => (key task, request task)).insertionSort fun a b => a.1 ≤ b.1).mapM (·.2)

/-- For each stage, the order in which its requests are answered. -/
structure RestSchedule where
  hashes : List ℕ → List ℕ
  blocks : List (BlockHashBytes × ℕ) → List (BlockHashBytes × ℕ)
  undo : List (BlockHashBytes × ℕ) → List (BlockHashBytes × ℕ)

/-- Every stage is run by `buffer_unordered`, with at most 16 requests in flight. A stage without
requests may run none at a time, and nothing is said about it. -/
structure RestSchedule.Possible (schedule : RestSchedule) : Prop where
  hashes : ∀ tasks ≠ [], Completes (min tasks.length 16) tasks [] (schedule.hashes tasks)
  blocks : ∀ tasks ≠ [], Completes (min tasks.length 16) tasks [] (schedule.blocks tasks)
  undo : ∀ tasks ≠ [], Completes (min tasks.length 16) tasks [] (schedule.undo tasks)

namespace RestSource

section
variable [HexCrate]

def getBlockHashesByHeight (self : RestSource) (schedule : RestSchedule) (startHeight count : ℕ) :
    Except DecodeFault (List BlockHashBytes) := do
  let heights ← (List.range count).mapM fun offset => orFailed (addU64 startHeight offset)
  collectSorted id (fun height => orFailed (self.getBlockHash height)) (schedule.hashes heights)

def getBlocksRaw (self : RestSource) (schedule : RestSchedule) (hashes : List BlockHashBytes) :
    Except DecodeFault (List Bytes) :=
  collectSorted (·.2) (fun task => orFailed (self.getBlockRaw task.1)) (schedule.blocks hashes.zipIdx)

def getBlocksSpentTxouts (self : RestSource) (schedule : RestSchedule) (hashes : List BlockHashBytes) :
    Except DecodeFault (List (Option BlockSpentTxOuts)) :=
  collectSorted (·.2) (fun task => self.getBlockSpentTxouts task.1) (schedule.undo hashes.zipIdx)

/-- The block and its undo data are requested together; here the first of two errors is that of
the block. -/
def getBlockByHeight (self : RestSource) (height : ℕ) : Except DecodeFault RawBlockFrame := do
  let hash ← orFailed (self.getBlockHash height)
  let bytes ← orFailed (self.getBlockRaw hash)
  let spentTxouts ← self.getBlockSpentTxouts hash
  return { height, hash, bytes, spentTxouts }

/-- The blocks and their undo data are requested together; here the first of two errors is that of
the blocks. -/
def getBlockRangeByHeight (self : RestSource) (schedule : RestSchedule) (startHeight count : ℕ) :
    Except DecodeFault (List RawBlockFrame) := do
  let hashes ← self.getBlockHashesByHeight schedule startHeight count
  let blocks ← self.getBlocksRaw schedule hashes
  let spentTxouts ← self.getBlocksSpentTxouts schedule hashes
  orFailed (ensure (blocks.length = hashes.length)
    s!"REST batch returned {blocks.length} blocks for {hashes.length} hashes")
  orFailed (ensure (spentTxouts.length = hashes.length)
    s!"REST batch returned {spentTxouts.length} spenttxouts entries for {hashes.length} hashes")
  return ((hashes.zip blocks).zip spentTxouts).zipIdx.map fun item =>
    { height := startHeight + item.2
      hash := item.1.1.1
      bytes := item.1.1.2
      spentTxouts := item.1.2 }

def toBlockSource (self : RestSource) (schedule : RestSchedule) : BlockSource where
  getBlockHash height := orFailed (self.getBlockHash height)
  getBlockRaw hash := orFailed (self.getBlockRaw hash)
  getBlockSpentTxouts := self.getBlockSpentTxouts
  getBlocksSpentTxouts := self.getBlocksSpentTxouts schedule
  getBlockByHeight := self.getBlockByHeight
  getBlockRangeByHeight := self.getBlockRangeByHeight schedule

end

end RestSource

end BitcoinData
