import BitcoinData.Spec.Node

/-! `sources/src/ipc.rs` below its actor: a request is one call of the Chain interface of the node,
whose answer is checked. Blocks come without undo data, which the indexer then fetches over REST. -/

namespace BitcoinData

open Lib

def I32_MAX : ℕ := 2 ^ 31 - 1

/-- A block of an answer; its fields are read one by one. -/
structure FoundBlock where
  found : Bool
  height : ℤ
  hash : Except String Bytes
  data : Except String Bytes

/-- The Chain interface of a node. An error is the message about the call that failed; `none` says
that the result is missing. -/
structure ChainClient where
  getHeight : Except String (Option ℤ)
  getBlockHash : ℤ → Except String Bytes
  /-- By the least time and the least height. -/
  findFirstBlockWithTimeAndHeight : ℤ → ℤ → Except String (Option FoundBlock)
  findBlock : Bytes → Except String (Option FoundBlock)

def dataToHash (data : Bytes) (field : String) : Except String BlockHashBytes :=
  if h : data.length = 32 then .ok ⟨data, h⟩
  else .error s!"IPC {field} returned {data.length} bytes, expected 32"

def tryI32 (height : ℕ) : Except String ℤ :=
  if height ≤ I32_MAX then .ok height
  else .error s!"height {height} does not fit Bitcoin Core IPC Int32 height"

namespace ChainClient

def getBestHeight (self : ChainClient) : Except String ℕ := do
  let result ← self.getHeight
  let height ← okOr result "IPC Chain.getHeight returned no active tip"
  ensure (0 ≤ height) s!"IPC Chain.getHeight returned negative height {height}"
  return height.toNat

def hashByHeight (self : ChainClient) (height : ℕ) : Except String BlockHashBytes := do
  let heightI32 ← tryI32 height
  let hash ← self.getBlockHash heightI32
  dataToHash hash "getBlockHash"

def getBlockByHeight (self : ChainClient) (height : ℕ) : Except String RawBlockFrame := do
  let heightI32 ← tryI32 height
  let result ← self.findFirstBlockWithTimeAndHeight 0 heightI32
  let block ← okOr result
    s!"IPC Chain.findFirstBlockWithTimeAndHeight did not find block at height {height}"
  ensure (block.found = true)
    s!"IPC Chain.findFirstBlockWithTimeAndHeight returned found=false for height {height}"
  ensure (block.height = heightI32)
    s!"IPC Chain.findFirstBlockWithTimeAndHeight returned height {block.height}, expected {height}"
  let hash ← block.hash
  let hash ← dataToHash hash "findFirstBlockWithTimeAndHeight.hash"
  let bytes ← block.data
  return { height, hash, bytes, spentTxouts := none }

def getBlockRaw (self : ChainClient) (hash : BlockHashBytes) : Except String Bytes := do
  let result ← self.findBlock hash.bytes
  let block ← okOr result s!"IPC Chain.findBlock did not find block {displayHash hash}"
  block.data

/-- `IpcSource`, with the default methods of the trait where it has none of its own. -/
def toBlockSource (self : ChainClient) : BlockSource where
  getBlockHash height := orFailed (self.hashByHeight height)
  getBlockRaw hash := orFailed (self.getBlockRaw hash)
  getBlockByHeight height := orFailed (self.getBlockByHeight height)

end ChainClient

/-- A node with an IPC socket. -/
structure IpcNode (startHeight : ℕ) (chain : List NodeBlock) (client : ChainClient) : Prop where
  block : ∀ (k : ℕ) (block : NodeBlock), chain[k]? = some block →
    client.findFirstBlockWithTimeAndHeight 0 ((startHeight + k : ℕ) : ℤ) = .ok (some
      { found := true
        height := ((startHeight + k : ℕ) : ℤ)
        hash := .ok block.block.blockHash.bytes
        data := .ok block.bytes })
  beyond : ∀ height : ℕ, startHeight + chain.length ≤ height →
    client.findFirstBlockWithTimeAndHeight 0 (height : ℤ) = .ok none

end BitcoinData
