import Mathlib.Data.Finmap
import BitcoinData.Spec.Rest
import BitcoinData.Spec.Source

/-! `sources/src/rpc_client.rs` and `rpc.rs`: JSON-RPC requests, one at a time or as a batch. The
responses of a batch are matched with its requests by their ids, so they may come in any order. -/

namespace BitcoinData

open Lib

/-- The parameters of the requests that the source makes. -/
inductive RpcParams
  /-- `[height]` -/
  | height (height : ℕ)
  /-- `[hash_hex, 0]` -/
  | block (hashHex : String)
deriving DecidableEq

/-- A request without its constant `jsonrpc` field. -/
structure BatchReq where
  id : UInt64
  method : String
  params : RpcParams
deriving DecidableEq

structure RpcErr where
  code : ℤ
  message : String
deriving DecidableEq

structure Resp where
  result : Option String
  error : Option RpcErr
deriving DecidableEq

structure BatchResp where
  id : UInt64
  result : Option String
  error : Option RpcErr
deriving DecidableEq

/-- `client.post(url)`, with the response read as JSON, for one request and for a batch. -/
structure BitcoinRpc where
  post : BatchReq → Except String Resp
  postBatch : List BatchReq → Except String (List BatchResp)

namespace BitcoinRpc

/-- `call`, under the id that the shared counter gives. -/
def call (self : BitcoinRpc) (id : UInt64) (method : String) (params : RpcParams) :
    Except String String := do
  let resp ← self.post ⟨id, method, params⟩
  match resp.error with
  | some e => .error s!"RPC {method} error {e.code}: {e.message}"
  | none => okOr resp.result "empty RPC result"

/-- The loop over the ids of a batch. -/
def takeResponses : List UInt64 → (Finmap fun _ : UInt64 => BatchResp) → Except String (List String)
  | [], _ => .ok []
  | id :: ids, byId => do
    let resp ← okOr (byId.lookup id) s!"missing JSON-RPC batch response id={id}"
    match resp.error with
    | some e => .error s!"RPC batch id={id} error {e.code}: {e.message}"
    | none =>
      let result ← okOr resp.result s!"empty RPC batch result id={id}"
      let rest ← takeResponses ids (byId.erase id)
      return result :: rest

/-- Of two responses with one id, the later one stays in the map. -/
def batchCall (self : BitcoinRpc) (requests : List BatchReq) : Except String (List String) :=
  if requests = [] then .ok []
  else do
    let responses ← self.postBatch requests
    let byId := responses.foldl (fun byId resp => byId.insert resp.id resp) ∅
    takeResponses (requests.map (·.id)) byId

/-- The ids of a batch, by the position of the request. -/
abbrev BatchIds := ℕ → UInt64

def getBlockHashes (self : BitcoinRpc) (ids : BatchIds) (startHeight count : ℕ) :
    Except String (List String) := do
  let heights ← (List.range count).mapM fun offset => addU64 startHeight offset
  self.batchCall (heights.zipIdx.map fun height => ⟨ids height.2, "getblockhash", .height height.1⟩)

section
variable [HexCrate]

def getBlocksRawHex (self : BitcoinRpc) (ids : BatchIds) (hashesHex : List String) :
    Except String (List Bytes) := do
  let hexBlocks ← self.batchCall
    (hashesHex.zipIdx.map fun hashHex => ⟨ids hashHex.2, "getblock", .block hashHex.1⟩)
  hexBlocks.mapM fun hexBlock => HexCrate.decode (asBytes hexBlock)

/-! ## `RpcSource` -/

def getBlockHash (self : BitcoinRpc) (id : UInt64) (height : ℕ) : Except String BlockHashBytes := do
  let hexStr ← self.call id "getblockhash" (.height height)
  hashOfDisplay (asBytes hexStr)

def getBlockRaw (self : BitcoinRpc) (id : UInt64) (hash : BlockHashBytes) : Except String Bytes := do
  let hexStr ← self.call id "getblock" (.block (displayHash hash))
  HexCrate.decode (asBytes hexStr)

/-- The second batch asks for the hashes as the first one answered them. -/
def getBlockRangeByHeight (self : BitcoinRpc) (hashIds blockIds : BatchIds) (startHeight count : ℕ) :
    Except String (List RawBlockFrame) := do
  let hashesHex ← self.getBlockHashes hashIds startHeight count
  let hashes ← hashesHex.mapM fun hashHex => hashOfDisplay (asBytes hashHex)
  let bytes ← self.getBlocksRawHex blockIds hashesHex
  ensure (bytes.length = hashes.length)
    s!"RPC batch returned {bytes.length} blocks for {hashes.length} hashes"
  return (hashes.zip bytes).zipIdx.map fun item =>
    { height := startHeight + item.2
      hash := item.1.1
      bytes := item.1.2
      spentTxouts := none }

end

end BitcoinRpc

/-! ## Nodes -/

/-- A response as a node sends it: a result or an error. -/
def Resp.of : Except RpcErr String → Resp
  | .ok result => ⟨some result, none⟩
  | .error e => ⟨none, some e⟩

def BatchResp.of (id : UInt64) : Except RpcErr String → BatchResp
  | .ok result => ⟨id, some result, none⟩
  | .error e => ⟨id, none, some e⟩

/-- A node that answers by `answer`. The responses to a batch of requests with different ids come
in some order. -/
structure BitcoinRpc.Answers (rpc : BitcoinRpc) (answer : String → RpcParams → Except RpcErr String) :
    Prop where
  single : ∀ id method params, rpc.post ⟨id, method, params⟩ = .ok (Resp.of (answer method params))
  batch : ∀ requests, requests ≠ [] → (requests.map (·.id)).Nodup → ∃ responses,
    rpc.postBatch requests = .ok responses ∧ responses.Perm
      (requests.map fun request => BatchResp.of request.id (answer request.method request.params))

/-- A node displays a hash in lower case. -/
def DisplaysHashes (answer : String → RpcParams → Except RpcErr String) : Prop :=
  ∀ height text, answer "getblockhash" (.height height) = .ok text → ∃ hash, text = displayHash hash

end BitcoinData
