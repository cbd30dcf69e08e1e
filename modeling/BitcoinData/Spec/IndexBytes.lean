import BitcoinData.Lib.Codec
import BitcoinData.Lib.Columns
import BitcoinData.Lib.Runs
import BitcoinData.Spec.IndexStore
import BitcoinData.Spec.LightIndexer
import BitcoinData.Spec.Rest

/-! `index_store.rs` over the bytes of RocksDB: the keys, the values, what is read back of them,
and the requests of the indexer as one object that answers, next to the same requests on the
typed store. -/

namespace BitcoinData

open Lib

/-! ## `helper.rs` -/

def toBeBytes (k n : ℕ) : Bytes := (digits k n).reverse

def fromBeBytes (bytes : Bytes) : ℕ := fromDigits bytes.reverse

def readU32Be (bytes : Bytes) (label : String) : Except String ℕ := do
  ensure (bytes.length = 4) s!"invalid {label} length {bytes.length}"
  return fromBeBytes bytes

def readU64Be (bytes : Bytes) (label : String) : Except String ℕ := do
  ensure (bytes.length = 8) s!"invalid {label} length {bytes.length}"
  return fromBeBytes bytes

/-! ## Keys and values -/

def KEY_TIP_HEIGHT : String := "m:tip_height"
def KEY_TIP_HASH : String := "m:tip_hash"
def KEY_LAST_UID : String := "m:last_uid"
def KEY_NETWORK : String := "m:network"
def KEY_START_HEIGHT : String := "m:start_height"

/-- `o:`, the transaction and the output number. -/
def outpointKey (outpoint : OutPointKey) : Bytes :=
  [0x6f, 0x3a] ++ outpoint.txid.bytes ++ toBeBytes 4 outpoint.vout.toNat

/-- `k:` and the key. -/
def seenKey (xonly : XOnlyKey) : Bytes := [0x6b, 0x3a] ++ xonly.bytes

def encodeSpendLookup (spend : SpendLookup) : Bytes :=
  toBeBytes 8 spend.uid.toNat ++ toBeBytes 8 spend.creationHeight ++
    toBeBytes 4 spend.outputIndex.toNat ++ [spend.flags]

/-- The part of a value before its flags. -/
def readSpendFields (bytes : Bytes) (flags : UInt8) : Except String SpendLookup := do
  let uid ← readU64Be (bytes.take 8) "outpoint uid"
  let creationHeight ← readU64Be ((bytes.drop 8).take 8) "outpoint creation height"
  let outputIndex ← readU32Be ((bytes.drop 16).take 4) "outpoint storage output index"
  return { uid := UInt64.ofNat uid, creationHeight, outputIndex := UInt32.ofNat outputIndex, flags }

/-- A value of 20 bytes is from before the flags. -/
def readSpendLookup (bytes : Bytes) : Except String SpendLookup :=
  if bytes.length = 21 then readSpendFields bytes (bytes.getD 20 0)
  else if bytes.length = 20 then readSpendFields bytes 0
  else if bytes.length = 8 ∨ bytes.length = 16 ∨ bytes.length = 17 then
    .error "legacy outpoint lookup value is missing storage output index; reindex light archive"
  else .error s!"invalid outpoint lookup value length {bytes.length}"

/-! ## The database -/

abbrev RocksDb := RawStore Bytes Bytes

namespace RocksDb

/-- `put` where there is no value yet, a comparison where there is one. -/
def ensureMetaValue (db : RocksDb) (key : String) (value : Bytes) : Except String RocksDb :=
  match db.lookup (asBytes key) with
  | some existing => do
    ensure (existing = value) s!"index metadata mismatch for {key}"
    return db
  | none => .ok (db.insert (asBytes key) value)

/-- Two values, one after the other: the first stays when the second is refused. -/
def ensureMeta (db : RocksDb) (network : String) (startHeight : ℕ) : Except String Unit × RocksDb :=
  match ensureMetaValue db KEY_NETWORK (asBytes network) with
  | .error e => (.error e, db)
  | .ok db =>
    match ensureMetaValue db KEY_START_HEIGHT (toBeBytes 8 startHeight) with
    | .error e => (.error e, db)
    | .ok db => (.ok (), db)

def tip (db : RocksDb) : Except String (Option IndexTip) :=
  match db.lookup (asBytes KEY_TIP_HEIGHT) with
  | none => .ok none
  | some height =>
    match db.lookup (asBytes KEY_TIP_HASH) with
    | none => .ok none
    | some hash =>
      match db.lookup (asBytes KEY_LAST_UID) with
      | none => .ok none
      | some lastUid => do
        let height ← readU64Be height "tip_height"
        let blockHash ← read32 hash "tip_hash"
        let lastUid ← readU64Be lastUid "last_uid"
        return some { height, blockHash, lastUid := UInt64.ofNat lastUid }

def previousTipHash (db : RocksDb) : Except String (Option BlockHashBytes) := do
  let tip ← db.tip
  return tip.map (·.blockHash)

/-- The answer to one outpoint, in front of the others. -/
def lookupOutpointUids (db : RocksDb) :
    List OutPointKey → Except String (List (OutPointKey × SpendLookup))
  | [] => .ok []
  | outpoint :: outpoints =>
    match db.lookup (outpointKey outpoint) with
    | none => lookupOutpointUids db outpoints
    | some value => do
      let spend ← readSpendLookup value
      let found ← lookupOutpointUids db outpoints
      return (outpoint, spend) :: found

abbrev WriteBatch := List (BatchOp Bytes Bytes)

/-- The count of a key in the database, which the batch is not part of yet. -/
def seenCount (db : RocksDb) (xonly : XOnlyKey) : Except String UInt64 :=
  match db.lookup (seenKey xonly) with
  | none => .ok 0
  | some bytes => do
    let count ← readU64Be bytes "seen key count"
    return UInt64.ofNat count

def batchCreated (db : RocksDb) (batch : WriteBatch) (created : CreatedScopedUtxo) :
    Except String WriteBatch := do
  let batch := batch ++ [.put (outpointKey created.entry.outpoint)
    (encodeSpendLookup (RocksIndexStore.createdLookup created))]
  let count ← db.seenCount created.entry.p2trXonlyKey
  let nextCount := saturatingAdd64 count 1
  return batch ++ [.put (seenKey created.entry.p2trXonlyKey) (toBeBytes 8 nextCount.toNat)]

def batchBlock (db : RocksDb) (batch : WriteBatch) (block : AppliedBlock) :
    Except String WriteBatch := do
  let batch ← block.createdUtxos.foldlM db.batchCreated batch
  return batch ++ block.spentUtxos.map fun spent => .delete (outpointKey spent.outpoint)

def commitAppliedBlocks (db : RocksDb) (blocks : List AppliedBlock) (tipHeight : ℕ)
    (tipHash : BlockHashBytes) (lastUid : UInt64) : Except String RocksDb := do
  let batch ← blocks.foldlM db.batchBlock []
  return db.write (batch ++ [.put (asBytes KEY_TIP_HEIGHT) (toBeBytes 8 tipHeight),
    .put (asBytes KEY_TIP_HASH) tipHash.bytes,
    .put (asBytes KEY_LAST_UID) (toBeBytes 8 lastUid.toNat)])

end RocksDb

/-! ## Requests -/

/-- What the indexer asks of its store. The process may stop between the two puts of
`ensure_meta`. -/
inductive StoreRequest
  | ensureMeta (network : String) (startHeight : ℕ)
  | stoppedEnsureMeta (network : String)
  | tip
  | previousTipHash
  | lookupOutpointUids (outpoints : List OutPointKey)
  | commitAppliedBlocks (blocks : List AppliedBlock) (tipHeight : ℕ) (tipHash : BlockHashBytes)
      (lastUid : UInt64)

inductive StoreReply
  | done (result : Except String Unit)
  | tip (result : Except String (Option IndexTip))
  | hash (result : Except String (Option BlockHashBytes))
  | found (result : Except String (List (OutPointKey × SpendLookup)))
  /-- The process that would have been answered is gone. -/
  | unread

/-- The state after a request that may fail, which then leaves it alone. -/
def StoreReply.update {σ : Type} (before : σ) : Except String σ → StoreReply × σ
  | .ok after => (.done (.ok ()), after)
  | .error e => (.done (.error e), before)

def RocksDb.answer (db : RocksDb) : StoreRequest → StoreReply × RocksDb
  | .ensureMeta network startHeight =>
    let (result, db) := db.ensureMeta network startHeight
    (.done result, db)
  | .stoppedEnsureMeta network =>
    match db.ensureMetaValue KEY_NETWORK (asBytes network) with
    | .ok db => (.unread, db)
    | .error _ => (.unread, db)
  | .tip => (.tip db.tip, db)
  | .previousTipHash => (.hash db.previousTipHash, db)
  | .lookupOutpointUids outpoints => (.found (db.lookupOutpointUids outpoints), db)
  | .commitAppliedBlocks blocks tipHeight tipHash lastUid =>
    StoreReply.update db (db.commitAppliedBlocks blocks tipHeight tipHash lastUid)

/-- The same requests on the typed store. -/
def RocksIndexStore.answer (store : RocksIndexStore) : StoreRequest → StoreReply × RocksIndexStore
  | .ensureMeta network startHeight => StoreReply.update store (store.ensureMeta network startHeight)
  | .stoppedEnsureMeta network =>
    match RocksIndexStore.ensureMetaValue store.network network KEY_NETWORK with
    | .ok network => (.unread, { store with network })
    | .error _ => (.unread, store)
  | .tip => (.tip (.ok store.tip), store)
  | .previousTipHash => (.hash (.ok store.previousTipHash), store)
  | .lookupOutpointUids outpoints => (.found (.ok (store.lookupOutpointUids outpoints)), store)
  | .commitAppliedBlocks blocks tipHeight tipHash lastUid =>
    (.done (.ok ()), store.commitAppliedBlocks blocks tipHeight tipHash lastUid)

/-- The heights of a request are of type `u64`. -/
def StoreRequest.Fits : StoreRequest → Prop
  | .ensureMeta _ startHeight => startHeight ≤ U64_MAX
  | .commitAppliedBlocks blocks tipHeight _ _ =>
    tipHeight ≤ U64_MAX ∧ ∀ block ∈ blocks, ∀ created ∈ block.createdUtxos,
      created.entry.createdHeight ≤ U64_MAX
  | _ => True

/-- What a step of the indexer asks its store to write: `ensure_meta` when a process starts, and the
commit of a window behind its last mark. -/
def System.writeRequests (config : IndexerConfig) (sys : System) : Action → List StoreRequest
  | .start =>
    match sys.process with
    | some _ => []
    | none => [.ensureMeta config.network config.emitStartHeight]
  | .effect =>
    match sys.process with
    | some ⟨_, _, .marking window []⟩ =>
      [.commitAppliedBlocks (window.pending.map (·.applied)) window.lastHeight window.lastHash
        window.state.lastUid]
    | _ => []
  | .catchUp _ _ _ => []
  | .crash => []

/-- The same for a run, in order. -/
def runWriteRequests [Externals] (config : IndexerConfig) (sys : System) : List Action → List StoreRequest
  | [] => []
  | a :: acts => sys.writeRequests config a ++
    match step config sys a with
    | some sys' => runWriteRequests config sys' acts
    | none => []

end BitcoinData
