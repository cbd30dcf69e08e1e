import BitcoinData.Sanity.IndexBytes
import BitcoinData.Sanity.Sample
import BitcoinData.Sanity.Stages

/-! The typed index store is what RocksDB holds: over any sequence of requests both give the same
answers. Each write is followed on both sides, first the rows, which keep the metadata, then the
metadata, which keeps the rows. -/

namespace BitcoinData

open Lib

variable {db : RocksDb} {store acc : RocksIndexStore}

/-! ## Writes of rows -/

theorem tip_congr {db' : RocksDb}
    (h : ∀ key ∈ metaKeys, db'.lookup (asBytes key) = db.lookup (asBytes key)) : db'.tip = db.tip := by
  unfold RocksDb.tip
  rw [h KEY_TIP_HEIGHT (by simp [metaKeys]), h KEY_TIP_HASH (by simp [metaKeys]),
    h KEY_LAST_UID (by simp [metaKeys])]

theorem Represents.rows {db' : RocksDb} (h : Represents db store)
    (hmeta : ∀ key ∈ metaKeys, db'.lookup (asBytes key) = db.lookup (asBytes key))
    {outpoints : SpendMap} (houtpoints : outpointColumn.Reads db' outpoints)
    {seen : Finmap fun _ : XOnlyKey => UInt64} (hseen : seenColumn.Reads db' seen) :
    Represents db' { store with outpoints, seen } where
  network := (hmeta KEY_NETWORK (by simp [metaKeys])).trans h.network
  startHeight := (hmeta KEY_START_HEIGHT (by simp [metaKeys])).trans h.startHeight
  startHeight_le := h.startHeight_le
  started := h.started
  tip := (tip_congr hmeta).trans h.tip
  outpoints := houtpoints
  seen := hseen

theorem Represents.putOutpoint (h : Represents db store) (outpoint : OutPointKey) {row : Bytes}
    {spend : SpendLookup} (hread : readSpendLookup row = .ok spend) :
    Represents (db.insert (outpointKey outpoint) row)
      { store with outpoints := store.outpoints.insert outpoint spend } := by
  have hput : outpointColumn.Reads (db.insert (outpointKey outpoint) row) _ :=
    h.outpoints.put outpoint hread
  refine h.rows ?_ hput ?_
  · intro key hkey
    rw [lookup_insert_ite, if_neg (outpointKey_ne_meta outpoint hkey).symm]
  · exact h.seen.put_other (fun xonly => (outpointKey_ne_seenKey outpoint xonly).symm) _

theorem Represents.deleteOutpoint (h : Represents db store) (outpoint : OutPointKey) :
    Represents (db.erase (outpointKey outpoint))
      { store with outpoints := store.outpoints.erase outpoint } := by
  have hdelete : outpointColumn.Reads (db.erase (outpointKey outpoint)) _ :=
    h.outpoints.delete outpoint
  refine h.rows ?_ hdelete ?_
  · intro key hkey
    rw [lookup_erase_ite, if_neg (outpointKey_ne_meta outpoint hkey).symm]
  · exact h.seen.delete_other fun xonly => (outpointKey_ne_seenKey outpoint xonly).symm

theorem Represents.putSeen (h : Represents db store) (xonly : XOnlyKey) (count : UInt64) :
    Represents (db.insert (seenKey xonly) (toBeBytes 8 count.toNat))
      { store with seen := store.seen.insert xonly count } := by
  refine h.rows ?_ ?_ (h.seen.put xonly (seenColumn_read count))
  · intro key hkey
    rw [lookup_insert_ite, if_neg (seenKey_ne_meta xonly hkey).symm]
  · exact h.outpoints.put_other (fun outpoint => outpointKey_ne_seenKey outpoint xonly) _

/-! ## The batch of a commit -/

theorem Represents.seenCount (h : Represents db store) (xonly : XOnlyKey) :
    db.seenCount xonly = .ok ((store.seen.lookup xonly).getD 0) := by
  unfold RocksDb.seenCount
  cases hbytes : db.lookup (seenKey xonly) with
  | none =>
    rw [h.seen.lookup_eq_none.mp hbytes]
    rfl
  | some bytes =>
    obtain ⟨count, hcount, hread⟩ := h.seen.read_of_lookup hbytes
    rw [hcount]
    exact hread

/-- The counts are read from the database, the rows are put behind those of the batch. -/
theorem Represents.batchCreated (h : Represents db store) {batch : RocksDb.WriteBatch}
    (hbatch : Represents (db.write batch) acc) {created : CreatedScopedUtxo}
    (hle : created.entry.createdHeight ≤ U64_MAX) :
    ∃ batch', db.batchCreated batch created = .ok batch' ∧
      Represents (db.write batch') (store.batchCreated acc created) := by
  unfold RocksDb.batchCreated
  rw [h.seenCount]
  refine ⟨_, rfl, ?_⟩
  rw [RawStore.write_append, RawStore.write_append, RawStore.write_put, RawStore.write_put]
  exact (hbatch.putOutpoint _ (readSpendLookup_encode hle)).putSeen _ _

theorem Represents.batchSpent {batch : RocksDb.WriteBatch} (hbatch : Represents (db.write batch) acc)
    (spents : List SpentScopedUtxo) :
    Represents (db.write (batch ++ spents.map fun spent => .delete (outpointKey spent.outpoint)))
      (spents.foldl RocksIndexStore.batchSpent acc) := by
  induction spents generalizing batch acc with
  | nil => simpa using hbatch
  | cons spent spents ih =>
    have hnext : Represents (db.write (batch ++ [.delete (outpointKey spent.outpoint)]))
        (RocksIndexStore.batchSpent acc spent) := by
      rw [RawStore.write_append, RawStore.write_delete]
      exact hbatch.deleteOutpoint spent.outpoint
    have hrest := ih hnext
    rwa [List.append_assoc, List.singleton_append] at hrest

theorem Represents.batchBlock (h : Represents db store) {batch : RocksDb.WriteBatch}
    (hbatch : Represents (db.write batch) acc) {block : AppliedBlock}
    (hle : ∀ created ∈ block.createdUtxos, created.entry.createdHeight ≤ U64_MAX) :
    ∃ batch', db.batchBlock batch block = .ok batch' ∧
      Represents (db.write batch') (store.batchBlock acc block) := by
  obtain ⟨created, hcreated, hrows⟩ := foldlM_simulates (f := db.batchCreated)
    (g := store.batchCreated) (R := fun batch acc => Represents (db.write batch) acc)
    (fun created hc _ _ hb => h.batchCreated hb (hle created hc)) hbatch
  refine ⟨_, ?_, hrows.batchSpent block.spentUtxos⟩
  rw [RocksDb.batchBlock, hcreated, ok_bind, pure_eq_ok]

/-! ## Writes of metadata -/

theorem lookup_putMeta {key key' : String} (h : key' ≠ key) (value : Bytes) :
    Finmap.lookup (asBytes key') (db.insert (asBytes key) value) = db.lookup (asBytes key') := by
  rw [lookup_insert_ite, if_neg fun he => h (asBytes_injective he)]

theorem outpoints_putMeta {outpoints : SpendMap} (h : outpointColumn.Reads db outpoints) {key : String}
    (hkey : key ∈ metaKeys) (value : Bytes) :
    outpointColumn.Reads (db.insert (asBytes key) value) outpoints :=
  h.put_other (fun outpoint => outpointKey_ne_meta outpoint hkey) value

theorem seen_putMeta {seen : Finmap fun _ : XOnlyKey => UInt64} (h : seenColumn.Reads db seen)
    {key : String} (hkey : key ∈ metaKeys) (value : Bytes) :
    seenColumn.Reads (db.insert (asBytes key) value) seen :=
  h.put_other (fun xonly => seenKey_ne_meta xonly hkey) value

theorem tip_putMeta {key : String} (hheight : KEY_TIP_HEIGHT ≠ key) (hhash : KEY_TIP_HASH ≠ key)
    (huid : KEY_LAST_UID ≠ key) (value : Bytes) :
    RocksDb.tip (db.insert (asBytes key) value) = db.tip := by
  unfold RocksDb.tip
  rw [lookup_putMeta hheight, lookup_putMeta hhash, lookup_putMeta huid]

theorem Represents.putTip (h : Represents db store) (tip : IndexTip) (hle : tip.height ≤ U64_MAX) :
    Represents (db.write [.put (asBytes KEY_TIP_HEIGHT) (toBeBytes 8 tip.height),
      .put (asBytes KEY_TIP_HASH) tip.blockHash.bytes,
      .put (asBytes KEY_LAST_UID) (toBeBytes 8 tip.lastUid.toNat)]) { store with tip := some tip } where
  network := by
    change Finmap.lookup _ (((Finmap.insert _ _ db).insert _ _).insert _ _) = _
    rw [lookup_putMeta (by decide), lookup_putMeta (by decide), lookup_putMeta (by decide), h.network]
  startHeight := by
    change Finmap.lookup _ (((Finmap.insert _ _ db).insert _ _).insert _ _) = _
    rw [lookup_putMeta (by decide), lookup_putMeta (by decide), lookup_putMeta (by decide),
      h.startHeight]
  startHeight_le := h.startHeight_le
  started := h.started
  tip := by
    change RocksDb.tip (((Finmap.insert _ _ db).insert _ _).insert _ _) = _
    unfold RocksDb.tip
    rw [lookup_putMeta (by decide), lookup_putMeta (by decide), Finmap.lookup_insert,
      lookup_putMeta (by decide), Finmap.lookup_insert, Finmap.lookup_insert]
    simp only [readU64Be_toBeBytes (lt_of_le_U64_MAX hle), read32_bytes,
      readU64Be_toBeBytes tip.lastUid.toNat_lt, ok_bind, pure_eq_ok, UInt64.ofNat_toNat]
  outpoints := by
    change outpointColumn.Reads (((Finmap.insert _ _ db).insert _ _).insert _ _) _
    refine outpoints_putMeta (outpoints_putMeta (outpoints_putMeta h.outpoints ?_ _) ?_ _) ?_ _
    all_goals simp [metaKeys]
  seen := by
    change seenColumn.Reads (((Finmap.insert _ _ db).insert _ _).insert _ _) _
    refine seen_putMeta (seen_putMeta (seen_putMeta h.seen ?_ _) ?_ _) ?_ _
    all_goals simp [metaKeys]

theorem Represents.commitAppliedBlocks (h : Represents db store) {blocks : List AppliedBlock}
    (hle : ∀ block ∈ blocks, ∀ created ∈ block.createdUtxos, created.entry.createdHeight ≤ U64_MAX)
    {tipHeight : ℕ} (htip : tipHeight ≤ U64_MAX) (tipHash : BlockHashBytes) (lastUid : UInt64) :
    ∃ db', db.commitAppliedBlocks blocks tipHeight tipHash lastUid = .ok db' ∧
      Represents db' (store.commitAppliedBlocks blocks tipHeight tipHash lastUid) := by
  obtain ⟨batch, hbatch, hrows⟩ := foldlM_simulates (f := db.batchBlock) (g := store.batchBlock)
    (R := fun batch acc => Represents (db.write batch) acc)
    (fun block hb _ _ hacc => h.batchBlock hacc (hle block hb)) (s := []) h
  refine ⟨_, by rw [RocksDb.commitAppliedBlocks, hbatch, ok_bind, pure_eq_ok], ?_⟩
  rw [RawStore.write_append]
  exact hrows.putTip ⟨tipHeight, tipHash, lastUid⟩ htip

/-- A metadata value is compared by its bytes, which are those of one value only. On both sides it
is refused, or was there, or is put. -/
theorem ensureMetaValue_cases {α : Type} [DecidableEq α] {key : String} {existing : Option α}
    {encode : α → Bytes} (h : db.lookup (asBytes key) = existing.map encode) (value : α)
    (hinj : ∀ v ∈ existing, encode v = encode value → v = value) :
    (∃ e, RocksIndexStore.ensureMetaValue existing value key = .error e ∧
      db.ensureMetaValue key (encode value) = .error e) ∨
    RocksIndexStore.ensureMetaValue existing value key = .ok (some value) ∧
      ∃ db', db.ensureMetaValue key (encode value) = .ok db' ∧
        (existing = some value ∧ db' = db ∨
          existing = none ∧ db' = db.insert (asBytes key) (encode value)) := by
  unfold RocksDb.ensureMetaValue RocksIndexStore.ensureMetaValue
  rw [h]
  cases existing with
  | none => exact .inr ⟨rfl, _, rfl, .inr ⟨rfl, rfl⟩⟩
  | some v =>
    have hiff : encode v = encode value ↔ v = value := ⟨hinj v rfl, congrArg encode⟩
    simp only [Option.map_some, hiff]
    by_cases hv : v = value
    · subst hv
      rw [ensure, if_pos rfl, ok_bind, ok_bind]
      exact .inr ⟨rfl, db, rfl, .inl ⟨rfl, rfl⟩⟩
    · rw [ensure, if_neg hv, error_bind, error_bind]
      exact .inl ⟨_, rfl, rfl⟩

theorem Represents.putNetwork (h : Represents db store) (network : String) :
    Represents (db.insert (asBytes KEY_NETWORK) (asBytes network))
      { store with network := some network } where
  network := Finmap.lookup_insert _
  startHeight := (lookup_putMeta (by decide) _).trans h.startHeight
  startHeight_le := h.startHeight_le
  started _ := rfl
  tip := (tip_putMeta (by decide) (by decide) (by decide) _).trans h.tip
  outpoints := outpoints_putMeta h.outpoints (by simp [metaKeys]) _
  seen := seen_putMeta h.seen (by simp [metaKeys]) _

theorem Represents.putStartHeight (h : Represents db store) (hnetwork : store.network.isSome)
    {startHeight : ℕ} (hle : startHeight ≤ U64_MAX) :
    Represents (db.insert (asBytes KEY_START_HEIGHT) (toBeBytes 8 startHeight))
      { store with startHeight := some startHeight } where
  network := (lookup_putMeta (by decide) _).trans h.network
  startHeight := Finmap.lookup_insert _
  startHeight_le height hheight := by
    obtain rfl := Option.some.inj hheight
    exact hle
  started _ := hnetwork
  tip := (tip_putMeta (by decide) (by decide) (by decide) _).trans h.tip
  outpoints := outpoints_putMeta h.outpoints (by simp [metaKeys]) _
  seen := seen_putMeta h.seen (by simp [metaKeys]) _

/-- One value of the metadata, on both sides: refused by both, or held by both afterwards. -/
theorem Represents.ensureNetwork (h : Represents db store) (network : String) :
    (∃ e, RocksIndexStore.ensureMetaValue store.network network KEY_NETWORK = .error e ∧
      db.ensureMetaValue KEY_NETWORK (asBytes network) = .error e) ∨
    RocksIndexStore.ensureMetaValue store.network network KEY_NETWORK = .ok (some network) ∧
      ∃ db', db.ensureMetaValue KEY_NETWORK (asBytes network) = .ok db' ∧
        Represents db' { store with network := some network } ∧ (store.network.isSome → db' = db) := by
  rcases ensureMetaValue_cases h.network network fun _ _ he => asBytes_injective he with
    herror | ⟨htyped, db', hbytes, ⟨hheld, rfl⟩ | ⟨hnone, rfl⟩⟩
  · exact .inl herror
  · refine .inr ⟨htyped, _, hbytes, ?_, fun _ => rfl⟩
    rw [← hheld]
    exact h
  · refine .inr ⟨htyped, _, hbytes, h.putNetwork network, ?_⟩
    intro hsome
    rw [hnone] at hsome
    cases hsome

theorem Represents.ensureStartHeight (h : Represents db store) (hnetwork : store.network.isSome)
    {startHeight : ℕ} (hle : startHeight ≤ U64_MAX) :
    (∃ e, RocksIndexStore.ensureMetaValue store.startHeight startHeight KEY_START_HEIGHT = .error e ∧
      db.ensureMetaValue KEY_START_HEIGHT (toBeBytes 8 startHeight) = .error e) ∨
    RocksIndexStore.ensureMetaValue store.startHeight startHeight KEY_START_HEIGHT =
        .ok (some startHeight) ∧
      ∃ db', db.ensureMetaValue KEY_START_HEIGHT (toBeBytes 8 startHeight) = .ok db' ∧
        Represents db' { store with startHeight := some startHeight } := by
  have hinj : ∀ v ∈ store.startHeight, toBeBytes 8 v = toBeBytes 8 startHeight → v = startHeight :=
    fun v hv => (toBeBytes_inj (lt_of_le_U64_MAX (h.startHeight_le v hv)) (lt_of_le_U64_MAX hle)).mp
  rcases ensureMetaValue_cases h.startHeight startHeight hinj with
    herror | ⟨htyped, db', hbytes, ⟨hheld, rfl⟩ | ⟨-, rfl⟩⟩
  · exact .inl herror
  · refine .inr ⟨htyped, _, hbytes, ?_⟩
    rw [← hheld]
    exact h
  · exact .inr ⟨htyped, _, hbytes, h.putStartHeight hnetwork hle⟩

theorem Represents.ensureMeta (h : Represents db store) (network : String) {startHeight : ℕ}
    (hle : startHeight ≤ U64_MAX) :
    (∃ e, store.ensureMeta network startHeight = .error e ∧
      db.ensureMeta network startHeight = (.error e, db)) ∨
    ∃ store' db', store.ensureMeta network startHeight = .ok store' ∧
      db.ensureMeta network startHeight = (.ok (), db') ∧ Represents db' store' := by
  rw [RocksDb.ensureMeta, RocksIndexStore.ensureMeta]
  rcases h.ensureNetwork network with ⟨e, htyped, hbytes⟩ | ⟨htyped, db₁, hbytes, hdb₁, hsame⟩
  · left
    refine ⟨e, ?_, by rw [hbytes]⟩
    change (RocksIndexStore.ensureMetaValue _ _ KEY_NETWORK >>= _) = _
    rw [htyped, error_bind]
  rcases hdb₁.ensureStartHeight rfl hle with ⟨e, htyped₂, hbytes₂⟩ | ⟨htyped₂, db₂, hbytes₂, hdb₂⟩
  · -- the start height is there, and so was the network
    have hstart : store.startHeight.isSome := by
      by_contra hnone
      rw [Option.not_isSome_iff_eq_none] at hnone
      change RocksIndexStore.ensureMetaValue store.startHeight _ _ = _ at htyped₂
      rw [hnone] at htyped₂
      cases htyped₂
    obtain rfl := hsame (h.started hstart)
    left
    refine ⟨e, ?_, by simp only [hbytes, hbytes₂]⟩
    change (RocksIndexStore.ensureMetaValue _ _ KEY_NETWORK >>= _) = _
    rw [htyped, ok_bind]
    change (RocksIndexStore.ensureMetaValue _ _ KEY_START_HEIGHT >>= _) = _
    rw [htyped₂, error_bind]
  · right
    refine ⟨_, db₂, ?_, by simp only [hbytes, hbytes₂], hdb₂⟩
    change (RocksIndexStore.ensureMetaValue _ _ KEY_NETWORK >>= _) = _
    rw [htyped, ok_bind]
    change (RocksIndexStore.ensureMetaValue _ _ KEY_START_HEIGHT >>= _) = _
    rw [htyped₂, ok_bind, pure_eq_ok]

/-! ## Reads -/

theorem Represents.lookupOutpointUids (h : Represents db store) (outpoints : List OutPointKey) :
    db.lookupOutpointUids outpoints = .ok (store.lookupOutpointUids outpoints) := by
  induction outpoints with
  | nil => rfl
  | cons outpoint outpoints ih =>
    unfold RocksDb.lookupOutpointUids RocksIndexStore.lookupOutpointUids
    cases hvalue : db.lookup (outpointKey outpoint) with
    | none =>
      rw [List.filterMap_cons, h.outpoints.lookup_eq_none.mp hvalue]
      exact ih
    | some value =>
      obtain ⟨spend, hspend, hread⟩ := h.outpoints.read_of_lookup hvalue
      change readSpendLookup value = _ at hread
      rw [List.filterMap_cons, hspend]
      simp only [hread, ok_bind, ih, pure_eq_ok, Option.map_some]
      rfl

theorem Represents.previousTipHash (h : Represents db store) :
    db.previousTipHash = .ok store.previousTipHash := by
  rw [RocksDb.previousTipHash, h.tip, ok_bind, pure_eq_ok]
  rfl

/-! ## Requests -/

theorem Represents.answer (h : Represents db store) {request : StoreRequest} (hfits : request.Fits) :
    (db.answer request).1 = (store.answer request).1 ∧
      Represents (db.answer request).2 (store.answer request).2 := by
  cases request with
  | ensureMeta network startHeight =>
    unfold RocksDb.answer RocksIndexStore.answer
    rcases h.ensureMeta network hfits with ⟨e, htyped, hbytes⟩ | ⟨store', db', htyped, hbytes, hdb'⟩
    · simp only [htyped, hbytes, StoreReply.update]
      exact ⟨trivial, h⟩
    · simp only [htyped, hbytes, StoreReply.update]
      exact ⟨trivial, hdb'⟩
  | stoppedEnsureMeta network =>
    unfold RocksDb.answer RocksIndexStore.answer
    rcases h.ensureNetwork network with ⟨e, htyped, hbytes⟩ | ⟨htyped, db', hbytes, hdb', -⟩
    · simp only [htyped, hbytes]
      exact ⟨trivial, h⟩
    · simp only [htyped, hbytes]
      exact ⟨trivial, hdb'⟩
  | tip => exact ⟨congrArg StoreReply.tip h.tip, h⟩
  | previousTipHash => exact ⟨congrArg StoreReply.hash h.previousTipHash, h⟩
  | lookupOutpointUids outpoints =>
    exact ⟨congrArg StoreReply.found (h.lookupOutpointUids outpoints), h⟩
  | commitAppliedBlocks blocks tipHeight tipHash lastUid =>
    obtain ⟨db', hcommit, hdb'⟩ := h.commitAppliedBlocks hfits.2 hfits.1 tipHash lastUid
    unfold RocksDb.answer RocksIndexStore.answer
    simp only [hcommit, StoreReply.update]
    exact ⟨trivial, hdb'⟩

theorem Represents.simulates (h : Represents db store) {requests : List StoreRequest}
    (hfits : ∀ request ∈ requests, request.Fits) :
    (answers RocksDb.answer db requests).1 = (answers RocksIndexStore.answer store requests).1 ∧
      Represents (answers RocksDb.answer db requests).2
        (answers RocksIndexStore.answer store requests).2 :=
  answers_simulate (fun request hrequest _ _ hR => hR.answer (hfits request hrequest)) h

/-- From any database that holds a typed store, rows of an older form among them, both answer every
sequence of requests alike, and the database holds the typed store afterwards. -/
theorem index_store_refined (h : Represents db store) {requests : List StoreRequest}
    (hfits : ∀ request ∈ requests, request.Fits) :
    (answers RocksDb.answer db requests).1 = (answers RocksIndexStore.answer store requests).1 ∧
      Represents (answers RocksDb.answer db requests).2
        (answers RocksIndexStore.answer store requests).2 :=
  h.simulates hfits

section
attribute [local instance] sampleExternals

/-- A database from before the flags, with one output. -/
def legacyDb : RocksDb :=
  (∅ : RocksDb).insert (outpointKey ⟨sampleId 9, 0⟩)
    (toBeBytes 8 1 ++ toBeBytes 8 99 ++ toBeBytes 4 0)

def legacyStore : RocksIndexStore :=
  { RocksIndexStore.empty with outpoints := (∅ : SpendMap).insert ⟨sampleId 9, 0⟩ ⟨1, 99, 0, 0⟩ }

/-- One window, then a process for another network. -/
def legacyRequests (applied : AppliedBlock) : List StoreRequest :=
  [.ensureMeta "regtest" 100, .tip, .lookupOutpointUids [⟨sampleId 9, 0⟩, ⟨sampleId 9, 1⟩],
    .commitAppliedBlocks [applied] 100 (sampleId 1) 3, .stoppedEnsureMeta "main",
    .ensureMeta "main" 100, .previousTipHash, .lookupOutpointUids [⟨sampleId 10, 0⟩]]

theorem index_store_refined_sample : ∃ state applied,
    (P2trIndexerState.restoreAtUid 1).applyBlockWithStats
        (sampleBlock 100 1 0 [sampleTx 10 0 [] [1, 1]]) = .ok (state, applied) ∧
      (answers RocksDb.answer legacyDb (legacyRequests applied)).1 =
        (answers RocksIndexStore.answer legacyStore (legacyRequests applied)).1 := by
  have h : ((P2trIndexerState.restoreAtUid 1).applyBlockWithStats
      (sampleBlock 100 1 0 [sampleTx 10 0 [] [1, 1]])).isOk = true := by decide +kernel
  obtain ⟨⟨state, applied⟩, happly⟩ := exists_of_isOk h
  refine ⟨state, applied, happly, (index_store_refined ?_ ?_).1⟩
  · have hread : readSpendLookup (toBeBytes 8 1 ++ toBeBytes 8 99 ++ toBeBytes 4 0) =
        .ok ⟨1, 99, 0, 0⟩ := by decide +kernel
    exact represents_empty.putOutpoint ⟨sampleId 9, 0⟩ hread
  · have hcreated : ∀ created ∈ applied.createdUtxos, created.entry.createdHeight ≤ U64_MAX := by
      intro created hc
      rw [(applyBlockWithStats_spec happly).createdHeight created hc]
      decide
    have hcommit : (StoreRequest.commitAppliedBlocks [applied] 100 (sampleId 1) 3).Fits :=
      ⟨by decide, fun block hblock => List.mem_singleton.mp hblock ▸ hcreated⟩
    have hmeta : ∀ network, (StoreRequest.ensureMeta network 100).Fits := fun _ =>
      (by decide : 100 ≤ U64_MAX)
    simp only [legacyRequests, List.forall_mem_cons, hcommit, hmeta, true_and]
    exact ⟨trivial, trivial, trivial, trivial, trivial, fun _ hnil => by cases hnil⟩

end

/-! ## The indexer -/

section
variable [Externals] {config : IndexerConfig}

/-- Blocks of a window were encoded, which checks their heights. -/
theorem WindowSpec.height_le {start : P2trIndexerState} {startHeight : ℕ} {window : Window}
    {done : List (BlockScanInput × Pending)} (hw : WindowSpec store start startHeight window done)
    {d : BlockScanInput × Pending} (hd : d ∈ done) : d.1.height ≤ U64_MAX := by
  obtain ⟨⟨_, _, hs⟩, hencoded⟩ := hw.trace.mem hd
  have hle := (valid_of_storedBlockBytes hencoded).height
  rw [hs.height] at hle
  exact hle.trans (by decide)

theorem WindowSpec.fits {start : P2trIndexerState} {startHeight : ℕ} {window : Window}
    {done : List (BlockScanInput × Pending)} (hw : WindowSpec store start startHeight window done) :
    (StoreRequest.commitAppliedBlocks (window.pending.map (·.applied)) window.lastHeight
      window.lastHash window.state.lastUid).Fits := by
  constructor
  · obtain ⟨d, hd, hheight, -⟩ := hw.last_get
    rw [← hheight]
    exact hw.height_le hd
  · intro block hblock created hcreated
    obtain ⟨p, hp, rfl⟩ := List.mem_map.mp hblock
    obtain ⟨d, hd, rfl⟩ := hw.mem_pending hp
    obtain ⟨⟨_, _, hs⟩, -⟩ := hw.trace.mem hd
    rw [hs.createdHeight created hcreated]
    exact hw.height_le hd

omit [Externals] in
/-- What a process finds when it starts is what `ensure_meta` leaves. -/
theorem startProcess_writes (config : IndexerConfig) (disk : Disk) :
    (∃ disk' process, startProcess config disk = .ok (disk', process) ∧
      (disk.indexStore.answer (.ensureMeta config.network config.emitStartHeight)).2 = disk'.indexStore) ∨
    ∃ e, startProcess config disk = .error e ∧
      (disk.indexStore.answer (.ensureMeta config.network config.emitStartHeight)).2 = disk.indexStore := by
  unfold startProcess
  cases hmeta : disk.indexStore.ensureMeta config.network config.emitStartHeight with
  | ok indexStore => exact .inl ⟨_, _, rfl, by simp only [RocksIndexStore.answer, hmeta, StoreReply.update]⟩
  | error e => exact .inr ⟨e, rfl, by simp only [RocksIndexStore.answer, hmeta, StoreReply.update]⟩

/-- The requests of a step fit, and they lead to the store after it. -/
theorem writes_of_step (hstart : config.emitStartHeight ≤ U64_MAX) {sys sys' : System} {a : Action}
    (hb : Base config sys) (h : step config sys a = some sys') :
    (∀ request ∈ sys.writeRequests config a, request.Fits) ∧
      (answers RocksIndexStore.answer sys.disk.indexStore (sys.writeRequests config a)).2 =
        sys'.disk.indexStore := by
  obtain ⟨disk, process⟩ := sys
  cases a with
  | start =>
    cases process with
    | some process => cases h
    | none =>
      refine ⟨List.forall_mem_singleton.mpr hstart, ?_⟩
      rcases startProcess_writes config disk with ⟨disk', process, hprocess, hstore⟩ | ⟨e, hprocess, hstore⟩
      · simp only [step, hprocess, Option.some.injEq] at h
        exact h ▸ hstore
      · simp only [step, hprocess, Option.some.injEq] at h
        exact h ▸ hstore
  | catchUp tuning best fetch =>
    refine ⟨by simp [System.writeRequests], ?_⟩
    cases steps_of_step h <;> rfl
  | crash =>
    obtain rfl := Option.some.inj h
    exact ⟨by simp [System.writeRequests], rfl⟩
  | effect =>
    cases process with
    | none => cases h
    | some process =>
      obtain ⟨state, next, stage⟩ := process
      cases stage with
      | marking window rest =>
        cases rest with
        | nil =>
          obtain ⟨hflight, -⟩ := hb.stage _ rfl
          obtain ⟨start, done, hw⟩ := hflight.spec
          obtain rfl := Option.some.inj h
          exact ⟨List.forall_mem_singleton.mpr hw.fits, rfl⟩
        | cons group rest =>
          refine ⟨by simp [System.writeRequests], ?_⟩
          cases steps_of_step h with
          | stop => rfl
          | mark => rfl
      | _ =>
        refine ⟨by simp [System.writeRequests], ?_⟩
        cases steps_of_step h <;> rfl

theorem writes_of_run (hstart : config.emitStartHeight ≤ U64_MAX) {acts : List Action} {sys sys' : System}
    (hb : Base config sys) (h : run (step config) sys acts = some sys') :
    (∀ request ∈ runWriteRequests config sys acts, request.Fits) ∧
      (answers RocksIndexStore.answer sys.disk.indexStore (runWriteRequests config sys acts)).2 =
        sys'.disk.indexStore := by
  induction acts generalizing sys with
  | nil =>
    obtain rfl := Option.some.inj h
    exact ⟨by simp [runWriteRequests], rfl⟩
  | cons a acts ih =>
    obtain ⟨mid, hstep, hrest⟩ := run_cons_eq_some.mp h
    obtain ⟨hfits, hstore⟩ := writes_of_step hstart hb hstep
    obtain ⟨hfits', hstore'⟩ := ih (hb.step (steps_of_step hstep)) hrest
    simp only [runWriteRequests, hstep]
    refine ⟨List.forall_mem_append.mpr ⟨hfits, hfits'⟩, ?_⟩
    rw [answers_append, hstore, hstore']

/-- At every moment of every run of the indexer, the requests that its steps have made fit and build
its index, and the database that they have written from the empty one on answers further requests as
the typed store of the run does. -/
theorem indexer_on_bytes (hstart : config.emitStartHeight ≤ U64_MAX) {acts : List Action} {sys : System}
    (h : run (step config) System.init acts = some sys) :
    (∀ request ∈ runWriteRequests config System.init acts, request.Fits) ∧
      (answers RocksIndexStore.answer .empty (runWriteRequests config System.init acts)).2 =
        sys.disk.indexStore ∧
      ∀ further : List StoreRequest, (∀ request ∈ further, request.Fits) →
        (answers RocksDb.answer
            (answers RocksDb.answer ∅ (runWriteRequests config System.init acts)).2 further).1 =
          (answers RocksIndexStore.answer sys.disk.indexStore further).1 := by
  obtain ⟨hfits, hstore⟩ := writes_of_run hstart (Base.init config) h
  refine ⟨hfits, hstore, ?_⟩
  intro further hfurther
  have hrep := (represents_empty.simulates hfits).2
  rw [show RocksIndexStore.empty = System.init.disk.indexStore from rfl, hstore] at hrep
  exact (hrep.simulates hfurther).1

end

section
attribute [local instance] sampleExternals

/-- After one window of three blocks: the metadata and the commit. -/
theorem indexer_on_bytes_sample : ∃ acts sys, run (step sampleConfig) System.init acts = some sys ∧
    (sys.disk.indexStore.tip.map (·.height)) = some 102 ∧
    (runWriteRequests sampleConfig System.init acts).length = 2 ∧
    (answers RocksIndexStore.answer .empty (runWriteRequests sampleConfig System.init acts)).2 =
      sys.disk.indexStore ∧
    ∀ further : List StoreRequest, (∀ request ∈ further, request.Fits) →
      (answers RocksDb.answer
          (answers RocksDb.answer ∅ (runWriteRequests sampleConfig System.init acts)).2 further).1 =
        (answers RocksIndexStore.answer sys.disk.indexStore further).1 := by
  have hrun : ((run (step sampleConfig) System.init
      ([.start, sampleCatchUp 103 sampleChain] ++ List.replicate 8 .effect)).any fun sys =>
        decide ((sys.disk.indexStore.tip.map (·.height)) = some 102 ∧
          (runWriteRequests sampleConfig System.init
            ([.start, sampleCatchUp 103 sampleChain] ++ List.replicate 8 .effect)).length = 2)) = true := by
    decide +kernel
  obtain ⟨sys, hsys, hfacts⟩ := (Option.any_eq_true _ _).mp hrun
  obtain ⟨htip, hlength⟩ := of_decide_eq_true hfacts
  obtain ⟨-, hstore, hfurther⟩ := indexer_on_bytes (by decide) hsys
  exact ⟨_, sys, hsys, htip, hlength, hstore, hfurther⟩

end

end BitcoinData
