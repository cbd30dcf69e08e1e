import BitcoinData.Lib.Ledger
import BitcoinData.Proofs.RestForms
import BitcoinData.Proofs.RestRange
import BitcoinData.Sanity.NodeSample
import BitcoinData.Spec.Rpc

/-! A batch of JSON-RPC requests gives what the requests give one by one, in whatever order the
responses come and whichever ids the shared counter hands out in between. -/

namespace BitcoinData

open Lib

/-! ## One batch -/

section
variable {rpc : BitcoinRpc} {answer : String → RpcParams → Except RpcErr String}

theorem BitcoinRpc.Answers.call_eq_ok (ha : rpc.Answers answer) {id : UInt64} {method : String}
    {params : RpcParams} {result : String} :
    rpc.call id method params = .ok result ↔ answer method params = .ok result := by
  rw [BitcoinRpc.call, ha.single]
  cases answer method params <;> simp [Resp.of]

theorem takeResponses_eq_ok {requests : List BatchReq} {byId : Finmap fun _ : UInt64 => BatchResp}
    (hids : (requests.map (·.id)).Nodup)
    (hfound : ∀ request ∈ requests, byId.lookup request.id =
      some (BatchResp.of request.id (answer request.method request.params))) {results : List String} :
    BitcoinRpc.takeResponses (requests.map (·.id)) byId = .ok results ↔
      List.Forall₂ (fun request result => answer request.method request.params = .ok result)
        requests results := by
  induction requests generalizing byId results with
  | nil =>
    rw [List.map_nil, BitcoinRpc.takeResponses, Except.ok.injEq, List.forall₂_nil_left_iff]
    exact eq_comm
  | cons request requests ih =>
    rw [List.map_cons, List.nodup_cons] at hids
    obtain ⟨hhead, hids⟩ := hids
    have hrest : ∀ r ∈ requests, (byId.erase request.id).lookup r.id =
        some (BatchResp.of r.id (answer r.method r.params)) := by
      intro r hr
      have hne : r.id ≠ request.id := fun h => hhead (h ▸ List.mem_map_of_mem hr)
      rw [Finmap.lookup_erase_ne hne]
      exact hfound r (List.mem_cons_of_mem _ hr)
    rw [List.map_cons, BitcoinRpc.takeResponses, hfound request List.mem_cons_self, okOr_some, ok_bind,
      List.forall₂_cons_left_iff]
    cases answer request.method request.params with
    | error e => simp [BatchResp.of]
    | ok result =>
      simp only [BatchResp.of, okOr_some, ok_bind, bind_eq_ok, ih hids hrest, pure_eq_ok, Except.ok.injEq,
        exists_and_left, exists_eq_left']
      exact exists_congr fun rest => and_congr_right fun _ => eq_comm

theorem BitcoinRpc.Answers.batchCall_eq_ok (ha : rpc.Answers answer) {requests : List BatchReq}
    (hids : (requests.map (·.id)).Nodup) {results : List String} :
    rpc.batchCall requests = .ok results ↔
      List.Forall₂ (fun request result => answer request.method request.params = .ok result)
        requests results := by
  unfold BitcoinRpc.batchCall
  split_ifs with hempty
  · subst hempty
    rw [List.forall₂_nil_left_iff, Except.ok.injEq]
    exact eq_comm
  · obtain ⟨responses, hresponses, hperm⟩ := ha.batch requests hempty hids
    rw [hresponses, ok_bind]
    refine takeResponses_eq_ok hids ?_
    intro request hrequest
    have hid : ∀ r : BatchReq, (BatchResp.of r.id (answer r.method r.params)).id = r.id := by
      intro r
      cases answer r.method r.params <;> rfl
    -- the ids of the responses are those of the requests, in another order
    have hnodup : ((responses.map fun resp => (resp.id, resp)).map Prod.fst).Nodup := by
      rw [List.map_map, (hperm.map _).nodup_iff, List.map_map]
      exact (List.map_congr_left fun r _ => hid r) ▸ hids
    have hmem := hperm.mem_iff.mpr (List.mem_map_of_mem hrequest)
    have hlookup := lookup_foldl_insert_of_mem (m := ∅) (responses.map fun resp => (resp.id, resp)) hnodup
      (List.mem_map_of_mem (f := fun resp => (resp.id, resp)) hmem)
    rw [List.foldl_map, hid request] at hlookup
    exact hlookup

/-! ## Hashes as text -/

theorem utf8_hexDigit : ∀ n < 16, String.utf8EncodeChar (hexDigit n) = [hexDigitByte false n] := by
  decide

theorem asBytes_hexEncode (bytes : Bytes) :
    asBytes (String.ofList (hexEncode bytes)) = hexText false bytes := by
  rw [asBytes, String.toList_ofList, hexEncode, hexText]
  induction bytes with
  | nil => rfl
  | cons b bytes ih =>
    have hlt := b.toNat_lt
    rw [List.flatMap_cons, List.flatMap_append, ih, List.flatMap_cons]
    rw [List.flatMap_cons, List.flatMap_cons, utf8_hexDigit _ (by omega), utf8_hexDigit _ (by omega)]
    rfl

theorem DecodesHex.hashOfDisplay_displayHash [HexCrate] (hhex : DecodesHex) (hash : BlockHashBytes) :
    hashOfDisplay (asBytes (displayHash hash)) = .ok hash := by
  rw [hashOfDisplay, displayHash, asBytes_hexEncode, hhex.decode_hexText, ok_bind,
    dif_pos (by rw [List.length_reverse, hash.length_eq]), pure_eq_ok, Except.ok.injEq]
  exact FixedBytes.ext (List.reverse_reverse _)

/-! ## A range -/

theorem BitcoinRpc.Answers.batch_eq_ok (ha : rpc.Answers answer) {α : Type} {ids : BitcoinRpc.BatchIds}
    {l : List α} (hids : Set.InjOn ids {k | k < l.length}) {method : String} {params : α → RpcParams}
    {results : List String} :
    rpc.batchCall (l.zipIdx.map fun a => ⟨ids a.2, method, params a.1⟩) = .ok results ↔
      List.Forall₂ (fun a result => answer method (params a) = .ok result) l results := by
  have hmap : (l.zipIdx.map fun a => (⟨ids a.2, method, params a.1⟩ : BatchReq)).map (·.id) =
      (List.range' 0 l.length).map ids := by
    rw [← List.zipIdx_map_snd 0 l, List.map_map, List.map_map]
    rfl
  have hnodup : ((l.zipIdx.map fun a => (⟨ids a.2, method, params a.1⟩ : BatchReq)).map (·.id)).Nodup := by
    rw [hmap, List.nodup_map_iff_inj_on List.nodup_range']
    intro i hi j hj h
    rw [List.mem_range'_1] at hi hj
    exact hids (by simp; omega) (by simp; omega) h
  rw [ha.batchCall_eq_ok hnodup, List.forall₂_map_left_iff]
  conv_rhs => rw [← List.zipIdx_map_fst 0 l, List.forall₂_map_left_iff]

theorem BitcoinRpc.Answers.hashes_eq_ok (ha : rpc.Answers answer) {ids : BitcoinRpc.BatchIds}
    {startHeight count : ℕ} (hids : Set.InjOn ids {k | k < count}) {texts : List String} :
    rpc.getBlockHashes ids startHeight count = .ok texts ↔
      (∀ offset < count, startHeight + offset ≤ U64_MAX) ∧
        List.Forall₂ (fun height text => answer "getblockhash" (.height height) = .ok text)
          (List.range' startHeight count) texts := by
  have hlen : (List.range' startHeight count).length = count := List.length_range'
  rw [← hlen] at hids
  unfold BitcoinRpc.getBlockHashes
  simp only [bind_eq_ok, mapM_eq_ok, addU64_eq_ok, heights_iff]
  refine ⟨?_, ?_⟩
  · rintro ⟨heights, ⟨hfit, rfl⟩, h⟩
    exact ⟨hfit, (ha.batch_eq_ok hids).mp h⟩
  · rintro ⟨hfit, h⟩
    exact ⟨_, ⟨hfit, rfl⟩, (ha.batch_eq_ok hids).mpr h⟩

variable [HexCrate]

theorem BitcoinRpc.Answers.blocks_eq_ok (ha : rpc.Answers answer) {ids : BitcoinRpc.BatchIds}
    {texts : List String} (hids : Set.InjOn ids {k | k < texts.length}) {blocks : List Bytes} :
    rpc.getBlocksRawHex ids texts = .ok blocks ↔ ∃ hexBlocks : List String,
      List.Forall₂ (fun text hexBlock => answer "getblock" (.block text) = .ok hexBlock) texts hexBlocks ∧
        List.Forall₂ (fun hexBlock bytes => HexCrate.decode (asBytes hexBlock) = .ok bytes)
          hexBlocks blocks := by
  unfold BitcoinRpc.getBlocksRawHex
  simp only [bind_eq_ok, mapM_eq_ok]
  exact exists_congr fun hexBlocks => and_congr_left fun _ => ha.batch_eq_ok hids

/-! ## The range, block by block -/

theorem BitcoinRpc.Answers.getBlockHash_eq_ok (ha : rpc.Answers answer) (hd : DisplaysHashes answer)
    (hhex : DecodesHex) {id : UInt64} {height : ℕ} {hash : BlockHashBytes} :
    rpc.getBlockHash id height = .ok hash ↔
      answer "getblockhash" (.height height) = .ok (displayHash hash) := by
  simp only [BitcoinRpc.getBlockHash, bind_eq_ok, ha.call_eq_ok]
  refine ⟨?_, fun h => ⟨_, h, hhex.hashOfDisplay_displayHash hash⟩⟩
  rintro ⟨text, htext, hhash⟩
  obtain ⟨shown, rfl⟩ := hd height text htext
  rw [hhex.hashOfDisplay_displayHash, Except.ok.injEq] at hhash
  rw [htext, hhash]

theorem DisplaysHashes.texts_eq (hd : DisplaysHashes answer) (hhex : DecodesHex) {heights : List ℕ}
    {texts : List String} {hashes : List BlockHashBytes}
    (h : List.Forall₂ (fun height text => answer "getblockhash" (.height height) = .ok text) heights texts)
    (hhashes : (texts.mapM fun text => hashOfDisplay (asBytes text)) = .ok hashes) :
    texts = hashes.map displayHash := by
  rw [mapM_eq_ok] at hhashes
  induction h generalizing hashes with
  | nil => rw [List.forall₂_nil_left_iff.mp hhashes, List.map_nil]
  | cons htext _ ih =>
    obtain ⟨hash, hashes, hhash, hrest, rfl⟩ := List.forall₂_cons_left_iff.mp hhashes
    obtain ⟨shown, rfl⟩ := hd _ _ htext
    rw [hhex.hashOfDisplay_displayHash, Except.ok.injEq] at hhash
    rw [List.map_cons, ih hrest, hhash]

theorem BitcoinRpc.Answers.raw_iff (ha : rpc.Answers answer) {ids : BitcoinRpc.BatchIds}
    {hashes : List BlockHashBytes} (hids : Set.InjOn ids {k | k < hashes.length}) (id : UInt64)
    {blocks : List Bytes} :
    (hashes.mapM fun hash => orFailed (rpc.getBlockRaw id hash)) = .ok blocks ↔
      rpc.getBlocksRawHex ids (hashes.map displayHash) = .ok blocks := by
  rw [ha.blocks_eq_ok (by rwa [List.length_map]), mapM_eq_ok]
  simp only [orFailed_eq_ok]
  rw [← mapM_eq_ok]
  refine mapM_bind_eq_ok.trans ?_
  simp only [mapM_eq_ok, ha.call_eq_ok, List.forall₂_map_left_iff]

omit [HexCrate] in
theorem none_mapM_iff {hashes : List BlockHashBytes} {undo : List (Option BlockSpentTxOuts)} :
    (hashes.mapM fun _ => (.ok none : Except DecodeFault (Option BlockSpentTxOuts))) = .ok undo ↔
      undo = List.replicate hashes.length none := by
  rw [mapM_eq_map (g := fun _ => none) fun _ _ => rfl, Except.ok.injEq, List.map_const']
  exact eq_comm

omit [HexCrate] in
theorem zip_none {α β : Type} (l : List α) :
    l.zip (List.replicate l.length (none : Option β)) = l.map fun a => (a, none) := by
  induction l with
  | nil => rfl
  | cons a l ih => rw [List.length_cons, List.replicate_succ, List.zip_cons_cons, ih, List.map_cons]

omit [HexCrate] in
theorem framesOf_none {startHeight : ℕ} {hashes : List BlockHashBytes} {blocks : List Bytes}
    (hlen : blocks.length = hashes.length) :
    ((hashes.zip blocks).zipIdx.map fun item =>
        ({ height := startHeight + item.2, hash := item.1.1, bytes := item.1.2,
           spentTxouts := none } : RawBlockFrame)) =
      framesOf startHeight hashes blocks (List.replicate hashes.length none) := by
  have hzip : (hashes.zip blocks).length = hashes.length := by
    rw [List.length_zip, hlen, Nat.min_self]
  rw [framesOf, ← hzip, zip_none, List.zipIdx_map, List.map_map]
  rfl

/-- The batched requests agree with the default methods. -/
theorem rpc_range_exact (ha : rpc.Answers answer) (hd : DisplaysHashes answer) (hhex : DecodesHex)
    {hashIds blockIds : BitcoinRpc.BatchIds} {count : ℕ} (hhashIds : Set.InjOn hashIds {k | k < count})
    (hblockIds : Set.InjOn blockIds {k | k < count}) (id : UInt64) (startHeight : ℕ) :
    (rpc.getBlockRangeByHeight hashIds blockIds startHeight count).toOption =
      (defaultGetBlockRangeByHeight (defaultGetBlockByHeight
        (fun height => orFailed (rpc.getBlockHash id height))
        (fun hash => orFailed (rpc.getBlockRaw id hash)) fun _ => .ok none) startHeight count).toOption := by
  refine Option.ext fun frames => ?_
  rw [toOption_eq_some, toOption_eq_some, range_mapM_iff, rounds_iff]
  unfold BitcoinRpc.getBlockRangeByHeight
  simp only [bind_eq_ok, ha.hashes_eq_ok hhashIds, ensure_eq_ok, pure_eq_ok, Except.ok.injEq]
  refine ⟨?_, ?_⟩
  · rintro ⟨texts, ⟨hfit, htexts⟩, hashes, hhashes, blocks, hblocks, _, hlen, hframes⟩
    have hcount := htexts.length_eq
    rw [List.length_range'] at hcount
    obtain rfl := hd.texts_eq hhex htexts hhashes
    rw [List.length_map] at hcount
    rw [framesOf_none hlen] at hframes
    obtain ⟨hheights, rfl, rfl, hundo⟩ := (framesOf_eq_iff hlen (by simp)).mp hframes
    refine ⟨hfit, by rw [hheights, hcount], ?_, ?_, ?_⟩
    · simpa only [mapM_eq_ok, orFailed_eq_ok, ha.getBlockHash_eq_ok hd hhex,
        List.forall₂_map_right_iff] using htexts
    · exact (ha.raw_iff (by rwa [← hcount]) id).mpr hblocks
    · exact none_mapM_iff.mpr hundo
  · rintro ⟨hfit, hheights, hhashes, hblocks, hundo⟩
    have htexts : List.Forall₂ (fun height text => answer "getblockhash" (.height height) = .ok text)
        (List.range' startHeight count) ((frames.map (·.hash)).map displayHash) := by
      simpa only [mapM_eq_ok, orFailed_eq_ok, ha.getBlockHash_eq_ok hd hhex,
        List.forall₂_map_right_iff] using hhashes
    have hcount := htexts.length_eq
    rw [List.length_range', List.length_map] at hcount
    refine ⟨_, ⟨hfit, htexts⟩, frames.map (·.hash), ?_, frames.map (·.bytes),
      (ha.raw_iff (by rwa [← hcount]) id).mp hblocks, (), by simp, ?_⟩
    · rw [mapM_eq_ok, List.forall₂_map_left_iff, List.forall₂_same]
      exact fun hash _ => hhex.hashOfDisplay_displayHash hash
    · rw [framesOf_none (by simp)]
      exact (framesOf_eq_iff (by simp) (by simp)).mpr
        ⟨by rw [hheights, hcount], rfl, rfl, none_mapM_iff.mp hundo⟩

end

/-! ## A node -/

def sampleAnswer (method : String) : RpcParams → Except RpcErr String
  | .height height =>
    if method = "getblockhash" ∧ height = 100 then .ok (displayHash firstHash)
    else if method = "getblockhash" ∧ height = 101 then .ok (displayHash secondHash)
    else .error ⟨-8, "Block height out of range"⟩
  | .block hashHex =>
    if method = "getblock" ∧ hashHex = displayHash firstHash then .ok (String.ofList (hexEncode firstBytes))
    else if method = "getblock" ∧ hashHex = displayHash secondHash then
      .ok (String.ofList (hexEncode secondBytes))
    else .error ⟨-5, "Block not found"⟩

/-- Batches are answered from their last request to their first. -/
def sampleRpc : BitcoinRpc where
  post request := .ok (Resp.of (sampleAnswer request.method request.params))
  postBatch requests := .ok (requests.map fun request =>
    BatchResp.of request.id (sampleAnswer request.method request.params)).reverse

theorem sampleRpc_answers : sampleRpc.Answers sampleAnswer where
  single _ _ _ := rfl
  batch _ _ _ := ⟨_, rfl, List.reverse_perm _⟩

theorem sampleAnswer_displays : DisplaysHashes sampleAnswer := by
  intro height text h
  dsimp only [sampleAnswer] at h
  split_ifs at h
  · exact ⟨firstHash, (Except.ok.inj h).symm⟩
  · exact ⟨secondHash, (Except.ok.inj h).symm⟩

/-- The counter behind the ids, from one of its values on. -/
def idsFrom (start : UInt32) : BitcoinRpc.BatchIds := fun k => UInt64.ofNat (start.toNat + k)

theorem injOn_idsFrom (start : UInt32) {count : ℕ} (hcount : count ≤ U32_MAX) :
    Set.InjOn (idsFrom start) {k | k < count} := by
  intro i hi j hj h
  have hstart := start.toNat_lt
  have hi : i < count := hi
  have hj : j < count := hj
  rw [U32_MAX] at hcount
  have h := congrArg UInt64.toNat h
  rw [idsFrom, idsFrom, UInt64.toNat_ofNat_of_lt' (lt_of_lt_of_le (show _ < 2 ^ 33 by omega) (by decide)),
    UInt64.toNat_ofNat_of_lt' (lt_of_lt_of_le (show _ < 2 ^ 33 by omega) (by decide))] at h
  omega

section
attribute [local instance] sampleHexCrate

theorem rpc_range_sample :
    (sampleRpc.getBlockRangeByHeight (idsFrom 1) (idsFrom 9) 100 2).toOption =
      (defaultGetBlockRangeByHeight (defaultGetBlockByHeight
        (fun height => orFailed (sampleRpc.getBlockHash 20 height))
        (fun hash => orFailed (sampleRpc.getBlockRaw 20 hash)) fun _ => .ok none) 100 2).toOption :=
  rpc_range_exact sampleRpc_answers sampleAnswer_displays sampleHexCrate_decodes
    (injOn_idsFrom 1 (by decide)) (injOn_idsFrom 9 (by decide)) 20 100

end

end BitcoinData
