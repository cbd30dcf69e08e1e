import BitcoinData.Proofs.Advance
import BitcoinData.Proofs.DecodeOrder
import BitcoinData.Proofs.Finality
import BitcoinData.Sanity.Decode
import BitcoinData.Sanity.NodeSample

/-! The chain of an honest node is served to the indexer. Frames with and without undo data are
completed and decoded to the same blocks, in whatever order the decoders are ready; the blocks can
be indexed; and the requests of a running indexer are those that the node answers. -/

namespace BitcoinData

open Lib

section
variable [BitcoinCrate] [ScanPointCrypto] {startHeight : ℕ} {chain : List NodeBlock}
  {decoded : List BlockScanInput} {source undoSource : BlockSource}

/-! ## The decoded chain -/

theorem NodeChain.length_eq (hn : NodeChain startHeight chain decoded) :
    chain.length = decoded.length := by
  have hlen := (mapM_eq_ok.mp hn.decode).length_eq
  rwa [List.length_zipIdx] at hlen

theorem NodeChain.decoded_get (hn : NodeChain startHeight chain decoded) {k : ℕ} {scan : BlockScanInput}
    (hk : decoded[k]? = some scan) : ∃ b ∈ chain, chain[k]? = some b ∧
      decodeBlockFrame (startHeight + k) b.block.blockHash b.bytes (some b.undo) = .ok scan := by
  obtain ⟨pair, hpair, hscan⟩ := forall₂_getElem? (mapM_eq_ok.mp hn.decode) hk
  rw [List.getElem?_zipIdx, Option.map_eq_some_iff] at hpair
  obtain ⟨b, hb, rfl⟩ := hpair
  exact ⟨b, List.mem_of_getElem? hb, hb, hscan⟩

theorem NodeChain.indexable (hn : NodeChain startHeight chain decoded) :
    IndexableChain startHeight decoded where
  valid := hn.valid
  linked k a b ha hb := by
    obtain ⟨na, hna, hka, hda⟩ := hn.decoded_get ha
    obtain ⟨nb, hnb, hkb, hdb⟩ := hn.decoded_get hb
    obtain ⟨-, hhash, -⟩ := decodeBlockFrame_eq_ok (hn.deserialize na hna) hda
    obtain ⟨-, -, hprevious, -⟩ := decodeBlockFrame_eq_ok (hn.deserialize nb hnb) hdb
    rw [hprevious, hhash]
    exact hn.linked k na nb hka hkb
  heights := hn.length_eq ▸ hn.heights
  blocks scan hscan := by
    obtain ⟨k, hk⟩ := List.mem_iff_getElem?.mp hscan
    obtain ⟨b, hb, -, hd⟩ := hn.decoded_get hk
    exact (hn.fits b hb).scanned (hn.deserialize b hb) hd

/-! ## One chunk -/

omit [BitcoinCrate] [ScanPointCrypto] in
theorem ServesFrames.fetchFrames_ok (hs : ServesFrames startHeight chain source undoSource)
    {first count : ℕ} (hstart : startHeight ≤ first) (hcount : 0 < count)
    (hend : first + count ≤ startHeight + chain.length) :
    fetchFrames source undoSource first count =
      .ok ((((chain.drop (first - startHeight)).take count).zipIdx first).map fullFrame) := by
  obtain ⟨frames, hframes, hof⟩ := hs.range first count hstart hcount hend
  obtain ⟨missing, hsub, hhashes, hattach⟩ := attachUndo_full hof
  have hlen := hof.length_eq
  rw [List.length_zipIdx, List.length_take, List.length_drop] at hlen
  have hne : frames ≠ [] := List.ne_nil_of_length_pos (by omega)
  have hcounts := congrArg List.length hhashes
  rw [List.length_map, List.length_map] at hcounts
  unfold fetchFrames
  rw [hframes, ok_bind, ensure_of hne]
  simp only [orFailed, ok_bind]
  split_ifs with hmissing
  · rw [hmissing, List.map_nil, List.zip_nil_left] at hattach
    rw [pure_eq_ok, ← hattach]
    rfl
  · have hsome : missing ≠ [] := by
      rintro rfl
      exact hmissing (List.length_eq_zero_iff.mp hcounts)
    have hchain : missing ⊆ chain := fun b hb =>
      List.mem_of_mem_drop (List.mem_of_mem_take (hsub hb))
    rw [hhashes, hs.undo missing hsome hchain, ok_bind, ensure_of (by rw [List.length_map, hcounts]),
      ok_bind, pure_eq_ok, hattach]

theorem NodeChain.decode_slice (hn : NodeChain startHeight chain decoded) {first : ℕ}
    (hstart : startHeight ≤ first) (count : ℕ) :
    ((((chain.drop (first - startHeight)).take count).zipIdx first).map fullFrame).mapM decodeFrame =
      .ok ((decoded.drop (first - startHeight)).take count) := by
  have hslice := List.forall₂_take count (List.forall₂_drop (first - startHeight) (mapM_eq_ok.mp hn.decode))
  rw [zipIdx_drop, zipIdx_take, Nat.add_sub_cancel' hstart] at hslice
  rw [mapM_eq_ok, List.forall₂_map_left_iff]
  exact hslice

theorem NodeChain.slice_heights (hn : NodeChain startHeight chain decoded) (k count : ℕ) :
    (((decoded.drop k).take count).map (·.height)).Pairwise (· < ·) := by
  have hsorted : (decoded.map (·.height)).Pairwise (· < ·) := by
    rw [hn.valid.heights]
    exact List.pairwise_lt_range'
  exact hsorted.sublist (((List.take_sublist _ _).trans (List.drop_sublist _ _)).map _)

theorem NodeChain.decode_ok (hn : NodeChain startHeight chain decoded) {schedule : DecodeSchedule}
    {first count : ℕ} (hp : schedule.Possible count) (hstart : startHeight ≤ first) :
    decodeFrames schedule ((((chain.drop (first - startHeight)).take count).zipIdx first).map fullFrame) =
      .ok ((decoded.drop (first - startHeight)).take count) := by
  have hperm := (hp ((((chain.drop (first - startHeight)).take count).zipIdx first).map fullFrame)).perm
  rw [List.nil_append] at hperm
  have hsorted := hn.slice_heights (first - startHeight) count
  have hseq := hn.decode_slice hstart count
  rcases mapM_perm (f := decodeFrame) hperm with ⟨blocks, slice, hblocks, hslice, hblocksPerm⟩ | ⟨e, e', -, he⟩
  · obtain rfl := Except.ok.inj (hseq.symm.trans hslice)
    have hnodup : (blocks.map (·.height)).Nodup :=
      (hblocksPerm.map _).nodup_iff.mpr (hsorted.imp fun h => h.ne)
    have hpairwise : ((decoded.drop (first - startHeight)).take count).Pairwise fun a b =>
        a.height ≤ b.height := by
      rw [List.pairwise_map] at hsorted
      exact hsorted.imp fun h => h.le
    rw [decodeFrames, hblocks, ok_bind, insertionSort_of_perm hblocksPerm hnodup,
      hpairwise.insertionSort_eq, pure_eq_ok]
  · cases hseq.symm.trans he

theorem NodeChain.fetch_ok (hn : NodeChain startHeight chain decoded)
    (hs : ServesFrames startHeight chain source undoSource) {schedule : ChunkSchedule}
    (hp : schedule.Possible) {first count : ℕ} (hstart : startHeight ≤ first) (hcount : 0 < count)
    (hend : first + count ≤ startHeight + chain.length) :
    ∃ rawBytes, chunkFetcher source undoSource schedule first count =
      .ok { blocks := (decoded.drop (first - startHeight)).take count, rawBytes } := by
  have hdecode := hn.decode_ok (hp first count hcount) hstart
  unfold chunkFetcher fetchAndDecodeChunk
  rw [hs.fetchFrames_ok hstart hcount hend]
  simp only [Except.mapError, ok_bind, hdecode, pure_eq_ok]
  exact ⟨_, rfl⟩

/-! ## A source for the indexer -/

theorem NodeChain.serves (hn : NodeChain startHeight chain decoded)
    (hs : ServesFrames startHeight chain source undoSource) {schedule : ChunkSchedule}
    (hp : schedule.Possible) :
    BitcoinData.Serves startHeight decoded (askedFrom startHeight (chunkFetcher source undoSource schedule)) where
  honest first count chunk h := by
    unfold askedFrom at h
    split_ifs at h with hasked
    by_cases hend : first + count ≤ startHeight + chain.length
    · obtain ⟨rawBytes, hfetch⟩ := hn.fetch_ok hs hp hasked.1 hasked.2 hend
      obtain rfl := Except.ok.inj (hfetch.symm.trans h)
      exact ((List.take_prefix _ _).isInfix).trans (List.drop_suffix _ _).isInfix
    · obtain ⟨e, he⟩ := hs.beyond first count hasked.1 hasked.2 (by omega)
      simp only [chunkFetcher, fetchAndDecodeChunk, fetchFrames, he] at h
      cases h
  answers first count hstart hcount hend := by
    rw [← hn.length_eq] at hend
    unfold askedFrom
    rw [if_pos ⟨hstart, hcount⟩]
    exact hn.fetch_ok hs hp hstart hcount hend

end

/-! ## What is asked for -/

section
variable [Externals] {startHeight : ℕ} {config : CatchUpConfig} {db : RocksIndexStore} {fetch : FetchChunk}

/-- Chunks only go up from the first height, and are never empty. -/
theorem chunkLoop_asked {emitStartHeight flushEndHeight : ℕ} (fuel : ℕ) {cs : ChunkState}
    (hstart : startHeight ≤ cs.chunkStart) :
    chunkLoop emitStartHeight config db (askedFrom startHeight fetch) flushEndHeight fuel cs =
      chunkLoop emitStartHeight config db fetch flushEndHeight fuel cs := by
  induction fuel generalizing cs with
  | zero => rfl
  | succ fuel ih =>
    have hbatch := config.fetchBatchSize_pos
    unfold chunkLoop
    split_ifs with hmore
    · have hask : askedFrom startHeight fetch cs.chunkStart
            (min (flushEndHeight - cs.chunkStart + 1) config.fetchBatchSize) =
          fetch cs.chunkStart (min (flushEndHeight - cs.chunkStart + 1) config.fetchBatchSize) :=
        if_pos ⟨hstart, by omega⟩
      simp only [hask]
      cases fetch cs.chunkStart (min (flushEndHeight - cs.chunkStart + 1) config.fetchBatchSize) with
      | error e => rfl
      | ok chunk =>
        simp only [ok_bind]
        cases hprocess : processChunk emitStartHeight db cs chunk with
        | error e => rfl
        | ok cs' =>
          have hnext := (processChunk_start hprocess).1
          simp only [ok_bind]
          split_ifs
          · rfl
          · exact ih (by omega)
    · rfl

theorem catchUpWindow_asked {emitStartHeight : ℕ} {state : P2trIndexerState} {first finalizedTip : ℕ}
    (hstart : startHeight ≤ first) :
    catchUpWindow emitStartHeight config db (askedFrom startHeight fetch) state first finalizedTip =
      catchUpWindow emitStartHeight config db fetch state first finalizedTip := by
  unfold catchUpWindow
  simp only
  rw [chunkLoop_asked]
  exact hstart

/-- A running indexer asks for heights from the start height on. -/
theorem step_asked {config : IndexerConfig} {sys : System} (hreach : Reachable config sys)
    (tuning : CatchUpConfig) (bestHeight : ℕ) (fetch : FetchChunk) :
    step config sys (.catchUp tuning bestHeight (askedFrom config.emitStartHeight fetch)) =
      step config sys (.catchUp tuning bestHeight fetch) := by
  have hbase := base_of_reachable hreach
  obtain ⟨disk, process⟩ := sys
  cases process with
  | none => rfl
  | some process =>
    obtain ⟨state, chainNextHeight, stage⟩ := process
    cases stage with
    | idle =>
      have hnext : chainNextHeight = nextHeight config disk.indexStore := hbase.stage _ rfl
      have hemit : config.emitStartHeight ≤ chainNextHeight := hnext ▸ hbase.files.emit
      simp only [step, catchUpWindow_asked hemit]
    | writing => rfl
    | marking => rfl
    | truncating => rfl
    | finishing => rfl

theorem Reachable.next {config : IndexerConfig} {sys sys' : System} {action : Action}
    (h : Reachable config sys) (hstep : step config sys action = some sys') : Reachable config sys' := by
  obtain ⟨acts, hrun⟩ := h
  refine ⟨acts ++ [action], ?_⟩
  rw [run, List.foldlM_append]
  change (run (step config) System.init acts >>= fun sys => run (step config) sys [action]) = _
  rw [hrun]
  exact run_cons_eq_some.mpr ⟨sys', hstep, rfl⟩

theorem run_asked {config : IndexerConfig} (acts : List Action) {sys : System}
    (hreach : Reachable config sys) :
    run (step config) sys (acts.map (Action.asked config.emitStartHeight)) = run (step config) sys acts := by
  induction acts generalizing sys with
  | nil => rfl
  | cons action acts ih =>
    have hsame : step config sys (action.asked config.emitStartHeight) = step config sys action := by
      cases action with
      | catchUp tuning bestHeight fetch => exact step_asked hreach tuning bestHeight fetch
      | start => rfl
      | effect => rfl
      | crash => rfl
    rw [List.map_cons, run_cons, run_cons, hsame]
    cases hstep : step config sys action with
    | none => rfl
    | some next => exact ih (hreach.next hstep)

variable [BitcoinCrate] [ScanPointCrypto]

/-- Runs over the answers of honest nodes are runs over the decoded chain, which can be indexed. -/
theorem node_runs {config : IndexerConfig} {chain : List NodeBlock} {decoded : List BlockScanInput}
    (hn : NodeChain config.emitStartHeight chain decoded) {acts : List Action}
    (hacts : ∀ tuning bestHeight fetch, Action.catchUp tuning bestHeight fetch ∈ acts →
      AttachedFetch config.emitStartHeight chain fetch) :
    IndexableChain config.emitStartHeight decoded ∧
      (∀ tuning bestHeight fetch,
        Action.catchUp tuning bestHeight fetch ∈ acts.map (Action.asked config.emitStartHeight) →
          Serves config.emitStartHeight decoded fetch) ∧
      run (step config) System.init (acts.map (Action.asked config.emitStartHeight)) =
        run (step config) System.init acts := by
  refine ⟨hn.indexable, ?_, run_asked acts ⟨[], rfl⟩⟩
  intro tuning bestHeight fetch hmem
  obtain ⟨action, hin, heq⟩ := List.mem_map.mp hmem
  cases action with
  | catchUp tuning' bestHeight' fetch' =>
    obtain ⟨source, undoSource, schedule, hs, hp, rfl⟩ := hacts tuning' bestHeight' fetch' hin
    obtain ⟨-, -, rfl⟩ := Action.catchUp.inj heq
    exact hn.serves hs hp
  | start => cases heq
  | effect => cases heq
  | crash => cases heq

end

/-! A window and a crash, over a source without undo data. -/

section
attribute [local instance] sampleBitcoinCrate sampleCrypto sampleExternals

def nodeActions (schedule : ChunkSchedule) : List Action :=
  [.start, .catchUp sampleTuning 102 (chunkFetcher sampleRawSource sampleRawSource schedule), .effect,
    .crash, .start]

theorem node_runs_sample : IndexableChain 100 sampleDecoded ∧
    (∀ tuning bestHeight fetch,
      Action.catchUp tuning bestHeight fetch ∈ (nodeActions swappedChunks).map (Action.asked 100) →
        Serves 100 sampleDecoded fetch) ∧
    run (step sampleConfig) System.init ((nodeActions swappedChunks).map (Action.asked 100)) =
      run (step sampleConfig) System.init (nodeActions swappedChunks) := by
  refine node_runs (show NodeChain sampleConfig.emitStartHeight sampleNodeChain sampleDecoded from
    sampleNodeChain_chain) ?_
  intro tuning bestHeight fetch hmem
  simp only [nodeActions, List.mem_cons, reduceCtorEq, Action.catchUp.injEq, List.not_mem_nil, or_false,
    false_or] at hmem
  obtain ⟨-, -, rfl⟩ := hmem
  exact ⟨_, _, _, sampleRawSource_serves, swappedChunks_possible, rfl⟩

end

end BitcoinData
