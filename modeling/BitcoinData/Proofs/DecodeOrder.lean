import BitcoinData.Sanity.NodeSample
import BitcoinData.Sanity.Window

/-! The order in which the decoders of a chunk are ready does not matter, whatever the sources
answer. Blocks of one height would be left in the order in which they were ready, but such a chunk
is not accepted: the heights of an accepted chunk are consecutive. -/

namespace BitcoinData

open Lib

section
variable [BitcoinCrate] [ScanPointCrypto]

theorem decodeFrames_perm {schedule schedule' : DecodeSchedule} {frames : List RawBlockFrame}
    (h : (schedule frames).Perm (schedule' frames)) :
    (∃ blocks blocks', decodeFrames schedule frames = .ok blocks ∧
      decodeFrames schedule' frames = .ok blocks' ∧ blocks.Perm blocks' ∧
        ((blocks.map (·.height)).Nodup → blocks = blocks')) ∨
      ∃ e e', decodeFrames schedule frames = .error e ∧ decodeFrames schedule' frames = .error e' := by
  unfold decodeFrames
  rcases mapM_perm (f := decodeFrame) h with ⟨bs, bs', hbs, hbs', hperm⟩ | ⟨e, e', he, he'⟩
  · refine .inl ⟨_, _, by rw [hbs]; rfl, by rw [hbs']; rfl, ?_, ?_⟩
    · exact (List.perm_insertionSort _ _).trans (hperm.trans (List.perm_insertionSort _ _).symm)
    · intro hnodup
      have hkey := ((List.perm_insertionSort _ bs).map (·.height)).nodup_iff.mp hnodup
      exact insertionSort_of_perm hperm hkey
  · exact .inr ⟨e, e', by rw [he]; rfl, by rw [he']; rfl⟩

variable [Externals] {emitStartHeight : ℕ} {indexStore : RocksIndexStore} {source undoSource : BlockSource}
  {schedule schedule' : ChunkSchedule}

omit [BitcoinCrate] [ScanPointCrypto] in
theorem processChunk_nodup {cs cs' : ChunkState} {chunk : DecodedChunk}
    (h : processChunk emitStartHeight indexStore cs chunk = .ok cs') :
    (chunk.blocks.map (·.height)).Nodup := by
  unfold processChunk at h
  rw [bind_eq_ok] at h
  obtain ⟨_, hvalid, -⟩ := h
  rw [(validateDecodedChunk_ok hvalid).2.1]
  exact List.nodup_range'

omit [BitcoinCrate] [ScanPointCrypto] in
theorem processChunk_refused {cs : ChunkState} {chunk : DecodedChunk}
    (h : ¬ (chunk.blocks.map (·.height)).Nodup) :
    (processChunk emitStartHeight indexStore cs chunk).toOption = none := by
  cases hp : processChunk emitStartHeight indexStore cs chunk with
  | error e => rfl
  | ok cs' => exact absurd (processChunk_nodup hp) h

theorem processChunk_order (hs : schedule.Possible) (hs' : schedule'.Possible) (cs : ChunkState)
    (start : ℕ) {count : ℕ} (hcount : 0 < count) :
    (chunkFetcher source undoSource schedule start count >>=
        processChunk emitStartHeight indexStore cs).toOption =
      (chunkFetcher source undoSource schedule' start count >>=
        processChunk emitStartHeight indexStore cs).toOption := by
  unfold chunkFetcher fetchAndDecodeChunk
  cases (fetchFrames source undoSource start count).mapError DecodeFault.message with
  | error e => rfl
  | ok frames =>
    simp only [ok_bind]
    have hperm : (schedule start count frames).Perm (schedule' start count frames) :=
      (hs start count hcount frames).perm.trans (hs' start count hcount frames).perm.symm
    rcases decodeFrames_perm hperm with ⟨blocks, blocks', hb, hb', hblocks, heq⟩ | ⟨e, e', he, he'⟩
    · rw [hb, hb']
      simp only [ok_bind, pure_eq_ok]
      by_cases hnodup : (blocks.map (·.height)).Nodup
      · rw [heq hnodup]
      · -- blocks of one height: both orders are refused
        have hnodup' := mt (hblocks.map (·.height)).nodup_iff.mpr hnodup
        rw [processChunk_refused (by exact hnodup), processChunk_refused (by exact hnodup')]
    · rw [he, he']
      rfl

theorem chunkLoop_order (hs : schedule.Possible) (hs' : schedule'.Possible) (config : CatchUpConfig)
    (flushEndHeight fuel : ℕ) (cs : ChunkState) :
    (chunkLoop emitStartHeight config indexStore (chunkFetcher source undoSource schedule)
        flushEndHeight fuel cs).toOption =
      (chunkLoop emitStartHeight config indexStore (chunkFetcher source undoSource schedule')
        flushEndHeight fuel cs).toOption := by
  induction fuel generalizing cs with
  | zero => rfl
  | succ fuel ih =>
    unfold chunkLoop
    split
    · have hbatch := config.fetchBatchSize_pos
      rw [← bind_assoc, ← bind_assoc]
      refine toOption_bind_congr (processChunk_order hs hs' cs _ (by omega)) fun cs' => ?_
      split
      · rfl
      · exact ih cs'
    · rfl

theorem catchUpWindow_order (hs : schedule.Possible) (hs' : schedule'.Possible) (config : CatchUpConfig)
    (state : P2trIndexerState) (startHeight finalizedTip : ℕ) :
    (catchUpWindow emitStartHeight config indexStore (chunkFetcher source undoSource schedule) state
        startHeight finalizedTip).toOption =
      (catchUpWindow emitStartHeight config indexStore (chunkFetcher source undoSource schedule') state
        startHeight finalizedTip).toOption := by
  unfold catchUpWindow
  exact toOption_bind_congr (chunkLoop_order hs hs' config _ _ _) fun _ => rfl

omit [BitcoinCrate] [ScanPointCrypto] in
/-- Which error a window ends with does not matter: the process is gone. -/
theorem step_catchUp_congr {config : IndexerConfig} {tuning : CatchUpConfig} {bestHeight : ℕ}
    {fetch fetch' : FetchChunk} {sys : System}
    (h : ∀ state startHeight finalizedTip,
      (catchUpWindow config.emitStartHeight tuning sys.disk.indexStore fetch state startHeight
          finalizedTip).toOption =
        (catchUpWindow config.emitStartHeight tuning sys.disk.indexStore fetch' state startHeight
          finalizedTip).toOption) :
    BitcoinData.step config sys (.catchUp tuning bestHeight fetch) =
      BitcoinData.step config sys (.catchUp tuning bestHeight fetch') := by
  simp only [BitcoinData.step]
  split
  · rename_i state chainNextHeight _
    have horder := h state chainNextHeight (bestHeight - config.finalityDepth)
    split
    · cases hw : catchUpWindow config.emitStartHeight tuning sys.disk.indexStore fetch state
          chainNextHeight (bestHeight - config.finalityDepth) with
      | ok window =>
        rw [hw] at horder
        rw [toOption_eq_some.mp horder.symm]
      | error e =>
        rw [hw] at horder
        cases hw' : catchUpWindow config.emitStartHeight tuning sys.disk.indexStore fetch' state
            chainNextHeight (bestHeight - config.finalityDepth) with
        | ok window =>
          rw [hw'] at horder
          cases horder
        | error e' => rfl
    · rfl
  · rfl

theorem SameUpToOrder.step {action action' : Action} (h : SameUpToOrder action action')
    (config : IndexerConfig) (sys : System) :
    BitcoinData.step config sys action = BitcoinData.step config sys action' := by
  cases h with
  | same => rfl
  | catchUp tuning bestHeight source undoSource schedule schedule' hs hs' =>
    exact step_catchUp_congr fun state startHeight finalizedTip =>
      catchUpWindow_order hs hs' tuning state startHeight finalizedTip

/-- Two runs that differ in the order in which decoders are ready end in the same state. -/
theorem decode_order_irrelevant (config : IndexerConfig) {acts acts' : List Action}
    (h : List.Forall₂ SameUpToOrder acts acts') (sys : System) :
    run (BitcoinData.step config) sys acts = run (BitcoinData.step config) sys acts' := by
  induction h generalizing sys with
  | nil => rfl
  | cons hact _ ih =>
    rw [run_cons, run_cons, hact.step config sys]
    cases BitcoinData.step config sys _ with
    | none => rfl
    | some next => exact ih next

end

/-! One window over a node's two blocks, with the decoders ready in either order. -/

section
attribute [local instance] sampleHexCrate sampleBitcoinCrate sampleCrypto sampleExternals

def nodeWindow (schedule : ChunkSchedule) : List Action :=
  [.start, .catchUp sampleTuning 102 (chunkFetcher (sampleRestSource.toBlockSource plainRest)
    (sampleRestSource.toBlockSource plainRest) schedule), .effect]

theorem decode_order_sample : run (step sampleConfig) System.init (nodeWindow plainChunks) =
    run (step sampleConfig) System.init (nodeWindow swappedChunks) :=
  decode_order_irrelevant sampleConfig (.cons (.same _) (.cons
    (.catchUp _ _ _ _ _ _ plainChunks_possible swappedChunks_possible) (.cons (.same _) .nil))) System.init

end

end BitcoinData
