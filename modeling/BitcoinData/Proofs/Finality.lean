import BitcoinData.Sanity.Sample
import BitcoinData.Sanity.Stages
import BitcoinData.Sanity.Stats.Sample
import BitcoinData.Sanity.Stats.Serving

/-! The finality depth. Both programs subtract it from the best height with saturation, so on
a chain shorter than the depth the last finalized height is 0 and not none at all. -/

namespace BitcoinData

open Lib

/-! ## The light indexer -/

/-- The source returns at most as many blocks as it is asked for. -/
def BoundedFetch (fetch : FetchChunk) : Prop :=
  ∀ start count chunk, fetch start count = .ok chunk → chunk.blocks.length ≤ count

section
variable [Externals]

theorem processChunk_start {emitStartHeight : ℕ} {db : RocksIndexStore} {cs cs' : ChunkState}
    {chunk : DecodedChunk} (h : processChunk emitStartHeight db cs chunk = .ok cs') :
    cs'.chunkStart = cs.chunkStart + chunk.blocks.length ∧
      ∀ b ∈ cs'.lastBlock, cs'.chunkStart = b.1 + 1 := by
  unfold processChunk at h
  simp only [bind_eq_ok, okOr_eq_ok, pure_eq_ok, Except.ok.injEq] at h
  obtain ⟨_, hvalid, chunkLast, hlast, acc, hfold, rfl⟩ := h
  obtain ⟨hne, hheights, -⟩ := validateDecodedChunk_ok hvalid
  have hlastHeight : (chunk.blocks.map (·.height)).getLast? = some chunkLast.height := by
    rw [List.getLast?_map, hlast]
    rfl
  have hpos := List.length_pos_iff.mpr hne
  rw [hheights, List.getLast?_range', if_neg (by omega), Option.some.injEq] at hlastHeight
  refine ⟨?_, ?_⟩
  · dsimp only
    omega
  · intro b hb
    obtain rfl := Option.mem_some_iff.mp hb
    rfl

theorem chunkLoop_bound {emitStartHeight flushEndHeight : ℕ} {config : CatchUpConfig}
    {db : RocksIndexStore} {fetch : FetchChunk} (hfetch : BoundedFetch fetch) (fuel : ℕ) :
    ∀ {cs cs' : ChunkState}, cs.chunkStart ≤ flushEndHeight + 1 →
      (∀ b ∈ cs.lastBlock, cs.chunkStart = b.1 + 1) →
      chunkLoop emitStartHeight config db fetch flushEndHeight fuel cs = .ok cs' →
      ∀ b ∈ cs'.lastBlock, b.1 ≤ flushEndHeight := by
  induction fuel with
  | zero =>
    intro cs cs' hle hlast h b hb
    rw [chunkLoop, Except.ok.injEq] at h
    have := hlast b (h ▸ hb)
    omega
  | succ fuel ih =>
    intro cs cs' hle hlast h b hb
    unfold chunkLoop at h
    split_ifs at h with hmore
    · simp only [bind_eq_ok] at h
      obtain ⟨chunk, hchunk, cs₁, hprocess, h⟩ := h
      obtain ⟨hstart, hlast₁⟩ := processChunk_start hprocess
      have hcount := hfetch _ _ _ hchunk
      have hle₁ : cs₁.chunkStart ≤ flushEndHeight + 1 := by omega
      split_ifs at h with hbudget
      · rw [pure_eq_ok, Except.ok.injEq] at h
        have := hlast₁ b (h ▸ hb)
        omega
      · exact ih hle₁ hlast₁ h b hb
    · rw [Except.ok.injEq] at h
      have := hlast b (h ▸ hb)
      omega

theorem catchUpWindow_lastHeight {emitStartHeight startHeight finalizedTip : ℕ}
    {config : CatchUpConfig} {db : RocksIndexStore} {fetch : FetchChunk} {state : P2trIndexerState}
    {window : Window} (hfetch : BoundedFetch fetch) (hstart : startHeight ≤ finalizedTip)
    (h : catchUpWindow emitStartHeight config db fetch state startHeight finalizedTip = .ok window) :
    window.lastHeight ≤ finalizedTip := by
  unfold catchUpWindow at h
  simp only [bind_eq_ok, okOr_eq_ok, pure_eq_ok, Except.ok.injEq] at h
  obtain ⟨cs, hloop, ⟨lastHeight, lastHash⟩, hlast, rfl⟩ := h
  have hflush := config.flushBlocks_pos
  have hbound := chunkLoop_bound hfetch _ (by dsimp only; omega) (by simp) hloop
    (lastHeight, lastHash) hlast
  dsimp only at hbound ⊢
  omega

/-- A window is final exactly when its blocks can be: the chain is as long as the depth, or
the window does not begin with the genesis block. -/
theorem window_final_iff {config : IndexerConfig} {disk disk' : Disk} {state : P2trIndexerState}
    {next best : ℕ} {tuning : CatchUpConfig} {fetch : FetchChunk} {process : Process}
    {window : Window} {rest : List Pending} (hfetch : BoundedFetch fetch)
    (hreach : Reachable config ⟨disk, some ⟨state, next, .idle⟩⟩)
    (hstep : step config ⟨disk, some ⟨state, next, .idle⟩⟩ (.catchUp tuning best fetch) =
      some ⟨disk', some process⟩)
    (hwindow : process.stage = .writing window rest) :
    (∀ p ∈ window.pending, p.applied.lightBlock.height + config.finalityDepth ≤ best) ↔
      config.finalityDepth ≤ best ∨ 0 < next := by
  have hbase := base_of_reachable hreach
  have hnext : next = nextHeight config disk.indexStore := hbase.stage _ rfl
  simp only [step] at hstep
  split_ifs at hstep with hle
  · cases hcatch : catchUpWindow config.emitStartHeight tuning disk.indexStore fetch state next
        (best - config.finalityDepth) with
    | error e =>
      rw [hcatch] at hstep
      cases hstep
    | ok found =>
      rw [hcatch, Option.some.injEq, System.mk.injEq, Option.some.injEq] at hstep
      obtain ⟨-, rfl⟩ := hstep
      obtain ⟨rfl, -⟩ := Stage.writing.inj hwindow
      have hemit : config.emitStartHeight ≤ next := hnext ▸ hbase.files.emit
      obtain ⟨done, hspec, -⟩ := catchUpWindow_spec hemit hcatch
      have hlast := catchUpWindow_lastHeight hfetch hle hcatch
      obtain ⟨hne, hlen⟩ := hspec.lastHeight_eq
      constructor
      · intro hfinal
        obtain ⟨d, hd, -⟩ := hspec.last_get
        have hp : d.2 ∈ found.pending := hspec.pending ▸ List.mem_map_of_mem hd
        have := hfinal d.2 hp
        omega
      · intro hcond p hp
        obtain ⟨h₁, -, h₃, -⟩ := hspec.pending_height hp
        omega

end

/-! ## The stats scanner -/

namespace Stats

/-- The frames a source returns have the heights it was asked for, in order and not more of
them. -/
structure OrderedSource (source : BlockSource) : Prop where
  block : ∀ height frame, source.getBlockByHeight height = .ok frame → frame.height = height
  range : ∀ start count frames, source.getBlockRangeByHeight start count = .ok frames →
    frames.map (·.height) = List.range' start frames.length ∧ frames.length ≤ count

section

theorem OrderedSource.batch {source : BlockSource} (h : OrderedSource source) {start count : ℕ}
    {batch : List PreparedBlockFrame} (hbatch : fetchAndPrepareBatch source start count = .ok batch) :
    ∀ frame ∈ batch, frame.height < start + count := by
  unfold fetchAndPrepareBatch at hbatch
  split_ifs at hbatch
  · rw [bind_eq_ok] at hbatch
    obtain ⟨frames, hframes, hbatch⟩ := hbatch
    obtain rfl := Except.ok.inj hbatch
    obtain ⟨hheights, hlen⟩ := h.range start count frames hframes
    intro frame hframe
    obtain ⟨raw, hraw, rfl⟩ := List.mem_map.mp hframe
    have hmem : raw.height ∈ frames.map (·.height) := List.mem_map_of_mem hraw
    rw [hheights, List.mem_range'_1] at hmem
    change raw.height < start + count
    omega
  · rw [bind_eq_ok] at hbatch
    obtain ⟨frames, hframes, hbatch⟩ := hbatch
    obtain rfl := Except.ok.inj hbatch
    intro frame hframe
    rw [List.mem_insertionSort] at hframe
    obtain ⟨raw, hraw, rfl⟩ := List.mem_map.mp hframe
    obtain ⟨height, hheight, hfetched⟩ := mem_of_mapM hframes hraw
    have := List.mem_range'_1.mp hheight
    have := h.block height raw hfetched
    change raw.height < start + count
    omega

variable [Sha256] {cfg : ScanConfig}

theorem commitFrames_rows {loop : ScanLoop} {frames : List PreparedBlockFrame} {P : ℕ → Prop}
    (hloop : ∀ row ∈ emittedRows loop.effects, P row.height) (hframes : ∀ frame ∈ frames, P frame.height) :
    ∀ row ∈ emittedRows (commitFrames cfg loop frames).1.effects, P row.height := by
  rw [(commitFrames_run loop frames).1]
  intro row hrow
  rcases List.mem_append.mp hrow with hrow | hrow
  · exact hloop row hrow
  · have hmem := (runBlocks_heights loop.state frames).subset (List.mem_map_of_mem hrow)
    obtain ⟨frame, hframe, heq⟩ := List.mem_map.mp hmem
    exact heq ▸ hframes frame hframe

theorem OrderedSource.scanBatches {source : BlockSource} (h : OrderedSource source) {maxEnd : ℕ}
    (fuel : ℕ) : ∀ (nextHeight : ℕ) (loop : ScanLoop),
      (∀ row ∈ emittedRows loop.effects, row.height ≤ maxEnd) →
      ∀ row ∈ emittedRows (scanBatches source cfg maxEnd fuel nextHeight loop).1.effects,
        row.height ≤ maxEnd := by
  induction fuel with
  | zero => exact fun _ _ hloop => hloop
  | succ fuel ih =>
    intro nextHeight loop hloop
    rw [Stats.scanBatches]
    split_ifs with hnext
    · set count := min (maxEnd - nextHeight + 1) (max cfg.sourceBatchSize 1) with hcount
      cases hbatch : fetchAndPrepareBatch source nextHeight count with
      | error e => simpa only [hbatch] using hloop
      | ok batch =>
        have hframes : ∀ frame ∈ batch, frame.height ≤ maxEnd := by
          intro frame hframe
          have := h.batch hbatch frame hframe
          omega
        have hrows : ∀ row ∈ emittedRows (commitFrames cfg loop batch).1.effects,
            row.height ≤ maxEnd := commitFrames_rows (P := (· ≤ maxEnd)) hloop hframes
        simp only [hbatch]
        rcases hres : commitFrames cfg loop batch with ⟨loop', _ | _⟩
        · rw [hres] at hrows
          exact hrows
        · rw [hres] at hrows
          exact ih _ loop' hrows
    · exact hloop

theorem OrderedSource.scanFrom {source : BlockSource} (h : OrderedSource source) (maxEnd : ℕ)
    (dir : CheckpointDir) (restored : Option StatsCheckpoint) :
    ∀ row ∈ emittedRows (scanFrom source cfg dir maxEnd restored).effects, row.height ≤ maxEnd := by
  have hstart : ∀ row ∈ emittedRows (ScanLoop.start cfg dir restored).effects, row.height ≤ maxEnd := by
    intro row hrow
    cases restored <;> exact absurd hrow List.not_mem_nil
  have hbatches := @OrderedSource.scanBatches _ cfg _ h _ (maxEnd + 1 - scanStart cfg restored)
    (scanStart cfg restored) _ hstart
  unfold Stats.scanFrom
  dsimp only
  split_ifs with hend
  · exact hstart
  · rcases hres : Stats.scanBatches source cfg maxEnd (maxEnd + 1 - scanStart cfg restored)
      (scanStart cfg restored) (ScanLoop.start cfg dir restored) with ⟨loop, _ | _⟩
    · rw [hres] at hbatches
      exact hbatches
    · rw [hres] at hbatches
      dsimp only
      rw [finish_rows]
      exact hbatches

/-- A scan that emits a row has finalized blocks, and stays below the last of them. -/
theorem OrderedSource.rows_le {source : BlockSource} (h : OrderedSource source) {best : ℕ}
    (hbest : source.getBestHeight = .ok best) {dir : CheckpointDir} {row : BlockStats}
    (hrow : row ∈ emittedRows (scan source cfg dir).effects) :
    cfg.start ≤ cfg.safeHeight best ∧ row.height ≤ cfg.safeHeight best := by
  have hne : (scan source cfg dir).effects ≠ [] := by
    intro hnil
    rw [hnil] at hrow
    cases hrow
  obtain ⟨restored, hresume⟩ := resumedFrom_of_effects hne
  obtain ⟨tip, htip, ⟨-, -, hscan⟩ | ⟨hsafe, hscan⟩⟩ := scan_eq hresume
  · exact absurd (by rw [hscan]) hne
  · rw [hbest, Except.ok.injEq] at htip
    subst htip
    rw [hscan] at hrow
    have hle := h.scanFrom _ dir restored row hrow
    refine ⟨hsafe, hle.trans ?_⟩
    exact min_le_right _ _

/-- The same condition decides for a scan that emits anything at all. -/
theorem rows_final_iff {source : BlockSource} (h : OrderedSource source) {best : ℕ}
    (hbest : source.getBestHeight = .ok best) {dir : CheckpointDir}
    (hne : emittedRows (scan source cfg dir).effects ≠ []) :
    (∀ row ∈ emittedRows (scan source cfg dir).effects, row.height + cfg.finalityDepth ≤ best) ↔
      cfg.finalityDepth ≤ best ∨ 0 < cfg.start := by
  have hsafe : cfg.safeHeight best = best - cfg.finalityDepth := rfl
  constructor
  · intro hfinal
    obtain ⟨row, hrow⟩ := List.exists_mem_of_ne_nil _ hne
    have := hfinal row hrow
    omega
  · intro hcond row hrow
    obtain ⟨hstart, hheight⟩ := h.rows_le hbest hrow
    omega

end

end Stats

/-- Unfinal blocks: a window of the light indexer and a scan of the stats scanner process only
blocks that the finality depth allows, exactly when the chain is as long as the depth or they
do not start at height 0. -/
theorem processed_final_iff [Externals] [Stats.Sha256] :
    (∀ (config : IndexerConfig) (disk disk' : Disk) (state : P2trIndexerState) (next best : ℕ)
      (tuning : CatchUpConfig) (fetch : FetchChunk) (process : Process) (window : Window)
      (rest : List Pending), BoundedFetch fetch →
      Reachable config ⟨disk, some ⟨state, next, .idle⟩⟩ →
      step config ⟨disk, some ⟨state, next, .idle⟩⟩ (.catchUp tuning best fetch) =
        some ⟨disk', some process⟩ → process.stage = .writing window rest →
      ((∀ p ∈ window.pending, p.applied.lightBlock.height + config.finalityDepth ≤ best) ↔
        config.finalityDepth ≤ best ∨ 0 < next)) ∧
    (∀ (source : Stats.BlockSource) (cfg : Stats.ScanConfig) (dir : Stats.CheckpointDir) (best : ℕ),
      Stats.OrderedSource source → source.getBestHeight = .ok best →
      Stats.emittedRows (Stats.scan source cfg dir).effects ≠ [] →
      ((∀ row ∈ Stats.emittedRows (Stats.scan source cfg dir).effects,
          row.height + cfg.finalityDepth ≤ best) ↔
        cfg.finalityDepth ≤ best ∨ 0 < cfg.start)) := by
  refine ⟨?_, ?_⟩
  · intro config disk disk' state next best tuning fetch process window rest hfetch hreach hstep hwindow
    exact window_final_iff hfetch hreach hstep hwindow
  · intro source cfg dir best hsource hbest hne
    exact Stats.rows_final_iff hsource hbest hne

section
attribute [local instance] sampleExternals Stats.sampleSha256

theorem sampleSource_ordered (best : ℕ) : Stats.OrderedSource (Stats.sampleChain.source best) where
  block := by
    intro height frame h
    obtain rfl := Except.ok.inj h
    rfl
  range := by
    intro start count frames h
    obtain rfl := Except.ok.inj h
    simp [Function.comp_def, Stats.sampleChain]

theorem sampleFetch_bounded {blocks : List BlockScanInput} (hnd : (blocks.map (·.height)).Nodup) :
    BoundedFetch (sampleFetch blocks) := by
  intro start count chunk h
  obtain rfl := Except.ok.inj h
  have hsub : (blocks.filter fun block => start ≤ block.height ∧ block.height < start + count).map (·.height) ⊆
      List.range' start count := by
    intro height hmem
    obtain ⟨block, hblock, rfl⟩ := List.mem_map.mp hmem
    exact List.mem_range'_1.mpr (of_decide_eq_true (List.mem_filter.mp hblock).2)
  have hle := (((List.filter_sublist.map _).nodup hnd).subperm hsub).length_le
  simpa using hle

def writingHeights (sys : System) : List ℕ :=
  match sys.process with
  | some ⟨_, _, .writing window _⟩ => window.pending.map (·.applied.lightBlock.height)
  | _ => []

/-- A window of the blocks 100 to 102 at best height 103, and a scan of three blocks at best height
10. -/
theorem processed_final_iff_sample :
    (∃ disk state next disk' process window rest,
      run (step sampleConfig) System.init [.start] = some ⟨disk, some ⟨state, next, .idle⟩⟩ ∧
      step sampleConfig ⟨disk, some ⟨state, next, .idle⟩⟩ (sampleCatchUp 103 sampleChain) =
        some ⟨disk', some process⟩ ∧ process.stage = .writing window rest ∧
      window.pending.map (·.applied.lightBlock.height) = [100, 101, 102] ∧
      ((∀ p ∈ window.pending, p.applied.lightBlock.height + sampleConfig.finalityDepth ≤ 103) ↔
        sampleConfig.finalityDepth ≤ 103 ∨ 0 < next)) ∧
    ((∀ row ∈ Stats.emittedRows (Stats.scan (Stats.sampleChain.source 10)
      (Stats.sampleConfig 0 3 0) []).effects, row.height + 6 ≤ 10) ↔ 6 ≤ 10 ∨ 0 < 0) := by
  refine ⟨?_, ?_⟩
  · have hrun : ((startProcess sampleConfig Disk.empty).toOption.any fun started =>
        (step sampleConfig ⟨started.1, some started.2⟩ (sampleCatchUp 103 sampleChain)).any fun sys =>
          writingHeights sys = [100, 101, 102]) = true := by
      decide +kernel
    obtain ⟨⟨disk, process⟩, hstart, hrun⟩ := (Option.any_eq_true _ _).mp hrun
    rw [toOption_eq_some] at hstart
    have hreach : run (step sampleConfig) System.init [.start] = some ⟨disk, some process⟩ := by
      simp only [run_cons, run_nil, step, System.init, hstart, Option.bind_some]
    obtain ⟨⟨disk', found⟩, hstep, hdecide⟩ := (Option.any_eq_true _ _).mp hrun
    have hheights := of_decide_eq_true hdecide
    clear hdecide
    obtain ⟨network, startHeight, -, rfl⟩ := startProcess_eq_ok hstart
    unfold writingHeights at hheights
    split at hheights
    · rename_i state' next' window rest heq
      dsimp only at heq
      subst heq
      exact ⟨disk, _, _, disk', _, window, rest, hreach, hstep, rfl, hheights,
        processed_final_iff.1 sampleConfig disk disk' _ _ 103 sampleTuning (sampleFetch sampleChain) _ window
          rest (sampleFetch_bounded (by decide)) ⟨_, hreach⟩ hstep rfl⟩
    · cases hheights
  · have hne : (Stats.emittedRows (Stats.scan (Stats.sampleChain.source 10)
        (Stats.sampleConfig 0 3 0) []).effects).isEmpty = false := by decide +kernel
    exact processed_final_iff.2 _ (Stats.sampleConfig 0 3 0) [] 10 (sampleSource_ordered 10) rfl
      (by simpa using hne)

def shallowConfig : IndexerConfig := { network := "regtest", emitStartHeight := 0, finalityDepth := 6 }

/-- A chain that has only its genesis block. -/
def genesisActions : List Action := [.start, sampleCatchUp 0 [sampleBlock 0 1 0 [sampleTx 10 0 [] [1]]]]

/-- At best height 0 and finality depth 6, both programs process the genesis block. -/
theorem genesis_processed :
    (∃ sys, run (step shallowConfig) System.init genesisActions = some sys ∧
      ∃ height ∈ writingHeights sys, ¬ height + shallowConfig.finalityDepth ≤ 0) ∧
    ∃ row ∈ Stats.emittedRows (Stats.scan (Stats.sampleChain.source 0)
      (Stats.sampleConfig 0 1 0) []).effects, ¬ row.height + 6 ≤ 0 := by
  refine ⟨?_, ?_⟩
  · have hrun : ((run (step shallowConfig) System.init genesisActions).any fun sys =>
        (writingHeights sys).any fun height => ¬ height + shallowConfig.finalityDepth ≤ 0) = true := by
      decide +kernel
    obtain ⟨sys, hsys, hany⟩ := (Option.any_eq_true _ _).mp hrun
    obtain ⟨height, hmem, hheight⟩ := List.any_eq_true.mp hany
    exact ⟨sys, hsys, height, hmem, of_decide_eq_true hheight⟩
  · have hany : ((Stats.emittedRows (Stats.scan (Stats.sampleChain.source 0)
        (Stats.sampleConfig 0 1 0) []).effects).any fun row => ¬ row.height + 6 ≤ 0) = true := by
      decide +kernel
    obtain ⟨row, hmem, hrow⟩ := List.any_eq_true.mp hany
    exact ⟨row, hmem, of_decide_eq_true hrow⟩

end

end BitcoinData
