import BitcoinData.Sanity.Stats.Trace
import BitcoinData.Spec.Stats.Pipeline

/-! Scans of a chain. With a source that serves it, the batches make no difference: a scan
processes the heights from where it starts to the last finalized one, in order. -/

namespace BitcoinData.Stats

open Lib

/-! ## Heights of a chain -/

theorem preparedBlocks_append (block : ℕ → DecodedBlockFrame) (start m n : ℕ) :
    preparedBlocks block start m ++ preparedBlocks block (start + m) n =
      preparedBlocks block start (m + n) := by
  unfold preparedBlocks
  rw [← List.map_append, List.range'_append_1]

theorem Chain.prepared_append (chain : Chain) (start m n : ℕ) :
    chain.prepared start m ++ chain.prepared (start + m) n = chain.prepared start (m + n) :=
  preparedBlocks_append chain.frame start m n

theorem Chain.length_prepared (chain : Chain) (start n : ℕ) : (chain.prepared start n).length = n := by
  simp [Chain.prepared]

theorem Chain.heights_prepared (chain : Chain) (start n : ℕ) :
    (chain.prepared start n).map (·.height) = List.range' start n := by
  have hid : (fun h => (prepareDecodedBlock (chain.frame h)).height) = id := by
    funext h
    exact chain.height_eq h
  rw [Chain.prepared, List.map_map]
  simp only [Function.comp_def, hid, List.map_id]

theorem Chain.eq_prepared {chain : Chain} {start n : ℕ} {frames : List PreparedBlockFrame}
    (h : frames <+: chain.prepared start n) :
    frames.length ≤ n ∧ frames = chain.prepared start frames.length := by
  have hle : frames.length ≤ n := by simpa [Chain.length_prepared] using h.length_le
  refine ⟨hle, ?_⟩
  rw [List.prefix_iff_eq_take] at h
  nth_rewrite 1 [h]
  unfold Chain.prepared
  rw [← List.map_take, List.take_range'_of_length_ge hle]

theorem Chain.last_prepared {chain : Chain} {start : ℕ} {init : List PreparedBlockFrame}
    {last : PreparedBlockFrame} (h : init ++ [last] = chain.prepared start (init ++ [last]).length) :
    last = prepareDecodedBlock (chain.frame (start + init.length)) := by
  have hget := congrArg (fun l : List PreparedBlockFrame => l[init.length]?) h
  have hlt : init.length < (init ++ [last]).length := by simp
  simp only [List.getElem?_concat_length] at hget
  unfold Chain.prepared at hget
  rw [List.getElem?_map, List.getElem?_range' hlt, Option.map_some, Option.some.injEq] at hget
  rw [hget, Nat.one_mul]

section
variable {source : BlockSource} {chain : Chain} {best : ℕ}

/-! ## Batches -/

theorem Serves.batch (h : Serves source chain best) {start count : ℕ} (hle : start + count ≤ best + 1) :
    fetchAndPrepareBatch source start count = .ok (chain.prepared start count) := by
  unfold fetchAndPrepareBatch
  split_ifs
  · rw [h.range start count hle, ok_bind, pure_eq_ok, List.map_map]
    rfl
  · have hfetch : (List.range' start count).mapM source.getBlockByHeight =
        .ok ((List.range' start count).map chain.frame) := by
      apply mapM_eq_map
      intro height hheight
      apply h.block
      have := List.mem_range'_1.mp hheight
      omega
    rw [hfetch, ok_bind, pure_eq_ok, List.map_map]
    change Except.ok ((chain.prepared start count).insertionSort _) = _
    have hsorted : ((chain.prepared start count).map (·.height)).Pairwise (· ≤ ·) := by
      rw [Chain.heights_prepared]
      exact (List.pairwise_lt_range' (n := count) (s := start)).imp le_of_lt
    rw [List.pairwise_map] at hsorted
    rw [hsorted.insertionSort_eq]

variable [Sha256] {cfg : ScanConfig}

theorem commitFrames_append (loop : ScanLoop) (xs ys : List PreparedBlockFrame) :
    commitFrames cfg loop (xs ++ ys) =
      match commitFrames cfg loop xs with
      | (loop, .ok ()) => commitFrames cfg loop ys
      | (loop, .error e) => (loop, .error e) := by
  induction xs generalizing loop with
  | nil => rfl
  | cons frame xs ih =>
    rw [List.cons_append, commitFrames, commitFrames]
    cases commitFrame cfg loop frame with
    | error e => rfl
    | ok loop' => exact ih loop'

theorem Serves.scanBatches (h : Serves source chain best) {maxEnd : ℕ} (hmax : maxEnd ≤ best)
    (fuel nextHeight : ℕ) (hfuel : maxEnd + 1 - nextHeight ≤ fuel) (loop : ScanLoop) :
    scanBatches source cfg maxEnd fuel nextHeight loop =
      commitFrames cfg loop (chain.prepared nextHeight (maxEnd + 1 - nextHeight)) := by
  induction fuel generalizing nextHeight loop with
  | zero =>
    have hzero : maxEnd + 1 - nextHeight = 0 := by omega
    rw [hzero]
    rfl
  | succ fuel ih =>
    rw [Stats.scanBatches]
    split_ifs with hnext
    · set count := min (maxEnd - nextHeight + 1) (max cfg.sourceBatchSize 1) with hcount
      have hpos : 0 < count := by omega
      have hsplit : maxEnd + 1 - nextHeight = count + (maxEnd + 1 - (nextHeight + count)) := by omega
      rw [hsplit, ← Chain.prepared_append, commitFrames_append]
      have hbatch : fetchAndPrepareBatch source nextHeight count = .ok (chain.prepared nextHeight count) :=
        h.batch (by omega)
      simp only [hbatch]
      rcases hres : commitFrames cfg loop (chain.prepared nextHeight count) with ⟨loop', _ | _⟩
      · rfl
      · exact ih (nextHeight + count) (by omega) loop'
    · have hzero : maxEnd + 1 - nextHeight = 0 := by omega
      rw [hzero]
      rfl

theorem commitFrames_run (loop : ScanLoop) (frames : List PreparedBlockFrame) :
    emittedRows (commitFrames cfg loop frames).1.effects =
        emittedRows loop.effects ++ (runBlocks cfg.utxoHashWindow loop.state frames).1 ∧
      ((commitFrames cfg loop frames).2.map fun _ => (commitFrames cfg loop frames).1.state) =
        (runBlocks cfg.utxoHashWindow loop.state frames).2 := by
  induction frames generalizing loop with
  | nil => simp [commitFrames, runBlocks, Except.map]
  | cons frame frames ih =>
    rw [commitFrames, runBlocks]
    cases hblock : processBlock cfg.utxoHashWindow loop.state frame with
    | error e =>
      rw [commitFrame_error hblock]
      simp [Except.map]
    | ok out =>
      obtain ⟨state, row⟩ := out
      rw [commitFrame_ok hblock]
      obtain ⟨hrows, hstate⟩ := ih (committed cfg loop frame state row)
      refine ⟨?_, hstate⟩
      rw [hrows, committed_rows]
      simp [committed]

omit [Sha256] in
theorem start_rows (dir : CheckpointDir) (restored : Option StatsCheckpoint) :
    emittedRows (ScanLoop.start cfg dir restored).effects = [] := by
  cases restored <;> rfl

theorem commitFrames_outcome (dir : CheckpointDir) (restored : Option StatsCheckpoint)
    (frames : List PreparedBlockFrame) :
    (emittedRows (ScanOutcome.ofLoop cfg
        (commitFrames cfg (ScanLoop.start cfg dir restored) frames)).effects,
      (ScanOutcome.ofLoop cfg (commitFrames cfg (ScanLoop.start cfg dir restored) frames)).result) =
    runBlocks cfg.utxoHashWindow (startState cfg restored) frames := by
  obtain ⟨hrows, hresult⟩ := @commitFrames_run _ cfg (ScanLoop.start cfg dir restored) frames
  rw [start_state, start_rows, List.nil_append] at hrows
  rw [start_state] at hresult
  rcases hres : commitFrames cfg (ScanLoop.start cfg dir restored) frames with ⟨loop, _ | _⟩
  · rw [hres] at hrows hresult
    exact Prod.ext hrows hresult
  · rw [hres] at hrows hresult
    refine Prod.ext ?_ hresult
    rw [← hrows]
    exact finish_rows loop cfg

theorem Serves.scanFrom_run (h : Serves source chain best) {maxEnd : ℕ} (hmax : maxEnd ≤ best)
    (dir : CheckpointDir) (restored : Option StatsCheckpoint) :
    (emittedRows (scanFrom source cfg dir maxEnd restored).effects,
      (scanFrom source cfg dir maxEnd restored).result) =
    runBlocks cfg.utxoHashWindow (startState cfg restored)
      (chain.prepared (scanStart cfg restored) (maxEnd + 1 - scanStart cfg restored)) := by
  have hrun := @commitFrames_outcome _ cfg dir restored
    (chain.prepared (scanStart cfg restored) (maxEnd + 1 - scanStart cfg restored))
  unfold scanFrom
  dsimp only
  split_ifs with hend
  · have hzero : maxEnd + 1 - scanStart cfg restored = 0 := by omega
    rw [hzero, start_rows, start_state]
    rfl
  · rw [h.scanBatches hmax _ _ le_rfl]
    rw [← hrun]
    rcases commitFrames cfg (ScanLoop.start cfg dir restored) (chain.prepared
      (scanStart cfg restored) (maxEnd + 1 - scanStart cfg restored)) with ⟨loop, _ | _⟩
    · rfl
    · rfl

theorem Serves.scanFrom_path (h : Serves source chain best) {maxEnd : ℕ} (hmax : maxEnd ≤ best)
    (dir : CheckpointDir) (restored : Option StatsCheckpoint) :
    ∃ frames state, frames <+: chain.prepared (scanStart cfg restored)
        (maxEnd + 1 - scanStart cfg restored) ∧
      ScanPath cfg (startState cfg restored) frames
        (scanFrom source cfg dir maxEnd restored).effects state := by
  have hstart : OnPath cfg _ [] (ScanLoop.start cfg dir restored) := onPath_start dir restored
  obtain ⟨done, hdone, hpath, -⟩ := hstart.commitFrames
    (chain.prepared (scanStart cfg restored) (maxEnd + 1 - scanStart cfg restored))
  rw [List.nil_append] at hpath
  unfold scanFrom
  dsimp only
  split_ifs with hend
  · exact ⟨[], _, List.nil_prefix, hstart.path⟩
  · rw [h.scanBatches hmax _ _ le_rfl]
    rcases hres : commitFrames cfg (ScanLoop.start cfg dir restored) (chain.prepared
      (scanStart cfg restored) (maxEnd + 1 - scanStart cfg restored)) with ⟨loop, _ | _⟩
    · rw [hres] at hpath
      exact ⟨done, _, hdone, hpath.path⟩
    · rw [hres] at hpath
      exact ⟨done, _, hdone, hpath.finish⟩

theorem Serves.scan_eq (h : Serves source chain best) {dir : CheckpointDir}
    {restored : Option StatsCheckpoint} (hresume : resumedFrom source cfg dir = .ok restored) :
    cfg.safeHeight best < cfg.start ∧ restored = none ∧
        scan source cfg dir = ⟨[], .ok (.new cfg.utxoHashWindow)⟩ ∨
      cfg.start ≤ cfg.safeHeight best ∧
        scan source cfg dir = scanFrom source cfg dir (cfg.maxEnd best) restored := by
  obtain ⟨tipHeight, hbest, hcases⟩ := Stats.scan_eq hresume
  rw [h.bestHeight, Except.ok.injEq] at hbest
  exact hbest ▸ hcases

omit [Sha256] in
theorem maxEnd_le (cfg : ScanConfig) (best : ℕ) : cfg.maxEnd best ≤ best := by
  unfold ScanConfig.maxEnd ScanConfig.safeHeight
  omega

theorem Serves.scan_rows (hserves : Serves source chain best) {dir : CheckpointDir}
    {restored : Option StatsCheckpoint} (hresume : resumedFrom source cfg dir = .ok restored) {before : List ScanEffect}
    (hbefore : before <+: (scan source cfg dir).effects) :
    (emittedRows before).map (·.height) <+:
      List.range' (scanStart cfg restored) (cfg.maxEnd best + 1 - scanStart cfg restored) := by
  refine ((hbefore.filterMap _).map _).trans ?_
  rcases hserves.scan_eq hresume with ⟨-, -, hscan⟩ | ⟨-, hscan⟩
  · rw [hscan]
    exact List.nil_prefix
  · have hrun := congrArg Prod.fst (@Serves.scanFrom_run _ _ _ _ cfg hserves _ (maxEnd_le cfg best) dir restored)
    rw [hscan]
    change (emittedRows _).map _ <+: _
    dsimp only at hrun
    rw [hrun, ← Chain.heights_prepared]
    exact runBlocks_heights _ _

/-! ## Checkpoints of a chain -/

/-- A checkpoint holds the state of a fresh scan from `start` over its height, and `rows` are
the rows of that scan. -/
structure Caught (chain : Chain) (start window : ℕ) (rows : List BlockStats)
    (checkpoint : StatsCheckpoint) : Prop where
  start_le : start ≤ checkpoint.height
  next_eq : checkpoint.nextHeight = checkpoint.height + 1
  window_eq : checkpoint.utxoHashWindow = window
  hash_eq : checkpoint.blockHash = (chain.frame checkpoint.height).hash
  version_eq : checkpoint.statsStateVersion = STATS_STATE_VERSION
  run : runBlocks window (.new window) (chain.prepared start (checkpoint.height + 1 - start)) =
    (rows, .ok checkpoint.scannerState)

/-- What a scan may start from: nothing, or a checkpoint of scans that began at `start`. -/
def CaughtUp (chain : Chain) (cfg : ScanConfig) (start : ℕ) (rows : List BlockStats) :
    Option StatsCheckpoint → Prop
  | none => cfg.start = start ∧ rows = []
  | some checkpoint => Caught chain start cfg.utxoHashWindow rows checkpoint

theorem CaughtUp.run {start : ℕ} {rows : List BlockStats} {restored : Option StatsCheckpoint}
    (h : CaughtUp chain cfg start rows restored) :
    start ≤ scanStart cfg restored ∧
      runBlocks cfg.utxoHashWindow (.new cfg.utxoHashWindow)
        (chain.prepared start (scanStart cfg restored - start)) =
      (rows, .ok (startState cfg restored)) := by
  cases restored with
  | none =>
    have hnone : cfg.start = start ∧ rows = [] := h
    refine ⟨hnone.1.ge, ?_⟩
    rw [hnone.2, scanStart, hnone.1, Nat.sub_self]
    rfl
  | some checkpoint =>
    have hcaught : Caught chain start cfg.utxoHashWindow rows checkpoint := h
    have := hcaught.start_le
    rw [scanStart, hcaught.next_eq]
    exact ⟨by omega, hcaught.run⟩

/-- Every checkpoint of a scan that starts well is a good one. -/
theorem Serves.caught (h : Serves source chain best) {dir : CheckpointDir} {start : ℕ}
    {rows : List BlockStats} {restored : Option StatsCheckpoint} {before : List ScanEffect} {checkpoint : StatsCheckpoint}
    (hstart : CaughtUp chain cfg start rows restored)
    (hresume : resumedFrom source cfg dir = .ok restored)
    (hsaved : before ++ [.saveCheckpoint checkpoint] <+: (scan source cfg dir).effects) :
    Caught chain start cfg.utxoHashWindow (rows ++ emittedRows before) checkpoint ∧
      checkpoint.height ≤ cfg.maxEnd best ∧ scanStart cfg restored ≤ checkpoint.height := by
  rcases h.scan_eq hresume with ⟨-, -, hscan⟩ | ⟨hsafe, hscan⟩
  · rw [hscan] at hsaved
    simp at hsaved
  · rw [hscan] at hsaved
    obtain ⟨frames, state, hframes, hpath⟩ := @Serves.scanFrom_path _ _ _ _ cfg h _ (maxEnd_le cfg best) dir restored
    obtain ⟨frames', state', hshort, hpath'⟩ := hpath.take hsaved
    obtain ⟨init, last, rfl, hbefore, rfl⟩ := hpath'.save_inv
    obtain ⟨hle, hall⟩ := Chain.eq_prepared (hshort.trans hframes)
    have hblock := Chain.last_prepared hall
    have hlast : last.height = scanStart cfg restored + init.length := by
      rw [hblock]
      exact chain.height_eq _
    have hhash : last.hash = (chain.frame last.height).hash := by
      rw [hlast, hblock]
      rfl
    obtain ⟨hlow, hrun⟩ := hstart.run
    rw [List.length_append, List.length_singleton] at hle
    refine ⟨⟨?_, rfl, rfl, hhash, rfl, ?_⟩, ?_, ?_⟩
    · simp only [makeCheckpoint]
      omega
    · have hsplit : last.height + 1 - start =
          (scanStart cfg restored - start) + (init ++ [last]).length := by
        rw [List.length_append, List.length_singleton]
        omega
      have hmid : start + (scanStart cfg restored - start) = scanStart cfg restored := by omega
      simp only [makeCheckpoint]
      rw [hsplit, ← Chain.prepared_append, hmid, ← hall, runBlocks_append, hrun]
      simp only [hbefore.run]
    · simp only [makeCheckpoint]
      omega
    · simp only [makeCheckpoint]
      omega

omit [Sha256] in
theorem isCheckpointName_checkpointName (height : ℕ) (hash : BlockHashBytes) :
    isCheckpointName (checkpointName height hash) = true := by
  unfold isCheckpointName checkpointName
  rw [Bool.and_eq_true, List.isPrefixOf_iff_prefix, List.isSuffixOf_iff_suffix]
  refine ⟨List.prefix_append _ _, ?_⟩
  rw [← List.append_assoc, List.append_cons, ← List.append_assoc]
  exact List.suffix_append _ _

theorem Serves.resumedFrom_save (h : Serves source chain best) {rows : List BlockStats}
    {start window : ℕ} {checkpoint : StatsCheckpoint}
    (hcaught : Caught chain start window rows checkpoint) (hwindow : cfg.utxoHashWindow = window)
    (henabled : cfg.checkpoints.enabled = true) (hbest : checkpoint.height ≤ best)
    (hsafe : cfg.start ≤ cfg.safeHeight best) :
    resumedFrom source cfg (CheckpointDir.save [] checkpoint) = .ok (some checkpoint) := by
  unfold resumedFrom
  rw [h.bestHeight, ok_bind, if_neg (not_lt.mpr hsafe), if_pos henabled]
  have hlist : CheckpointDir.listNewestFirst (CheckpointDir.save [] checkpoint) =
      [⟨checkpointName checkpoint.height checkpoint.blockHash, some checkpoint⟩] := by
    simp [CheckpointDir.listNewestFirst, CheckpointDir.save, isCheckpointName_checkpointName]
  rw [restoreNewestValidCheckpoint, hlist, restoreFrom]
  simp [hcaught.version_eq, hcaught.window_eq, hwindow, h.blockHash _ hbest, hcaught.hash_eq]

end

end BitcoinData.Stats
