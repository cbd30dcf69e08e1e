import BitcoinData.Proofs.ScanIds
import BitcoinData.Sanity.Stats.Serving

/-! Fetching blocks beside each other does not change a scan. Whatever the batch size, the number
of fetches at a time and the order in which blocks are ready, the scan commits the blocks of its
heights one after the other. -/

namespace BitcoinData.Stats

open Lib

/-! ## Batches -/

section
variable {source : BlockSource} {block : ℕ → DecodedBlockFrame} {best limit : ℕ}
variable {schedule : Schedule}

theorem ServesBlocks.heights (h : ServesBlocks source block best) {start count : ℕ}
    (hle : ∀ height ∈ List.range' start count, height ≤ best) :
    (preparedBlocks block start count).map (·.height) = List.range' start count := by
  rw [preparedBlocks, List.map_map]
  refine (List.map_congr_left fun height hheight => ?_).trans (List.map_id _)
  exact h.height_eq height (hle height hheight)

theorem preparedBlocks_eq (start count : ℕ) : preparedBlocks block start count =
    ((List.range' start count).map block).map prepareDecodedBlock := by
  rw [preparedBlocks, List.map_map]
  rfl

theorem fetchAndPrepareBatchIn_heights (hpossible : schedule.Possible limit) {start count : ℕ}
    (hfits : start + count ≤ U64_MAX) (hbatches : source.supportsBlockRangeBatches = false)
    (hfetch : ∀ height ∈ List.range' start count, source.getBlockByHeight height = .ok (block height))
    (hheight : ∀ height ∈ List.range' start count, (block height).height = height) :
    fetchAndPrepareBatchIn source schedule start count = .ok (preparedBlocks block start count) := by
  have hperm : (schedule start count).Perm (List.range' start count) := by
    simpa using (hpossible start count).perm
  have hfetched : (schedule start count).mapM source.getBlockByHeight =
      .ok ((schedule start count).map block) :=
    mapM_eq_map fun height hmem => hfetch height (hperm.mem_iff.mp hmem)
  unfold fetchAndPrepareBatchIn
  rw [hbatches, if_neg Bool.false_ne_true, checkedAddU64_of_le hfits, ok_bind, hfetched, ok_bind,
    pure_eq_ok, List.map_map]
  -- sorted by height, the order in which they were ready is gone
  exact congrArg Except.ok (insertionSort_results (List.pairwise_lt_range' (n := count) (s := start))
    hheight hperm)

theorem ServesBlocks.batch (h : ServesBlocks source block best) (hpossible : schedule.Possible limit)
    {start count : ℕ} (hle : start + count ≤ best + 1) (hfits : start + count ≤ U64_MAX) :
    fetchAndPrepareBatchIn source schedule start count = .ok (preparedBlocks block start count) := by
  cases hbatches : source.supportsBlockRangeBatches with
  | true =>
    unfold fetchAndPrepareBatchIn
    rw [if_pos hbatches, h.range start count hle, ok_bind, pure_eq_ok, List.map_map]
    rfl
  | false =>
    have hheights : ∀ height ∈ List.range' start count, height ≤ best := by
      intro height hheight
      have := List.mem_range'_1.mp hheight
      omega
    exact fetchAndPrepareBatchIn_heights hpossible hfits hbatches
      (fun height hheight => h.byHeight height (hheights height hheight))
      fun height hheight => h.height_eq height (hheights height hheight)

/-- Every batch of the heights from `first` to `last` is fetched and prepared. -/
def FetchesBlocks (source : BlockSource) (schedule : Schedule) (block : ℕ → DecodedBlockFrame)
    (first last : ℕ) : Prop :=
  ∀ start count, first ≤ start → 0 < count → start + count ≤ last + 1 →
    fetchAndPrepareBatchIn source schedule start count = .ok (preparedBlocks block start count)

theorem ServesBlocks.fetches (h : ServesBlocks source block best) (hpossible : schedule.Possible limit)
    {maxEnd : ℕ} (hmax : maxEnd ≤ best) (hfits : maxEnd < U64_MAX) :
    FetchesBlocks source schedule block 0 maxEnd :=
  fun _ _ _ _ hend => h.batch hpossible (by omega) (by omega)

variable [Sha256] {cfg : ScanConfig}

theorem FetchesBlocks.scanBatchesIn {first last maxEnd : ℕ}
    (h : FetchesBlocks source schedule block first last) (hmax : maxEnd ≤ last)
    (hfits : maxEnd < U64_MAX) (fuel nextHeight : ℕ) (hfirst : first ≤ nextHeight)
    (hfuel : maxEnd + 1 - nextHeight ≤ fuel) (loop : ScanLoop) :
    scanBatchesIn source cfg schedule maxEnd fuel nextHeight loop =
      commitFrames cfg loop (preparedBlocks block nextHeight (maxEnd + 1 - nextHeight)) := by
  induction fuel generalizing nextHeight loop with
  | zero =>
    have hzero : maxEnd + 1 - nextHeight = 0 := by omega
    rw [hzero]
    rfl
  | succ fuel ih =>
    rw [Stats.scanBatchesIn]
    split_ifs with hnext
    · have hsize : 1 ≤ cfg.batchSize := le_max_right _ _
      set count := min (maxEnd - nextHeight + 1) cfg.batchSize with hcount
      have hpos : 0 < count := by omega
      have hsplit : maxEnd + 1 - nextHeight = count + (maxEnd + 1 - (nextHeight + count)) := by omega
      have hbatch : nextBatch source cfg schedule maxEnd nextHeight =
          .ok (count, preparedBlocks block nextHeight count) := by
        rw [nextBatch, checkedAddU64_of_le (by omega), ok_bind]
        dsimp only
        rw [← hcount, h nextHeight count hfirst hpos (by omega), ok_bind]
        rfl
      rw [hsplit, ← preparedBlocks_append, commitFrames_append]
      simp only [hbatch]
      rcases hres : commitFrames cfg loop (preparedBlocks block nextHeight count) with ⟨loop', _ | _⟩
      · rfl
      · simp only [checkedAddU64_of_le (by omega : nextHeight + count ≤ U64_MAX)]
        exact ih (nextHeight + count) (by omega) (by omega) loop'
    · have hzero : maxEnd + 1 - nextHeight = 0 := by omega
      rw [hzero]
      rfl

theorem scanFromIn_past {maxEnd : ℕ} {dir : CheckpointDir} {restored : Option StatsCheckpoint}
    (hend : maxEnd < scanStart cfg restored) :
    (emittedRows (scanFromIn source cfg schedule dir maxEnd restored).effects,
      (scanFromIn source cfg schedule dir maxEnd restored).result) =
    runBlocks cfg.utxoHashWindow (startState cfg restored)
      (preparedBlocks block (scanStart cfg restored) (maxEnd + 1 - scanStart cfg restored)) := by
  have hzero : maxEnd + 1 - scanStart cfg restored = 0 := by omega
  unfold scanFromIn
  dsimp only
  rw [if_pos hend, hzero, start_rows, start_state]
  rfl

theorem FetchesBlocks.scanFromIn_run {first last maxEnd : ℕ}
    (h : FetchesBlocks source schedule block first last) (hmax : maxEnd ≤ last)
    (hfits : maxEnd < U64_MAX) {dir : CheckpointDir} {restored : Option StatsCheckpoint}
    (hfirst : first ≤ scanStart cfg restored) :
    (emittedRows (scanFromIn source cfg schedule dir maxEnd restored).effects,
      (scanFromIn source cfg schedule dir maxEnd restored).result) =
    runBlocks cfg.utxoHashWindow (startState cfg restored)
      (preparedBlocks block (scanStart cfg restored) (maxEnd + 1 - scanStart cfg restored)) := by
  by_cases hend : maxEnd < scanStart cfg restored
  · exact scanFromIn_past hend
  · unfold scanFromIn
    dsimp only
    rw [if_neg hend, checkedAddU64_of_le (by omega)]
    dsimp only
    rw [h.scanBatchesIn hmax hfits _ _ hfirst le_rfl]
    exact commitFrames_outcome dir restored _

theorem ServesBlocks.scanFromIn_run (h : ServesBlocks source block best)
    (hpossible : schedule.Possible limit) {maxEnd : ℕ} (hmax : maxEnd ≤ best)
    {dir : CheckpointDir} {restored : Option StatsCheckpoint}
    (hfits : maxEnd < U64_MAX ∨ maxEnd < scanStart cfg restored) :
    (emittedRows (scanFromIn source cfg schedule dir maxEnd restored).effects,
      (scanFromIn source cfg schedule dir maxEnd restored).result) =
    runBlocks cfg.utxoHashWindow (startState cfg restored)
      (preparedBlocks block (scanStart cfg restored) (maxEnd + 1 - scanStart cfg restored)) := by
  rcases hfits with hfits | hend
  · exact (h.fetches hpossible hmax hfits).scanFromIn_run le_rfl hfits (Nat.zero_le _)
  · exact scanFromIn_past hend

theorem scanIn_eq_scanFromIn (hbest : source.getBestHeight = .ok best) {dir : CheckpointDir}
    {restored : Option StatsCheckpoint} (hresume : resumedFrom source cfg dir = .ok restored) :
    scanIn source cfg schedule dir =
      scanFromIn source cfg schedule dir (cfg.maxEnd best) restored := by
  rw [resumedFrom, hbest, ok_bind] at hresume
  unfold scanIn
  simp only [hbest]
  split_ifs at hresume ⊢ with hsafe henabled
  · -- nothing is finalized, and the range is empty
    rw [pure_eq_ok, Except.ok.injEq] at hresume
    subst hresume
    have hend : cfg.maxEnd best ≤ cfg.safeHeight best := min_le_right _ _
    have hempty : scanStart cfg none > cfg.maxEnd best := lt_of_le_of_lt hend hsafe
    unfold scanFromIn
    dsimp only
    rw [if_pos hempty]
    rfl
  · simp only [hresume]
  · rw [pure_eq_ok, Except.ok.injEq] at hresume
    rw [hresume]

/-! ## The last height -/

/-- Behind the greatest height there is no next one, so the loop cannot come to its end. -/
theorem scanBatchesIn_overflow (source : BlockSource) (schedule : Schedule) (fuel nextHeight : ℕ)
    (hnext : nextHeight ≤ U64_MAX) (hfuel : U64_MAX + 1 - nextHeight ≤ fuel) (loop : ScanLoop) :
    ∃ loop' e, scanBatchesIn source cfg schedule U64_MAX fuel nextHeight loop = (loop', .error e) := by
  induction fuel generalizing nextHeight loop with
  | zero => omega
  | succ fuel ih =>
    rw [Stats.scanBatchesIn, if_pos hnext]
    cases hbatch : nextBatch source cfg schedule U64_MAX nextHeight with
    | error e => exact ⟨loop, e, rfl⟩
    | ok out =>
      obtain ⟨count, batch⟩ := out
      dsimp only
      rcases commitFrames cfg loop batch with ⟨loop', e | _⟩
      · exact ⟨loop', e, rfl⟩
      · dsimp only
        have hpos : 0 < count := by
          simp only [nextBatch, bind_eq_ok, pure_eq_ok, Except.ok.injEq, Prod.mk.injEq] at hbatch
          obtain ⟨remaining, hremaining, _, _, hcount, _⟩ := hbatch
          have hsize : 1 ≤ cfg.batchSize := le_max_right _ _
          unfold checkedAddU64 at hremaining
          split_ifs at hremaining with hfits
          rw [Except.ok.injEq] at hremaining
          omega
        unfold checkedAddU64
        split_ifs with hfits
        · exact ih (nextHeight + count) hfits (by omega) loop'
        · exact ⟨loop', _, rfl⟩

theorem scanFromIn_overflow (source : BlockSource) (schedule : Schedule) (dir : CheckpointDir)
    {restored : Option StatsCheckpoint} (hstart : scanStart cfg restored ≤ U64_MAX) :
    ∃ e, (scanFromIn source cfg schedule dir U64_MAX restored).result = .error e := by
  unfold scanFromIn
  dsimp only
  rw [if_neg (not_lt.mpr hstart)]
  cases checkedAddU64 (U64_MAX - scanStart cfg restored) 1 with
  | error e => exact ⟨e, rfl⟩
  | ok blocks =>
    obtain ⟨loop, e, hloop⟩ := @scanBatchesIn_overflow _ cfg source schedule _ _ hstart le_rfl
      (ScanLoop.start cfg dir restored)
    dsimp only
    rw [hloop]
    exact ⟨e, rfl⟩

/-! ## The scan -/

/-- From a state that blocks have led to, the next blocks are processed to the last. -/
theorem runBlocks_of_reached {window : ℕ} {earlier blocks : List DecodedBlockFrame}
    {rows : List BlockStats} {state : StatsScannerState}
    (hrun : runBlocks window (.new window) (earlier.map prepareDecodedBlock) = (rows, .ok state))
    (hcount : ((earlier ++ blocks).map fun b => (b.txdata.map fun tx => tx.output.length).sum).sum <
      2 ^ 60) :
    ∃ rows' state', runBlocks window state (blocks.map prepareDecodedBlock) = (rows', .ok state') := by
  rw [← preparedOutputs_prepare, List.map_append, preparedOutputs, List.map_append, List.sum_append,
    ← preparedOutputs, ← preparedOutputs] at hcount
  have hzero : (StatsScannerState.new window).lastId = 0 := rfl
  have hnew : IdInv 0 (StatsScannerState.new window).lastId ∅ .default (.new window) :=
    idInv_new window
  obtain ⟨rows₁, state₁, hrun₁, -, hlast, hinv⟩ := runBlocks_of_idInv window
    (earlier.map prepareDecodedBlock) hnew (by omega)
  rw [hrun, Prod.mk.injEq, Except.ok.injEq] at hrun₁
  obtain ⟨rfl, rfl⟩ := hrun₁
  obtain ⟨rows', state', hrun', -, -, -⟩ := runBlocks_of_idInv window
    (blocks.map prepareDecodedBlock) hinv (by omega)
  exact ⟨rows', state', hrun'⟩

/-- Unless heights are left that end with the greatest, the rows and the result of a scan are those
of its blocks one at a time, whatever becomes of them. From a state that a scan has reached, there
is then one row for each height, and in no other case. -/
theorem pipelined_scan_exact_iff (h : ServesBlocks source block best) (buffer : ℕ)
    (hpossible : schedule.Possible (cfg.inFlight buffer)) {dir : CheckpointDir}
    {restored : Option StatsCheckpoint} (hresume : resumedFrom source cfg dir = .ok restored) :
    (cfg.maxEnd best < U64_MAX ∨ cfg.maxEnd best < scanStart cfg restored →
      (emittedRows (scanIn source cfg schedule dir).effects, (scanIn source cfg schedule dir).result) =
        runBlocks cfg.utxoHashWindow (startState cfg restored)
          (preparedBlocks block (scanStart cfg restored)
            (cfg.maxEnd best + 1 - scanStart cfg restored))) ∧
    ∀ earlier rows,
      runBlocks cfg.utxoHashWindow (.new cfg.utxoHashWindow) (earlier.map prepareDecodedBlock) =
        (rows, .ok (startState cfg restored)) →
      ((earlier ++ (List.range' (scanStart cfg restored)
          (cfg.maxEnd best + 1 - scanStart cfg restored)).map block).map fun b =>
        (b.txdata.map fun tx => tx.output.length).sum).sum < 2 ^ 60 →
      ((emittedRows (scanIn source cfg schedule dir).effects).map (·.height) =
          List.range' (scanStart cfg restored) (cfg.maxEnd best + 1 - scanStart cfg restored) ∧
        (emittedRows (scanIn source cfg schedule dir).effects,
            (scanIn source cfg schedule dir).result) =
          runBlocks cfg.utxoHashWindow (startState cfg restored)
            (preparedBlocks block (scanStart cfg restored)
              (cfg.maxEnd best + 1 - scanStart cfg restored)) ↔
        cfg.maxEnd best < U64_MAX ∨ cfg.maxEnd best < scanStart cfg restored) := by
  have hle := maxEnd_le cfg best
  rw [scanIn_eq_scanFromIn h.bestHeight hresume]
  refine ⟨fun hfits => h.scanFromIn_run hpossible hle hfits, fun earlier rows hearlier hcount => ?_⟩
  obtain ⟨rows', state', hrun'⟩ := runBlocks_of_reached hearlier hcount
  rw [← preparedBlocks_eq] at hrun'
  refine ⟨?_, ?_⟩
  · rintro ⟨-, hexact⟩
    by_contra hlast
    rw [not_or, not_lt, not_lt] at hlast
    have hmax : cfg.maxEnd best = U64_MAX :=
      le_antisymm ((min_le_left _ _).trans (min_le_right _ _)) hlast.1
    have hresult := congrArg Prod.snd (hexact.trans hrun')
    dsimp only at hresult
    rw [hmax] at hresult
    obtain ⟨e, he⟩ := scanFromIn_overflow source schedule dir (hlast.2.trans hmax.le)
    rw [he] at hresult
    cases hresult
  · intro hfits
    have hexact := @ServesBlocks.scanFromIn_run _ _ _ _ _ _ cfg h hpossible _ hle dir restored hfits
    refine ⟨?_, hexact⟩
    have hrows := congrArg Prod.fst (hexact.trans hrun')
    dsimp only at hrows
    rw [hrows, runBlocks_heights_ok hrun', h.heights fun height hheight => ?_]
    have := List.mem_range'_1.mp hheight
    omega

end

/-! ## Samples -/

section
attribute [local instance] sampleSha256

/-- A node of the sample chain without batches. -/
def heightsSource (best : ℕ) : BlockSource :=
  { sampleChain.source best with supportsBlockRangeBatches := false }

theorem servesBlocks_sample (best : ℕ) (batches : Bool) :
    ServesBlocks { sampleChain.source best with supportsBlockRangeBatches := batches }
      sampleChain.frame best :=
  ⟨rfl, fun _ _ => rfl, fun _ _ => rfl, fun _ _ _ => rfl⟩

/-- Of two blocks, the second is ready first. -/
def swapped : Schedule := fun start count =>
  if count = 2 then [start + 1, start] else List.range' start count

theorem swapped_possible {limit : ℕ} (hlimit : 2 ≤ limit) : swapped.Possible limit := by
  intro start count
  unfold swapped
  split_ifs with hcount
  · subst hcount
    exact completes_swapped hlimit start (start + 1)
  · exact completes_in_order (by omega) _

/-- Batches of two, two fetches at a time. -/
def pairsConfig (start blocks : ℕ) : ScanConfig :=
  { start
    blocks
    sourceBatchSize := 2
    utxoHashWindow := 0
    finalityDepth := 0
    checkpoints := { every := 0, keep := 0, enabled := false } }

/-- Five blocks in three batches. -/
theorem pipelined_scan_sample :
    (emittedRows (scanIn (heightsSource 10) (pairsConfig 3 5) swapped []).effects).map (·.height) =
        [3, 4, 5, 6, 7] ∧
      (emittedRows (scanIn (heightsSource 10) (pairsConfig 3 5) swapped []).effects,
          (scanIn (heightsSource 10) (pairsConfig 3 5) swapped []).result) =
        runBlocks 0 (.new 0) (preparedBlocks sampleChain.frame 3 5) := by
  have hpossible : swapped.Possible ((pairsConfig 3 5).inFlight 2) := swapped_possible (by decide)
  have hresume : resumedFrom (heightsSource 10) (pairsConfig 3 5) [] = .ok none := rfl
  obtain ⟨-, hexact⟩ :=
    pipelined_scan_exact_iff (servesBlocks_sample 10 false) 2 hpossible hresume
  exact (hexact [] [] rfl (by decide +kernel)).mpr (by decide)

/-- One block at the greatest height. -/
theorem scan_overflows_at_last_height :
    ¬ ∀ (source : BlockSource) (block : ℕ → DecodedBlockFrame) (best buffer : ℕ) (cfg : ScanConfig)
      (schedule : Schedule) (dir : CheckpointDir) (restored : Option StatsCheckpoint),
      ServesBlocks source block best → schedule.Possible (cfg.inFlight buffer) →
      resumedFrom source cfg dir = .ok restored → 1 ≤ cfg.blocks → cfg.start ≤ cfg.maxEnd best →
      (emittedRows (scanIn source cfg schedule dir).effects, (scanIn source cfg schedule dir).result) =
        runBlocks cfg.utxoHashWindow (startState cfg restored)
          (preparedBlocks block (scanStart cfg restored)
            (cfg.maxEnd best + 1 - scanStart cfg restored)) := by
  intro hscans
  have hserves := servesBlocks_sample U64_MAX true
  have hresume : resumedFrom (sampleChain.source U64_MAX) (pairsConfig U64_MAX 1) [] = .ok none := rfl
  have hexact := hscans _ _ U64_MAX 2 (pairsConfig U64_MAX 1) swapped [] none hserves
    (swapped_possible (by decide)) hresume le_rfl le_rfl
  have hearlier : runBlocks 0 (.new 0) (([] : List DecodedBlockFrame).map prepareDecodedBlock) =
      ([], .ok (.new 0)) := rfl
  obtain ⟨rows, state, hrun⟩ := @runBlocks_of_reached _ 0 [] [sampleChain.frame U64_MAX] _ _ hearlier
    (by decide +kernel)
  have hresult := congrArg Prod.snd (hexact.trans hrun)
  dsimp only at hresult
  obtain ⟨e, he⟩ := @scanFromIn_overflow _ (pairsConfig U64_MAX 1) (sampleChain.source U64_MAX)
    swapped [] none le_rfl
  rw [scanIn_eq_scanFromIn hserves.bestHeight hresume] at hresult
  cases he.symm.trans hresult

end

end BitcoinData.Stats
