import BitcoinData.Sanity.Stats.Csv
import BitcoinData.Sanity.Stats.Pruning
import BitcoinData.Sanity.Stats.Sample

/-! A checkpoint is saved while the row of its block is still in the buffered writer. -/

namespace BitcoinData.Stats

open Lib

section
variable [Sha256] {cfg : ScanConfig}

/-! ## The first checkpoint of a scan -/

theorem commitFrames_effects (loop : ScanLoop) (frames : List PreparedBlockFrame) :
    loop.effects <+: (commitFrames cfg loop frames).1.effects := by
  obtain ⟨more, hmore⟩ := @Continues.commitFrames _ cfg loop frames
  rw [hmore.effects]
  exact List.prefix_append _ _

omit [Sha256] in
theorem finish_effects (loop : ScanLoop) : loop.effects <+: (loop.finish cfg).effects := by
  obtain ⟨more, hmore⟩ := @Continues.finish cfg loop
  rw [hmore.effects]
  exact List.prefix_append _ _

omit [Sha256] in
theorem finish_save {loop : ScanLoop} {height : ℕ} {hash : BlockHashBytes}
    (hflush : cfg.checkpoints.needsFinalFlush loop.processedSinceCheckpoint = true)
    (hlast : loop.lastCommitted = some (height, hash)) :
    loop.effects ++ [.saveCheckpoint (makeCheckpoint cfg loop.state height hash)] <+:
      (loop.finish cfg).effects := by
  unfold ScanLoop.finish
  rw [if_pos hflush, hlast]
  simp only [writeCheckpoint_eq, foldl_perform, ScanLoop.perform, checkpointEffects]
  simp

/-- The rows up to the first checkpoint, and nothing else in between. -/
structure FirstSave (before : List ScanEffect) (rows : List BlockStats) (effects : List ScanEffect) :
    Prop where
  saved : ∃ init last checkpoint, rows = init ++ [last] ∧ checkpoint.height = last.height ∧
    before ++ rows.map ScanEffect.emitBlock ++ [.saveCheckpoint checkpoint] <+: effects

theorem firstSave (hwrites : cfg.checkpoints.writes = true) (loop : ScanLoop)
    (frames : List PreparedBlockFrame) (hne : frames ≠ [])
    (hcount : loop.processedSinceCheckpoint < cfg.checkpoints.every)
    (hok : (commitFrames cfg loop frames).2 = .ok ()) :
    ∃ rows, rows <+: (runBlocks cfg.utxoHashWindow loop.state frames).1 ∧
      FirstSave loop.effects rows ((commitFrames cfg loop frames).1.finish cfg).effects := by
  induction frames generalizing loop with
  | nil => exact absurd rfl hne
  | cons frame frames ih =>
    rw [commitFrames] at hok ⊢
    cases hblock : processBlock cfg.utxoHashWindow loop.state frame with
    | error e =>
      rw [commitFrame_error hblock] at hok
      cases hok
    | ok out =>
      obtain ⟨state, row⟩ := out
      rw [commitFrame_ok hblock] at hok ⊢
      have hheight := processBlock_height hblock
      rw [runBlocks, hblock]
      dsimp only at hok ⊢
      by_cases hdue : loop.processedSinceCheckpoint + 1 ≥ cfg.checkpoints.every
      · -- the checkpoint of this block
        refine ⟨[row], (List.prefix_cons_inj _).mpr List.nil_prefix, [], row,
          makeCheckpoint cfg state frame.height frame.hash, rfl, hheight.symm, ?_⟩
        have hcommitted : loop.effects ++ [row].map ScanEffect.emitBlock ++
            [.saveCheckpoint (makeCheckpoint cfg state frame.height frame.hash)] <+:
            (committed cfg loop frame state row).effects := by
          simp only [committed, dueEffects, CheckpointConfig.onCommittedBlock, hwrites, hdue,
            checkpointEffects]
          simp
        exact hcommitted.trans ((commitFrames_effects _ _).trans (finish_effects _))
      · have hprocessed : (committed cfg loop frame state row).processedSinceCheckpoint =
            loop.processedSinceCheckpoint + 1 := by
          simp [committed, CheckpointConfig.onCommittedBlock, hwrites, hdue]
        have heffects : (committed cfg loop frame state row).effects =
            loop.effects ++ [.emitBlock row] := by
          simp [committed, dueEffects, CheckpointConfig.onCommittedBlock, hwrites, hdue]
        rcases frames.eq_nil_or_concat with rfl | ⟨_, _, hconcat⟩
        · -- the final checkpoint
          refine ⟨[row], List.prefix_refl _, [], row,
            makeCheckpoint cfg state frame.height frame.hash, rfl, hheight.symm, ?_⟩
          have hflush : cfg.checkpoints.needsFinalFlush
              (committed cfg loop frame state row).processedSinceCheckpoint = true := by
            simp [CheckpointConfig.needsFinalFlush, hwrites, hprocessed]
          have hsave := finish_save hflush rfl
          rw [heffects] at hsave
          exact hsave
        · have hrest : frames ≠ [] := by
            rw [hconcat]
            simp
          obtain ⟨rows, hrows, init, last, checkpoint, rfl, hlast, hsaved⟩ :=
            ih (committed cfg loop frame state row) hrest (by omega) hok
          refine ⟨row :: (init ++ [last]), (List.prefix_cons_inj _).mpr hrows, row :: init, last,
            checkpoint, rfl, hlast, ?_⟩
          rw [heffects] at hsaved
          simpa using hsaved

/-! ## What the file holds then -/

omit [Sha256] in
/-- Emitting rows in a row: the file gets no more than the lines before the last one. -/
theorem SinkHolds.emitBlocks {sink : CsvSink} {filed pending : List (List Char)}
    (h : SinkHolds sink filed pending) (init : List BlockStats) (last : BlockStats)
    (hrows : ∀ row ∈ init ++ [last], TextRow row) :
    ∃ filed' pending', SinkHolds (((init ++ [last]).map ScanEffect.emitBlock).foldl CsvSink.apply sink)
        filed' pending' ∧ filed' <+: filed ++ pending ++ init.map csvLine := by
  induction init generalizing sink filed pending with
  | nil =>
    obtain ⟨filed', pending', hsink, hlines⟩ := h.emitBlock (hrows last (by simp))
    refine ⟨filed', pending' ++ [csvLine last], hsink, ?_⟩
    rw [List.map_nil, List.append_nil, ← hlines]
    exact List.prefix_append _ _
  | cons row init ih =>
    obtain ⟨filed', pending', hsink, hlines⟩ := h.emitBlock (hrows row (by simp))
    obtain ⟨filed'', pending'', hsink', hle⟩ := ih hsink fun r hr =>
      hrows r (List.mem_cons_of_mem _ hr)
    refine ⟨filed'', pending'', hsink', ?_⟩
    rw [← List.append_assoc, hlines] at hle
    simpa using hle

omit [Sha256] in
/-- The lines that a scan finds when it emits its first row: the header, and rows below. -/
theorem CsvFile.started {file : List Char} {rows : List (List Char)} (h : CsvFile file rows)
    (dir : CheckpointDir) {restored : Option StatsCheckpoint}
    (hfresh : restored = none → rows = [])
    (hnext : ∀ checkpoint, restored = some checkpoint → checkpoint.nextHeight = checkpoint.height + 1) :
    ∃ filed pending kept, SinkHolds (csvAfter file (ScanLoop.start cfg dir restored).effects) filed pending ∧
      filed ++ pending = BLOCK_STATS_HEADER :: kept ∧ (∀ line ∈ kept, CleanLine line) ∧
      ∀ line ∈ kept, (rowHeight line).any (· < scanStart cfg restored) = true := by
  obtain ⟨filed, pending, hsink, hlines⟩ := h.opened
  cases restored with
  | none =>
    obtain rfl := hfresh rfl
    exact ⟨filed, pending, [], hsink, hlines, fun _ hl => absurd hl List.not_mem_nil,
      fun _ hl => absurd hl List.not_mem_nil⟩
  | some checkpoint =>
    refine ⟨_, [], _, hsink.rollback checkpoint.height hlines h.all_clean, List.append_nil _, ?_, ?_⟩
    · exact fun line hline => h.clean line (List.mem_of_mem_filter hline)
    · intro line hline
      have hkept := (List.mem_filter.mp hline).2
      rw [scanStart, hnext checkpoint rfl]
      cases hheight : rowHeight line with
      | none =>
        rw [hheight] at hkept
        cases hkept
      | some height =>
        rw [hheight] at hkept
        simp only [Option.any_some, decide_eq_true_eq] at hkept ⊢
        omega

omit [Sha256] in
theorem lastRow_buffered {file : List Char} {old : List (List Char)} {dir : CheckpointDir}
    {restored : Option StatsCheckpoint} {init : List BlockStats} {last : BlockStats} {count : ℕ}
    (hcsv : CsvFile file old) (hfresh : restored = none → old = [])
    (hnext : ∀ checkpoint, restored = some checkpoint → checkpoint.nextHeight = checkpoint.height + 1)
    (htext : ∀ row ∈ init ++ [last], TextRow row)
    (hheights : (init ++ [last]).map (·.height) <+: List.range' (scanStart cfg restored) count)
    (hbound : scanStart cfg restored + count ≤ 2 ^ 64) :
    csvLine last ∉ lines (csvAfter file ((ScanLoop.start cfg dir restored).effects ++
      (init ++ [last]).map ScanEffect.emitBlock)).file := by
  intro hmem
  obtain ⟨filed, pending, kept, hsink, hlines, hclean, hkept⟩ :=
    @CsvFile.started cfg file old hcsv dir restored hfresh hnext
  obtain ⟨filed', pending', hsink', hle⟩ := hsink.emitBlocks init last htext
  have hfile : (csvAfter file ((ScanLoop.start cfg dir restored).effects ++
      (init ++ [last]).map ScanEffect.emitBlock)).file = unlines filed' := by
    rw [← hsink'.file, csvAfter, List.foldl_append]
    rfl
  rw [hlines] at hle
  have hclean' : ∀ line ∈ filed', CleanLine line := by
    intro line hline
    rcases List.mem_append.mp (hle.subset hline) with hold | hnew
    · rcases List.mem_cons.mp hold with rfl | hold
      · exact header_clean
      · exact hclean line hold
    · obtain ⟨row, hrow, rfl⟩ := List.mem_map.mp hnew
      exact (htext row (List.mem_append_left _ hrow)).clean
  rw [hfile, lines_unlines hclean'] at hmem
  have hrange : ∀ row ∈ init ++ [last], scanStart cfg restored ≤ row.height ∧ row.height < 2 ^ 64 := by
    intro row hrow
    have := List.mem_range'_1.mp (hheights.subset (List.mem_map_of_mem hrow))
    omega
  have hlastRange := hrange last (by simp)
  have hlastHeight : rowHeight (csvLine last) = some last.height := by
    rw [rowHeight_csvLine, Nat.mod_eq_of_lt hlastRange.2]
  -- neither the header, nor an old row, nor an earlier one of this scan
  rcases List.mem_append.mp (hle.subset hmem) with hold | hnew
  · rcases List.mem_cons.mp hold with heq | hold
    · rw [heq, header_rowHeight] at hlastHeight
      cases hlastHeight
    · have := hkept _ hold
      rw [hlastHeight, Option.any_some, decide_eq_true_eq] at this
      omega
  · obtain ⟨row, hrow, heq⟩ := List.mem_map.mp hnew
    have hrowHeight := rowHeight_csvLine row
    rw [heq, hlastHeight, Nat.mod_eq_of_lt (hrange row (by simp [hrow])).2, Option.some.injEq] at hrowHeight
    have hnodup := (List.nodup_range' (n := count) (s := scanStart cfg restored)).sublist hheights.sublist
    rw [List.map_append, List.nodup_append] at hnodup
    exact hnodup.2.2 _ (List.mem_map_of_mem hrow) _ (by simp) hrowHeight.symm

/-! ## When a checkpoint means committed rows -/

theorem commitFrames_no_save (hevery : cfg.checkpoints.every = 0) (loop : ScanLoop)
    (frames : List PreparedBlockFrame) (checkpoint : StatsCheckpoint)
    (h : .saveCheckpoint checkpoint ∈ (commitFrames cfg loop frames).1.effects) :
    .saveCheckpoint checkpoint ∈ loop.effects := by
  have hwrites : cfg.checkpoints.writes = false := by simp [CheckpointConfig.writes, hevery]
  induction frames generalizing loop with
  | nil => exact h
  | cons frame frames ih =>
    rw [commitFrames] at h
    cases hblock : processBlock cfg.utxoHashWindow loop.state frame with
    | error e =>
      rw [commitFrame_error hblock] at h
      exact h
    | ok out =>
      rw [commitFrame_ok hblock] at h
      have hsaved := ih _ h
      simpa [committed, dueEffects, CheckpointConfig.onCommittedBlock, hwrites] using hsaved

section
variable {chain : Chain} {source : BlockSource} {best : ℕ} {dir : CheckpointDir}
variable {restored : Option StatsCheckpoint}

theorem Serves.scan_no_save (hserves : Serves source chain best)
    (hresume : resumedFrom source cfg dir = .ok restored) (hevery : cfg.checkpoints.every = 0)
    (checkpoint : StatsCheckpoint) : .saveCheckpoint checkpoint ∉ (scan source cfg dir).effects := by
  have hstart : .saveCheckpoint checkpoint ∉ (ScanLoop.start cfg dir restored).effects := by
    cases restored <;> simp [ScanLoop.start]
  rcases hserves.scan_eq hresume with ⟨-, -, hscan⟩ | ⟨-, hscan⟩
  · rw [hscan]
    exact List.not_mem_nil
  · rw [hscan]
    unfold scanFrom
    dsimp only
    split_ifs with hend
    · exact hstart
    · rw [hserves.scanBatches (maxEnd_le cfg best) _ _ le_rfl]
      intro h
      apply hstart
      apply commitFrames_no_save hevery _ (chain.prepared (scanStart cfg restored)
        (cfg.maxEnd best + 1 - scanStart cfg restored))
      split at h
      · rename_i loop e hres
        rw [hres]
        exact h
      · rename_i loop hres
        rw [hres]
        simpa [ScanLoop.finish, CheckpointConfig.needsFinalFlush, CheckpointConfig.writes, hevery,
          ScanLoop.perform] using h

/-- The first row, at least, is emitted before any checkpoint is written. -/
theorem commitFrames_first (loop : ScanLoop) (frames : List PreparedBlockFrame) (hne : frames ≠ [])
    (hok : (commitFrames cfg loop frames).2 = .ok ()) :
    ∃ row, [row] <+: (runBlocks cfg.utxoHashWindow loop.state frames).1 ∧
      loop.effects ++ [.emitBlock row] <+: ((commitFrames cfg loop frames).1.finish cfg).effects := by
  obtain ⟨frame, frames, rfl⟩ := List.exists_cons_of_ne_nil hne
  rw [commitFrames] at hok ⊢
  cases hblock : processBlock cfg.utxoHashWindow loop.state frame with
  | error e =>
    rw [commitFrame_error hblock] at hok
    cases hok
  | ok out =>
    rw [commitFrame_ok hblock, runBlocks, hblock]
    refine ⟨out.2, (List.prefix_cons_inj _).mpr List.nil_prefix, ?_⟩
    have hcommitted : loop.effects ++ [.emitBlock out.2] <+: (committed cfg loop frame out.1 out.2).effects :=
      (List.prefix_append_right_inj _).mpr ((List.prefix_cons_inj _).mpr List.nil_prefix)
    exact hcommitted.trans ((commitFrames_effects _ _).trans (finish_effects _))

theorem Serves.scan_completed (hserves : Serves source chain best)
    (hresume : resumedFrom source cfg dir = .ok restored) (hsafe : cfg.start ≤ cfg.safeHeight best)
    (hend : scanStart cfg restored ≤ cfg.maxEnd best) (hok : (scan source cfg dir).result.isOk = true) :
    (commitFrames cfg (ScanLoop.start cfg dir restored) (chain.prepared (scanStart cfg restored)
        (cfg.maxEnd best + 1 - scanStart cfg restored))).2 = .ok () ∧
      (scan source cfg dir).effects = ((commitFrames cfg (ScanLoop.start cfg dir restored)
        (chain.prepared (scanStart cfg restored)
          (cfg.maxEnd best + 1 - scanStart cfg restored))).1.finish cfg).effects := by
  rcases hserves.scan_eq hresume with ⟨hsafe', -, -⟩ | ⟨-, hscan⟩
  · omega
  · rw [hscan] at hok ⊢
    unfold scanFrom at hok ⊢
    dsimp only at hok ⊢
    rw [if_neg (not_lt.mpr hend), hserves.scanBatches (maxEnd_le cfg best) _ _ le_rfl] at hok ⊢
    rcases hres : commitFrames cfg (ScanLoop.start cfg dir restored) (chain.prepared
      (scanStart cfg restored) (cfg.maxEnd best + 1 - scanStart cfg restored)) with ⟨loop, _ | _⟩
    · rw [hres] at hok
      cases hok
    · exact ⟨rfl, rfl⟩

/-- With nothing to scan, or with no checkpoint that reaches what is scanned, nothing is ahead. -/
theorem Serves.committed_of_unreached {file : List Char} (hserves : Serves source chain best)
    (hresume : resumedFrom source cfg dir = .ok restored)
    (hcond : cfg.safeHeight best < cfg.start ∨ cfg.maxEnd best < scanStart cfg restored ∨
      cfg.checkpoints.every = 0 ∧ ∀ entry ∈ dir, ∀ checkpoint, entry.content = some checkpoint →
        checkpoint.height < scanStart cfg restored)
    {before : List ScanEffect} (hbefore : before <+: (scan source cfg dir).effects) :
    Committed file dir before := by
  intro entry hentry checkpoint hcontent row hrow hle
  have hrange := hserves.scan_rows hresume hbefore
  have hmem := List.mem_range'_1.mp (hrange.subset (List.mem_map_of_mem hrow))
  exfalso
  rcases hcond with hsafe | hend | ⟨hevery, hdir⟩
  · have : cfg.maxEnd best ≤ cfg.safeHeight best := min_le_right _ _
    rcases hserves.scan_eq hresume with ⟨-, -, hscan⟩ | ⟨hsafe', -⟩
    · rw [hscan, List.prefix_nil] at hbefore
      rw [hbefore] at hrow
      exact absurd hrow List.not_mem_nil
    · omega
  · omega
  · rcases mem_apply hentry with hold | ⟨earlier, saved, hsaved, -⟩
    · have := hdir entry hold checkpoint hcontent
      omega
    · exact hserves.scan_no_save hresume hevery saved
        (hbefore.subset (hsaved.subset (List.mem_append_right _ (List.mem_singleton_self _))))

theorem Filled.restored_next (hfilled : Filled chain dir)
    (hresume : resumedFrom source cfg dir = .ok restored) (checkpoint : StatsCheckpoint)
    (hsome : restored = some checkpoint) : checkpoint.nextHeight = checkpoint.height + 1 := by
  rw [hsome] at hresume
  obtain ⟨entry, hmem, hcontent, -⟩ := restore_mem (resumedFrom_some hresume)
  obtain ⟨start, hstart⟩ := hfilled.beganAt entry hmem checkpoint hcontent
  obtain ⟨rows, hcaught⟩ := hstart.caught
  exact hcaught.next_eq

/-- However many rows are emitted, the last of them is in the writer only. -/
def LastInWriter (file : List Char) (loop : ScanLoop) (rows : List BlockStats) : Prop :=
  ∀ init last, init ++ [last] <+: rows → csvLine last ∉
    lines (csvAfter file (loop.effects ++ (init ++ [last]).map ScanEffect.emitBlock)).file

theorem lastInWriter_start {file : List Char} {old : List (List Char)} {count : ℕ}
    (hcsv : CsvFile file old) (hfresh : restored = none → old = [])
    (hnext : ∀ checkpoint, restored = some checkpoint → checkpoint.nextHeight = checkpoint.height + 1)
    (hbound : scanStart cfg restored + count ≤ 2 ^ 64) :
    LastInWriter file (ScanLoop.start cfg dir restored) (runBlocks cfg.utxoHashWindow
      (ScanLoop.start cfg dir restored).state (chain.prepared (scanStart cfg restored) count)).1 := by
  intro init last hrows
  refine lastRow_buffered hcsv hfresh hnext (fun row hrow => ?_) ?_ hbound
  · exact runBlocks_text _ _ row (hrows.subset hrow)
  · rw [← Chain.heights_prepared]
    exact (hrows.map _).trans (runBlocks_heights _ _)

theorem LastInWriter.uncommitted_of_reached {file : List Char} {loop : ScanLoop}
    {frames : List PreparedBlockFrame}
    (hlast : LastInWriter file loop (runBlocks cfg.utxoHashWindow loop.state frames).1)
    (hne : frames ≠ []) (hdone : (commitFrames cfg loop frames).2 = .ok ())
    {entry : CheckpointFile} {checkpoint : StatsCheckpoint} {start count : ℕ}
    (hentry : entry ∈ loop.effects.foldl CheckpointDir.apply dir)
    (hcontent : entry.content = some checkpoint)
    (hheights : frames.map (·.height) = List.range' start (count + 1))
    (hreach : start ≤ checkpoint.height) :
    ∃ before, before <+: ((commitFrames cfg loop frames).1.finish cfg).effects ∧
      ¬ Committed file dir before := by
  obtain ⟨row, hrow, hbefore⟩ := commitFrames_first loop frames hne hdone
  have hrowHeight : row.height = start := by
    have hheads := (hrow.map (·.height)).trans (runBlocks_heights _ _)
    rw [hheights, List.range'_succ, List.map_singleton, List.cons_prefix_cons] at hheads
    exact hheads.1
  refine ⟨_, hbefore, fun hall => hlast [] row hrow ?_⟩
  refine hall entry ?_ checkpoint hcontent row (by simp [emittedRows]) (by omega)
  rw [List.foldl_append]
  exact hentry

theorem LastInWriter.uncommitted_of_saved {file : List Char} {loop : ScanLoop}
    {frames : List PreparedBlockFrame}
    (hlast : LastInWriter file loop (runBlocks cfg.utxoHashWindow loop.state frames).1)
    (hne : frames ≠ []) (hdone : (commitFrames cfg loop frames).2 = .ok ())
    (hwrites : cfg.checkpoints.writes = true)
    (hcount : loop.processedSinceCheckpoint < cfg.checkpoints.every) :
    ∃ before, before <+: ((commitFrames cfg loop frames).1.finish cfg).effects ∧
      ¬ Committed file dir before := by
  obtain ⟨_, hrows, init, last, checkpoint, rfl, hheight, hsaved⟩ :=
    firstSave hwrites loop frames hne hcount hdone
  refine ⟨_, hsaved, fun hall => hlast init last hrows ?_⟩
  have hmem := hall ⟨checkpointName checkpoint.height checkpoint.blockHash, some checkpoint⟩
    (by simp [CheckpointDir.apply, CheckpointDir.save]) checkpoint rfl last (by simp [emittedRows])
    hheight.ge
  rw [csvAfter, List.foldl_append] at hmem
  exact hmem

/-- A checkpoint means committed rows when there is nothing to scan, or when the scan writes no
checkpoint and none of the directory reaches the heights it scans. A scan that completes in any
other case has a point at which a checkpoint is ahead of the file. -/
theorem csv_committed_iff {file : List Char} {old : List (List Char)}
    (hserves : Serves source chain best) (hfilled : Filled chain dir)
    (henabled : cfg.checkpoints.enabled = true)
    (hresume : resumedFrom source cfg dir = .ok restored)
    (hcsv : CsvFile file old) (hfresh : restored = none → old = []) :
    (cfg.safeHeight best < cfg.start ∨ cfg.maxEnd best < scanStart cfg restored ∨
        cfg.checkpoints.every = 0 ∧ (∀ entry ∈ dir, ∀ checkpoint, entry.content = some checkpoint →
          checkpoint.height < scanStart cfg restored) →
      ∀ before, before <+: (scan source cfg dir).effects → Committed file dir before) ∧
    ((scan source cfg dir).result.isOk = true →
      (∀ before, before <+: (scan source cfg dir).effects → Committed file dir before) →
      cfg.safeHeight best < cfg.start ∨ cfg.maxEnd best < scanStart cfg restored ∨
        cfg.checkpoints.every = 0 ∧ ∀ entry ∈ dir, ∀ checkpoint, entry.content = some checkpoint →
          checkpoint.height < scanStart cfg restored) := by
  refine ⟨fun hcond before hbefore => hserves.committed_of_unreached hresume hcond hbefore,
    fun hok hall => ?_⟩
  by_contra hcond
  rw [not_or, not_or, not_lt, not_lt] at hcond
  obtain ⟨hsafe, hend, hcond⟩ := hcond
  obtain ⟨hdone, heffects⟩ := hserves.scan_completed hresume hsafe hend hok
  rw [heffects] at hall
  have hbound : scanStart cfg restored + (cfg.maxEnd best + 1 - scanStart cfg restored) ≤ 2 ^ 64 := by
    have : cfg.maxEnd best ≤ U64_MAX := (min_le_left _ _).trans (min_le_right _ _)
    unfold U64_MAX at this
    omega
  have hlast := @lastInWriter_start _ cfg chain dir restored file old _ hcsv hfresh
    (hfilled.restored_next hresume) hbound
  have hne : chain.prepared (scanStart cfg restored)
      (cfg.maxEnd best + 1 - scanStart cfg restored) ≠ [] := by
    apply List.ne_nil_of_length_pos
    rw [Chain.length_prepared]
    omega
  have hahead : ∃ before, before <+: ((commitFrames cfg (ScanLoop.start cfg dir restored)
      (chain.prepared (scanStart cfg restored)
        (cfg.maxEnd best + 1 - scanStart cfg restored))).1.finish cfg).effects ∧
      ¬ Committed file dir before := by
    by_cases hevery : cfg.checkpoints.every = 0
    · rw [not_and] at hcond
      have hreach := hcond hevery
      push Not at hreach
      obtain ⟨entry, hentry, checkpoint, hcontent, hheight⟩ := hreach
      have hheights := Chain.heights_prepared chain (scanStart cfg restored)
        (cfg.maxEnd best + 1 - scanStart cfg restored)
      rw [show cfg.maxEnd best + 1 - scanStart cfg restored =
        cfg.maxEnd best - scanStart cfg restored + 1 by omega] at hheights hlast hne hdone ⊢
      refine hlast.uncommitted_of_reached hne hdone ?_ hcontent hheights hheight
      cases restored <;> exact hentry
    · have hwrites : cfg.checkpoints.writes = true := by
        simp only [CheckpointConfig.writes, henabled, Bool.true_and, decide_eq_true_eq]
        omega
      have hcount : (ScanLoop.start cfg dir restored).processedSinceCheckpoint < cfg.checkpoints.every := by
        cases restored <;> exact Nat.pos_of_ne_zero hevery
      exact hlast.uncommitted_of_saved hne hdone hwrites hcount
  obtain ⟨before, hbefore, hahead⟩ := hahead
  exact hahead (hall before hbefore)

end

end

/-! ## On the sample chain -/

section
attribute [local instance] sampleSha256

theorem csv_committed_sample :
    (emittedRows (scan (sampleChain.source 6) (sampleConfig 0 1 0) []).effects).length = 1 ∧
    ∀ before, before <+: (scan (sampleChain.source 6) (sampleConfig 0 1 0) []).effects →
      Committed [] [] before := by
  refine ⟨by decide +kernel, ?_⟩
  exact (csv_committed_iff (sampleChain.serves_source 6) .empty rfl (resumedFrom_nil rfl)
      ⟨.inl ⟨rfl, rfl⟩, fun _ h => absurd h List.not_mem_nil⟩ fun _ => rfl).1
    (.inr (.inr ⟨rfl, fun _ h => absurd h List.not_mem_nil⟩))

/-- A checkpoint is there, and the file of the rows is empty. -/
def rowLost (file : List Char) (dir : CheckpointDir) (effects : List ScanEffect) : Bool :=
  (effects.foldl CheckpointDir.apply dir).any fun entry => entry.content.any fun checkpoint =>
    (emittedRows effects).any fun row =>
      decide (row.height ≤ checkpoint.height) && (csvAfter file effects).file.isEmpty

theorem rowLost_uncommitted {file : List Char} {dir : CheckpointDir} {effects : List ScanEffect}
    (h : rowLost file dir effects = true) : ¬ Committed file dir effects := by
  intro hcommitted
  obtain ⟨entry, hentry, h⟩ := List.any_eq_true.mp h
  obtain ⟨checkpoint, hcontent, h⟩ := (Option.any_eq_true _ _).mp h
  obtain ⟨row, hrow, h⟩ := List.any_eq_true.mp h
  rw [Bool.and_eq_true, decide_eq_true_eq, List.isEmpty_iff] at h
  have hmem := hcommitted entry hentry checkpoint hcontent row hrow h.1
  rw [h.2] at hmem
  exact absurd hmem List.not_mem_nil

/-- A scan of one block is stopped right after its checkpoint: the file is still empty. -/
theorem checkpoint_before_row :
    ¬ ∀ before, before <+: (scan (sampleChain.source 6) (sampleConfig 0 1 1) []).effects →
      Committed [] [] before := by
  intro hall
  have hlost : rowLost [] [] ((scan (sampleChain.source 6) (sampleConfig 0 1 1) []).effects.take 2) =
      true := by decide +kernel
  exact rowLost_uncommitted hlost (hall _ (List.take_prefix 2 _))

end

end BitcoinData.Stats
