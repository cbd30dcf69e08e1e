import BitcoinData.Spec.Stats.Resume

/-! What the effects of a scan can be. Whatever its source answers and wherever it is
stopped, a scan has processed some blocks in order: it has emitted the row of each, and
every checkpoint holds the state after the last of them. -/

namespace BitcoinData.Stats

open Lib

variable [Sha256] {window : ℕ}

/-! ## Blocks -/

theorem runBlocks_append (state : StatsScannerState) (xs ys : List PreparedBlockFrame) :
    runBlocks window state (xs ++ ys) =
      match runBlocks window state xs with
      | (rows, .ok state) =>
        (rows ++ (runBlocks window state ys).1, (runBlocks window state ys).2)
      | (rows, .error e) => (rows, .error e) := by
  induction xs generalizing state with
  | nil => rfl
  | cons frame xs ih =>
    rw [List.cons_append, runBlocks, runBlocks]
    cases processBlock window state frame with
    | error e => rfl
    | ok out =>
      simp only [ih]
      rcases runBlocks window out.1 xs with ⟨rows, _ | state⟩ <;> rfl

theorem runBlocks_snoc {state s s' : StatsScannerState} {frames : List PreparedBlockFrame}
    {rows : List BlockStats} {frame : PreparedBlockFrame} {row : BlockStats}
    (h : runBlocks window state frames = (rows, .ok s))
    (hblock : processBlock window s frame = .ok (s', row)) :
    runBlocks window state (frames ++ [frame]) = (rows ++ [row], .ok s') := by
  rw [runBlocks_append, h]
  simp [runBlocks, hblock]

theorem processBlock_height {state s' : StatsScannerState} {frame : PreparedBlockFrame}
    {row : BlockStats} (h : processBlock window state frame = .ok (s', row)) :
    row.height = frame.height := by
  unfold processBlock PerBlock.measureSortedUidEncoding at h
  simp only [bind_eq_ok, pure_eq_ok, Except.ok.injEq] at h
  obtain ⟨_, ⟨_, _, ⟨_, _, rfl⟩⟩, heq⟩ := h
  rw [Prod.mk.injEq] at heq
  obtain ⟨_, rfl⟩ := heq
  rfl

theorem runBlocks_heights (state : StatsScannerState) (frames : List PreparedBlockFrame) :
    (runBlocks window state frames).1.map (·.height) <+: frames.map (·.height) := by
  induction frames generalizing state with
  | nil => exact List.prefix_refl _
  | cons frame frames ih =>
    rw [runBlocks]
    cases hblock : processBlock window state frame with
    | error e => exact List.nil_prefix
    | ok out =>
      rw [List.map_cons, List.map_cons, processBlock_height hblock]
      exact (List.prefix_cons_inj _).mpr (ih out.1)

theorem runBlocks_heights_ok {state s : StatsScannerState} {frames : List PreparedBlockFrame}
    {rows : List BlockStats} (h : runBlocks window state frames = (rows, .ok s)) :
    rows.map (·.height) = frames.map (·.height) := by
  induction frames generalizing state rows with
  | nil =>
    rw [runBlocks, Prod.mk.injEq] at h
    rw [← h.1]
    rfl
  | cons frame frames ih =>
    rw [runBlocks] at h
    cases hblock : processBlock window state frame with
    | error e =>
      rw [hblock] at h
      cases h
    | ok out =>
      rw [hblock] at h
      dsimp only at h
      rcases hrest : runBlocks window out.1 frames with ⟨rest, result⟩
      rw [hrest, Prod.mk.injEq] at h
      obtain ⟨rfl, rfl⟩ := h
      rw [List.map_cons, List.map_cons, processBlock_height hblock, ih hrest]

/-! ## Effects -/

/-- The effects of a scan from `start`, up to any point, with the blocks it has processed and
its state. -/
inductive ScanPath (cfg : ScanConfig) (start : StatsScannerState) :
    List PreparedBlockFrame → List ScanEffect → StatsScannerState → Prop
  | nil : ScanPath cfg start [] [] start
  | block {frames effects state frame state' row} :
    ScanPath cfg start frames effects state →
    processBlock cfg.utxoHashWindow state frame = .ok (state', row) →
    ScanPath cfg start (frames ++ [frame]) (effects ++ [.emitBlock row]) state'
  | save {frames frame effects state} :
    ScanPath cfg start (frames ++ [frame]) effects state →
    ScanPath cfg start (frames ++ [frame])
      (effects ++ [.saveCheckpoint (makeCheckpoint cfg state frame.height frame.hash)]) state
  | rollback {effects state} (height : ℕ) :
    ScanPath cfg start [] effects state →
    ScanPath cfg start [] (effects ++ [.rollbackToHeight height]) state
  | remove {frames effects state} (name : List Char) :
    ScanPath cfg start frames effects state →
    ScanPath cfg start frames (effects ++ [.removeCheckpoint name]) state
  | emitRun {frames effects state} (stats : RunStats) :
    ScanPath cfg start frames effects state →
    ScanPath cfg start frames (effects ++ [.emitRun stats]) state
  | flush {frames effects state} :
    ScanPath cfg start frames effects state →
    ScanPath cfg start frames (effects ++ [.flush]) state

variable {cfg : ScanConfig} {start state : StatsScannerState} {frames : List PreparedBlockFrame}
  {effects : List ScanEffect}

omit [Sha256] in
theorem emittedRows_append (xs ys : List ScanEffect) :
    emittedRows (xs ++ ys) = emittedRows xs ++ emittedRows ys :=
  List.filterMap_append

/-- The rows and the state are those of the blocks alone. -/
theorem ScanPath.run (h : ScanPath cfg start frames effects state) :
    runBlocks cfg.utxoHashWindow start frames = (emittedRows effects, .ok state) := by
  induction h with
  | nil => rfl
  | block _ hblock ih =>
    rw [emittedRows_append]
    exact runBlocks_snoc ih hblock
  | save _ ih => rw [emittedRows_append, ih]; simp [emittedRows]
  | rollback _ _ ih => rw [emittedRows_append, ih]; simp [emittedRows]
  | remove _ _ ih => rw [emittedRows_append, ih]; simp [emittedRows]
  | emitRun _ _ ih => rw [emittedRows_append, ih]; simp [emittedRows]
  | flush _ ih => rw [emittedRows_append, ih]; simp [emittedRows]

theorem ScanPath.take (h : ScanPath cfg start frames effects state) {before : List ScanEffect}
    (hpre : before <+: effects) :
    ∃ frames' state', frames' <+: frames ∧ ScanPath cfg start frames' before state' := by
  -- either the prefix is all of the effects, or it ends before the last of them
  have hsplit : ∀ {l : List ScanEffect} {e : ScanEffect}, before <+: l ++ [e] →
      before = l ++ [e] ∨ before <+: l := fun hp => by
    rcases List.prefix_concat_iff.mp hp with h | h
    · exact .inl h
    · exact .inr h
  induction h with
  | nil =>
    rw [List.prefix_nil] at hpre
    subst hpre
    exact ⟨[], start, List.prefix_refl _, .nil⟩
  | block hpath hblock ih =>
    rcases hsplit hpre with rfl | hpre
    · exact ⟨_, _, List.prefix_refl _, hpath.block hblock⟩
    · obtain ⟨frames', state', hfr, hp⟩ := ih hpre
      exact ⟨frames', state', hfr.trans (List.prefix_append _ _), hp⟩
  | save hpath ih =>
    rcases hsplit hpre with rfl | hpre
    · exact ⟨_, _, List.prefix_refl _, hpath.save⟩
    · exact ih hpre
  | rollback height hpath ih =>
    rcases hsplit hpre with rfl | hpre
    · exact ⟨_, _, List.prefix_refl _, hpath.rollback height⟩
    · exact ih hpre
  | remove name hpath ih =>
    rcases hsplit hpre with rfl | hpre
    · exact ⟨_, _, List.prefix_refl _, hpath.remove name⟩
    · exact ih hpre
  | emitRun stats hpath ih =>
    rcases hsplit hpre with rfl | hpre
    · exact ⟨_, _, List.prefix_refl _, hpath.emitRun stats⟩
    · exact ih hpre
  | flush hpath ih =>
    rcases hsplit hpre with rfl | hpre
    · exact ⟨_, _, List.prefix_refl _, hpath.flush⟩
    · exact ih hpre

/-- A checkpoint is saved after a block and holds the state there. -/
theorem ScanPath.save_inv {checkpoint : StatsCheckpoint}
    (h : ScanPath cfg start frames (effects ++ [.saveCheckpoint checkpoint]) state) :
    ∃ init last, frames = init ++ [last] ∧ ScanPath cfg start frames effects state ∧
      checkpoint = makeCheckpoint cfg state last.height last.hash := by
  generalize heq : effects ++ [ScanEffect.saveCheckpoint checkpoint] = all at h
  cases h with
  | nil => simp at heq
  | save hpath =>
    obtain ⟨rfl, hlast⟩ := List.append_inj' heq rfl
    rw [List.cons.injEq, ScanEffect.saveCheckpoint.injEq] at hlast
    exact ⟨_, _, rfl, hpath, hlast.1⟩
  | block hpath hblock => exact absurd (List.append_inj' heq rfl).2 (by simp)
  | rollback height hpath => exact absurd (List.append_inj' heq rfl).2 (by simp)
  | remove name hpath => exact absurd (List.append_inj' heq rfl).2 (by simp)
  | emitRun stats hpath => exact absurd (List.append_inj' heq rfl).2 (by simp)
  | flush hpath => exact absurd (List.append_inj' heq rfl).2 (by simp)

omit [Sha256] in
theorem exists_saved {effects : List ScanEffect} (h : effects.any (·.checkpoint?.isSome) = true) :
    ∃ before checkpoint, before ++ [.saveCheckpoint checkpoint] <+: effects := by
  obtain ⟨effect, hmem, hsome⟩ := List.any_eq_true.mp h
  obtain ⟨before, after, rfl⟩ := List.append_of_mem hmem
  cases effect with
  | saveCheckpoint checkpoint => exact ⟨before, checkpoint, after, by simp⟩
  | _ => cases hsome

/-! ## The loop -/

omit [Sha256] in
theorem foldl_perform (todo : List ScanEffect) (loop : ScanLoop) :
    todo.foldl ScanLoop.perform loop =
      { loop with dir := todo.foldl CheckpointDir.apply loop.dir, effects := loop.effects ++ todo } := by
  induction todo generalizing loop with
  | nil => simp
  | cons effect todo ih => simp [ih, ScanLoop.perform]

def checkpointEffects (dir : CheckpointDir) (keep : ℕ) (checkpoint : StatsCheckpoint) :
    List ScanEffect :=
  .saveCheckpoint checkpoint :: ((dir.save checkpoint).pruned keep).map ScanEffect.removeCheckpoint

omit [Sha256] in
theorem writeCheckpoint_eq (loop : ScanLoop) (config : CheckpointConfig)
    (checkpoint : StatsCheckpoint) :
    loop.writeCheckpoint config checkpoint =
      (checkpointEffects loop.dir config.keep checkpoint).foldl ScanLoop.perform loop :=
  rfl

theorem commitFrame_error {loop : ScanLoop} {frame : PreparedBlockFrame} {e : String}
    (h : processBlock cfg.utxoHashWindow loop.state frame = .error e) :
    commitFrame cfg loop frame = .error e := by
  rw [commitFrame, h]
  rfl

omit [Sha256] in
/-- The checkpoint that may be due after a block. -/
def dueEffects (cfg : ScanConfig) (loop : ScanLoop) (frame : PreparedBlockFrame)
    (state : StatsScannerState) : List ScanEffect :=
  if (cfg.checkpoints.onCommittedBlock loop.processedSinceCheckpoint).1 then
    checkpointEffects loop.dir cfg.checkpoints.keep (makeCheckpoint cfg state frame.height frame.hash)
  else []

/-- The loop after a block. -/
def committed (cfg : ScanConfig) (loop : ScanLoop) (frame : PreparedBlockFrame)
    (state : StatsScannerState) (row : BlockStats) : ScanLoop :=
  { state
    processedSinceCheckpoint := (cfg.checkpoints.onCommittedBlock loop.processedSinceCheckpoint).2
    lastCommitted := some (frame.height, frame.hash)
    dir := (dueEffects cfg loop frame state).foldl CheckpointDir.apply loop.dir
    effects := loop.effects ++ .emitBlock row :: dueEffects cfg loop frame state }

theorem commitFrame_ok {loop : ScanLoop} {frame : PreparedBlockFrame} {row : BlockStats}
    (h : processBlock cfg.utxoHashWindow loop.state frame = .ok (state, row)) :
    commitFrame cfg loop frame = .ok (committed cfg loop frame state row) := by
  rw [commitFrame, h, ok_bind]
  dsimp only
  unfold committed dueEffects
  split_ifs with hdue
  · rw [writeCheckpoint_eq, foldl_perform]
    simp [ScanLoop.perform, CheckpointDir.apply]
  · simp [ScanLoop.perform, CheckpointDir.apply]

omit [Sha256] in
theorem emittedRows_checkpointEffects (dir : CheckpointDir) (keep : ℕ) (checkpoint : StatsCheckpoint) :
    emittedRows (checkpointEffects dir keep checkpoint) = [] := by
  simp [emittedRows, checkpointEffects, List.filterMap_map]

omit [Sha256] in
theorem committed_rows (loop : ScanLoop) (frame : PreparedBlockFrame) (state : StatsScannerState)
    (row : BlockStats) : emittedRows (committed cfg loop frame state row).effects =
      emittedRows loop.effects ++ [row] := by
  unfold committed dueEffects
  rw [emittedRows_append]
  split_ifs
  · rw [emittedRows, emittedRows, List.filterMap_cons]
    exact congrArg (fun rows => _ ++ row :: rows) (emittedRows_checkpointEffects _ _ _)
  · simp [emittedRows]

omit [Sha256] in
theorem finish_rows (loop : ScanLoop) (cfg : ScanConfig) :
    emittedRows (loop.finish cfg).effects = emittedRows loop.effects := by
  have hend : ∀ l : ScanLoop, emittedRows ((l.perform (.emitRun l.state.stats)).perform .flush).effects =
      emittedRows l.effects := fun l => by simp [ScanLoop.perform, emittedRows]
  unfold ScanLoop.finish
  rw [hend]
  split_ifs
  · split
    · rw [writeCheckpoint_eq, foldl_perform, emittedRows_append, emittedRows_checkpointEffects,
        List.append_nil]
    · rfl
  · rfl

/-- A loop that has come along a path. -/
structure OnPath (cfg : ScanConfig) (start : StatsScannerState) (frames : List PreparedBlockFrame)
    (loop : ScanLoop) : Prop where
  path : ScanPath cfg start frames loop.effects loop.state
  lastCommitted : loop.lastCommitted = frames.getLast?.map fun frame => (frame.height, frame.hash)

theorem OnPath.writeCheckpoint {loop : ScanLoop} {frame : PreparedBlockFrame}
    (h : OnPath cfg start (frames ++ [frame]) loop) (config : CheckpointConfig) :
    OnPath cfg start (frames ++ [frame])
      (loop.writeCheckpoint config (makeCheckpoint cfg loop.state frame.height frame.hash)) := by
  have hremoves : ∀ (names : List (List Char)) (l : ScanLoop), OnPath cfg start (frames ++ [frame]) l →
      OnPath cfg start (frames ++ [frame])
        ((names.map ScanEffect.removeCheckpoint).foldl ScanLoop.perform l) := by
    intro names
    induction names with
    | nil => exact fun l h => h
    | cons name names ih => exact fun l h => ih _ ⟨h.path.remove name, h.lastCommitted⟩
  exact hremoves _ _ ⟨h.path.save, h.lastCommitted⟩

theorem OnPath.commitFrame {loop loop' : ScanLoop} {frame : PreparedBlockFrame}
    (h : OnPath cfg start frames loop) (hcommit : commitFrame cfg loop frame = .ok loop') :
    OnPath cfg start (frames ++ [frame]) loop' := by
  simp only [Stats.commitFrame, bind_eq_ok] at hcommit
  obtain ⟨⟨state, row⟩, hblock, hloop⟩ := hcommit
  have hemitted := h.path.block hblock
  have hlast : (frames ++ [frame]).getLast? = some frame := by simp
  dsimp only at hloop
  split_ifs at hloop with hdue
  · rw [pure_eq_ok, Except.ok.injEq] at hloop
    rw [← hloop]
    exact OnPath.writeCheckpoint ⟨hemitted, by rw [hlast]; rfl⟩ cfg.checkpoints
  · rw [pure_eq_ok, Except.ok.injEq] at hloop
    rw [← hloop]
    exact ⟨hemitted, by rw [hlast]; rfl⟩

theorem OnPath.commitFrames {loop : ScanLoop} (h : OnPath cfg start frames loop)
    (batch : List PreparedBlockFrame) :
    ∃ done, done <+: batch ∧ OnPath cfg start (frames ++ done) (commitFrames cfg loop batch).1 ∧
      ((commitFrames cfg loop batch).2 = .ok () → done = batch) := by
  induction batch generalizing frames loop with
  | nil => exact ⟨[], List.prefix_refl _, by simpa [Stats.commitFrames] using h, fun _ => rfl⟩
  | cons frame batch ih =>
    rw [Stats.commitFrames]
    cases hcommit : Stats.commitFrame cfg loop frame with
    | error e => exact ⟨[], List.nil_prefix, by simpa using h, by simp⟩
    | ok loop' =>
      obtain ⟨done, hdone, hpath, hall⟩ := ih (h.commitFrame hcommit)
      refine ⟨frame :: done, (List.prefix_cons_inj _).mpr hdone, ?_, fun hok => ?_⟩
      · simpa using hpath
      · rw [hall hok]

theorem OnPath.scanBatches {loop : ScanLoop} (h : OnPath cfg start frames loop)
    (source : BlockSource) (maxEnd fuel nextHeight : ℕ) :
    ∃ done, OnPath cfg start (frames ++ done) (scanBatches source cfg maxEnd fuel nextHeight loop).1 := by
  induction fuel generalizing nextHeight frames loop with
  | zero => exact ⟨[], by simpa [Stats.scanBatches] using h⟩
  | succ fuel ih =>
    rw [Stats.scanBatches]
    split_ifs with hnext
    · cases hbatch : fetchAndPrepareBatch source nextHeight
          (min (maxEnd - nextHeight + 1) (max cfg.sourceBatchSize 1)) with
      | error e => exact ⟨[], by simpa [hbatch] using h⟩
      | ok batch =>
        obtain ⟨done, -, hpath, -⟩ := h.commitFrames batch
        simp only [hbatch]
        rcases hres : Stats.commitFrames cfg loop batch with ⟨loop', _ | _⟩
        · exact ⟨done, by simpa [hres] using hpath⟩
        · rw [hres] at hpath
          obtain ⟨more, hmore⟩ := ih hpath (nextHeight +
            min (maxEnd - nextHeight + 1) (max cfg.sourceBatchSize 1))
          exact ⟨done ++ more, by simpa using hmore⟩
    · exact ⟨[], by simpa using h⟩

theorem OnPath.finish {loop : ScanLoop} (h : OnPath cfg start frames loop) :
    ScanPath cfg start frames (loop.finish cfg).effects loop.state := by
  unfold ScanLoop.finish
  split_ifs with hflush
  · rcases List.eq_nil_or_concat' frames with rfl | ⟨init, last, rfl⟩
    · simp only [h.lastCommitted, List.getLast?_nil, Option.map_none]
      exact (h.path.emitRun _).flush
    · have hlast : loop.lastCommitted = some (last.height, last.hash) := by simp [h.lastCommitted]
      have hsaved := h.writeCheckpoint cfg.checkpoints
      have hstate : (loop.writeCheckpoint cfg.checkpoints
          (makeCheckpoint cfg loop.state last.height last.hash)).state = loop.state := by
        rw [writeCheckpoint_eq, foldl_perform]
      have hpath := (hsaved.path.emitRun loop.state.stats).flush
      rw [hstate] at hpath
      simpa only [hlast, ScanLoop.perform, hstate] using hpath
  · exact (h.path.emitRun _).flush

/-- The state a scan starts from. -/
def startState (cfg : ScanConfig) : Option StatsCheckpoint → StatsScannerState
  | some checkpoint => checkpoint.scannerState
  | none => .new cfg.utxoHashWindow

omit [Sha256] in
theorem start_state (dir : CheckpointDir) (restored : Option StatsCheckpoint) :
    (ScanLoop.start cfg dir restored).state = startState cfg restored := by
  cases restored <;> rfl

theorem onPath_start (dir : CheckpointDir) (restored : Option StatsCheckpoint) :
    OnPath cfg (startState cfg restored) [] (ScanLoop.start cfg dir restored) := by
  cases restored with
  | none => exact ⟨.nil, rfl⟩
  | some checkpoint => exact ⟨ScanPath.nil.rollback checkpoint.height, rfl⟩

/-- Whatever the source answers, the effects of a scan are a path. -/
theorem scanFrom_path (source : BlockSource) (dir : CheckpointDir) (maxEnd : ℕ)
    (restored : Option StatsCheckpoint) :
    ∃ frames state, ScanPath cfg (startState cfg restored) frames
        (scanFrom source cfg dir maxEnd restored).effects state ∧
      ∀ s, (scanFrom source cfg dir maxEnd restored).result = .ok s → s = state := by
  have hstart : OnPath cfg _ [] (ScanLoop.start cfg dir restored) := onPath_start dir restored
  unfold scanFrom
  dsimp only
  split_ifs with hend
  · refine ⟨[], _, hstart.path, fun s hs => (Except.ok.inj hs).symm⟩
  · obtain ⟨done, hdone⟩ := hstart.scanBatches source maxEnd
      (maxEnd + 1 - scanStart cfg restored) (scanStart cfg restored)
    rcases hres : scanBatches source cfg maxEnd (maxEnd + 1 - scanStart cfg restored)
      (scanStart cfg restored) (ScanLoop.start cfg dir restored) with ⟨loop, _ | _⟩
    · rw [hres] at hdone
      exact ⟨_, _, hdone.path, fun s hs => absurd hs (by simp)⟩
    · rw [hres] at hdone
      exact ⟨_, _, hdone.finish, fun s hs => (Except.ok.inj hs).symm⟩

omit [Sha256] in
theorem resumedFrom_nil {source : BlockSource} {tipHeight : ℕ}
    (h : source.getBestHeight = .ok tipHeight) : resumedFrom source cfg [] = .ok none := by
  unfold resumedFrom
  rw [h, ok_bind]
  split_ifs
  · rfl
  · simp [restoreNewestValidCheckpoint, CheckpointDir.listNewestFirst, restoreFrom]
  · rfl

theorem scan_eq {source : BlockSource} {dir : CheckpointDir} {restored : Option StatsCheckpoint}
    (h : resumedFrom source cfg dir = .ok restored) :
    ∃ tipHeight, source.getBestHeight = .ok tipHeight ∧
      (cfg.safeHeight tipHeight < cfg.start ∧ restored = none ∧
          scan source cfg dir = ⟨[], .ok (.new cfg.utxoHashWindow)⟩ ∨
        cfg.start ≤ cfg.safeHeight tipHeight ∧
          scan source cfg dir = scanFrom source cfg dir (cfg.maxEnd tipHeight) restored) := by
  unfold resumedFrom at h
  rw [bind_eq_ok] at h
  obtain ⟨tipHeight, hbest, h⟩ := h
  refine ⟨tipHeight, hbest, ?_⟩
  unfold scan
  simp only [hbest]
  split_ifs at h ⊢ with hsafe henabled
  · exact .inl ⟨hsafe, (Except.ok.inj h).symm, rfl⟩
  · exact .inr ⟨not_lt.mp hsafe, by simp only [h]⟩
  · rw [pure_eq_ok, Except.ok.injEq] at h
    exact .inr ⟨not_lt.mp hsafe, by rw [h]⟩

theorem scan_of_not_resumed {source : BlockSource} {dir : CheckpointDir} {e : String}
    (h : resumedFrom source cfg dir = .error e) : scan source cfg dir = ⟨[], .error e⟩ := by
  unfold scan
  unfold resumedFrom at h
  cases hbest : source.getBestHeight with
  | error e' =>
    rw [hbest] at h
    obtain rfl := Except.error.inj h
    rfl
  | ok tipHeight =>
    rw [hbest, ok_bind] at h
    dsimp only
    split_ifs at h ⊢ with hsafe henabled
    · cases h
    · rw [h]
    · cases h

theorem resumedFrom_of_effects {source : BlockSource} {dir : CheckpointDir}
    (h : (scan source cfg dir).effects ≠ []) : ∃ restored, resumedFrom source cfg dir = .ok restored := by
  cases hresume : resumedFrom source cfg dir with
  | ok restored => exact ⟨restored, rfl⟩
  | error e =>
    rw [scan_of_not_resumed hresume] at h
    exact absurd rfl h

theorem scan_path {source : BlockSource} {dir : CheckpointDir} {restored : Option StatsCheckpoint}
    (h : resumedFrom source cfg dir = .ok restored) :
    ∃ frames state, ScanPath cfg (startState cfg restored) frames (scan source cfg dir).effects state ∧
      ∀ s, (scan source cfg dir).result = .ok s → s = state := by
  obtain ⟨tipHeight, -, ⟨-, rfl, hscan⟩ | ⟨-, hscan⟩⟩ := scan_eq h
  · rw [hscan]
    exact ⟨[], _, .nil, fun s hs => (Except.ok.inj hs).symm⟩
  · rw [hscan]
    exact scanFrom_path source dir _ restored

end BitcoinData.Stats
