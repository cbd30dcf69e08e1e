import BitcoinData.Sanity.Stats.Directory
import BitcoinData.Spec.Stats.Csv

/-! Pruning never reaches the newest checkpoint: whatever a scan removes, a file of a later name
stays. -/

namespace BitcoinData.Stats

open Lib

/-! ## Names -/

/-- No two files have one name. -/
def UniqueNames (dir : CheckpointDir) : Prop := (dir.map (·.name)).Nodup

theorem UniqueNames.filter {dir : CheckpointDir} (h : UniqueNames dir) (p : CheckpointFile → Bool) :
    UniqueNames (dir.filter p) :=
  h.sublist (List.filter_sublist.map _)

theorem UniqueNames.apply {dir : CheckpointDir} (h : UniqueNames dir) (effect : ScanEffect) :
    UniqueNames (dir.apply effect) := by
  cases effect with
  | saveCheckpoint checkpoint =>
    have hrest := h.filter fun file => file.name ≠ checkpointName checkpoint.height checkpoint.blockHash
    unfold UniqueNames CheckpointDir.apply CheckpointDir.save
    rw [List.map_append, List.nodup_append]
    refine ⟨hrest, List.nodup_singleton _, ?_⟩
    intro name hname other hother heq
    obtain ⟨file, hfile, rfl⟩ := List.mem_map.mp hname
    have hne := (List.mem_filter.mp hfile).2
    rw [List.map_singleton, List.mem_singleton] at hother
    rw [heq, hother] at hne
    simp at hne
  | removeCheckpoint name => exact h.filter _
  | rollbackToHeight height => exact h
  | emitBlock row => exact h
  | emitRun stats => exact h
  | flush => exact h

theorem UniqueNames.foldl {dir : CheckpointDir} (h : UniqueNames dir) (effects : List ScanEffect) :
    UniqueNames (effects.foldl CheckpointDir.apply dir) := by
  induction effects generalizing dir with
  | nil => exact h
  | cons effect effects ih => exact ih (h.apply effect)

/-! ## Removed files -/

/-- Every file that is removed leaves one of a later name behind. -/
def PrunesBelow : CheckpointDir → List ScanEffect → Prop
  | _, [] => True
  | dir, effect :: effects =>
    (∀ name, effect = .removeCheckpoint name → ∃ file ∈ dir, file.name ≠ name ∧ name ≤ file.name) ∧
      PrunesBelow (dir.apply effect) effects

theorem prunesBelow_append (dir : CheckpointDir) (xs ys : List ScanEffect) :
    PrunesBelow dir (xs ++ ys) ↔
      PrunesBelow dir xs ∧ PrunesBelow (xs.foldl CheckpointDir.apply dir) ys := by
  induction xs generalizing dir with
  | nil => simp [PrunesBelow]
  | cons effect xs ih => simp only [List.cons_append, PrunesBelow, List.foldl_cons, ih, and_assoc]

/-- So no name of the directory is lost but for a later one. -/
theorem PrunesBelow.covers {dir : CheckpointDir} {effects : List ScanEffect} (h : PrunesBelow dir effects)
    {file : CheckpointFile} (hfile : file ∈ dir) :
    ∃ later ∈ effects.foldl CheckpointDir.apply dir, file.name ≤ later.name := by
  induction effects generalizing dir file with
  | nil => exact ⟨file, hfile, le_rfl⟩
  | cons effect effects ih =>
    obtain ⟨hhead, htail⟩ := h
    have hstep : ∃ next ∈ dir.apply effect, file.name ≤ next.name := by
      cases effect with
      | saveCheckpoint checkpoint =>
        by_cases hname : file.name = checkpointName checkpoint.height checkpoint.blockHash
        · exact ⟨_, List.mem_append_right _ (List.mem_singleton_self _), hname.le⟩
        · exact ⟨file, List.mem_append_left _ (List.mem_filter.mpr ⟨hfile, by simpa using hname⟩), le_rfl⟩
      | removeCheckpoint name =>
        by_cases hname : file.name = name
        · obtain ⟨later, hlater, hne, hle⟩ := hhead name rfl
          exact ⟨later, List.mem_filter.mpr ⟨hlater, by simpa using hne⟩, hname.le.trans hle⟩
        · exact ⟨file, List.mem_filter.mpr ⟨hfile, by simpa using hname⟩, le_rfl⟩
      | rollbackToHeight height => exact ⟨file, hfile, le_rfl⟩
      | emitBlock row => exact ⟨file, hfile, le_rfl⟩
      | emitRun stats => exact ⟨file, hfile, le_rfl⟩
      | flush => exact ⟨file, hfile, le_rfl⟩
    obtain ⟨next, hnext, hle⟩ := hstep
    obtain ⟨later, hlater, hle'⟩ := ih htail hnext
    exact ⟨later, hlater, hle.trans hle'⟩

theorem prunesBelow_removes {dir : CheckpointDir} {newest : CheckpointFile} (hnewest : newest ∈ dir)
    (names : List (List Char)) (h : ∀ name ∈ names, newest.name ≠ name ∧ name ≤ newest.name) :
    PrunesBelow dir (names.map ScanEffect.removeCheckpoint) := by
  induction names generalizing dir with
  | nil => trivial
  | cons name names ih =>
    obtain ⟨hne, hle⟩ := h name List.mem_cons_self
    refine ⟨?_, ih (List.mem_filter.mpr ⟨hnewest, by simpa using hne⟩) fun n hn =>
      h n (List.mem_cons_of_mem _ hn)⟩
    intro removed hremoved
    rw [ScanEffect.removeCheckpoint.injEq] at hremoved
    exact ⟨newest, hnewest, hremoved ▸ hne, hremoved ▸ hle⟩

theorem mem_listNewestFirst {dir : CheckpointDir} {file : CheckpointFile} :
    file ∈ dir.listNewestFirst ↔ file ∈ dir ∧ isCheckpointName file.name = true := by
  rw [CheckpointDir.listNewestFirst, List.mem_reverse, List.mem_insertionSort, List.mem_filter]

theorem listNewestFirst_sorted (dir : CheckpointDir) :
    dir.listNewestFirst.Pairwise fun a b => b.name ≤ a.name := by
  unfold CheckpointDir.listNewestFirst
  rw [List.pairwise_reverse]
  exact List.pairwise_insertionSort (fun a b : CheckpointFile => a.name ≤ b.name) _

/-- `prune_checkpoints` keeps the newest file. -/
theorem pruned_below {dir : CheckpointDir} (h : UniqueNames dir) (keep : ℕ) :
    PrunesBelow dir ((dir.pruned keep).map ScanEffect.removeCheckpoint) := by
  unfold CheckpointDir.pruned
  dsimp only
  split_ifs with hkeep hfew
  · trivial
  · trivial
  · have hunique : (dir.listNewestFirst.map (·.name)).Nodup := by
      have hfiltered := h.filter fun file => isCheckpointName file.name
      unfold CheckpointDir.listNewestFirst
      rw [List.map_reverse, List.nodup_reverse]
      exact ((List.perm_insertionSort (fun a b : CheckpointFile => a.name ≤ b.name) _).map _).nodup_iff.mpr
        hfiltered
    have hsorted := listNewestFirst_sorted dir
    have hmem : ∀ file ∈ dir.listNewestFirst, file ∈ dir := fun file hfile =>
      (mem_listNewestFirst.mp hfile).1
    generalize dir.listNewestFirst = files at hunique hsorted hmem hfew ⊢
    cases files with
    | nil => simp at hfew
    | cons newest older =>
      rw [List.map_cons, List.nodup_cons] at hunique
      rw [List.pairwise_cons] at hsorted
      apply prunesBelow_removes (hmem newest List.mem_cons_self)
      -- at least one is kept, so the names are among the older ones
      intro name hname
      obtain ⟨file, hfile, rfl⟩ := List.mem_map.mp hname
      have holder : file ∈ older := by
        rw [List.reverse_cons, List.take_append_of_le_length] at hfile
        · exact List.mem_reverse.mp (List.mem_of_mem_take hfile)
        · rw [List.length_reverse, List.length_cons]
          omega
      refine ⟨fun heq => hunique.1 ?_, hsorted.1 file holder⟩
      rw [heq]
      exact List.mem_map_of_mem holder

theorem checkpointEffects_below {dir : CheckpointDir} (h : UniqueNames dir) (keep : ℕ)
    (checkpoint : StatsCheckpoint) : PrunesBelow dir (checkpointEffects dir keep checkpoint) := by
  refine ⟨fun name hname => ?_, pruned_below (h.apply (.saveCheckpoint checkpoint)) keep⟩
  cases hname

/-! ## The loop -/

/-- What the loop does after its start: it never rolls back, and prunes below. -/
structure Continues (loop loop' : ScanLoop) (more : List ScanEffect) : Prop where
  effects : loop'.effects = loop.effects ++ more
  dir : loop'.dir = more.foldl CheckpointDir.apply loop.dir
  forward : ∀ effect ∈ more, effect.isRollback = false
  below : UniqueNames loop.dir → PrunesBelow loop.dir more

section
variable {loop loop' loop'' : ScanLoop} {more more' : List ScanEffect}

theorem Continues.refl (loop : ScanLoop) : Continues loop loop [] :=
  ⟨(List.append_nil _).symm, rfl, fun _ h => absurd h List.not_mem_nil, fun _ => trivial⟩

theorem Continues.trans (h : Continues loop loop' more) (h' : Continues loop' loop'' more') :
    Continues loop loop'' (more ++ more') where
  effects := by rw [h'.effects, h.effects, List.append_assoc]
  dir := by rw [h'.dir, h.dir, List.foldl_append]
  forward effect heffect := (List.mem_append.mp heffect).elim (h.forward effect) (h'.forward effect)
  below hunique := by
    rw [prunesBelow_append]
    refine ⟨h.below hunique, ?_⟩
    have hbelow := h'.below
    rw [h.dir] at hbelow
    exact hbelow (hunique.foldl more)

theorem Continues.perform (loop : ScanLoop) {effect : ScanEffect} (hforward : effect.isRollback = false)
    (hkeeps : ∀ name, effect ≠ .removeCheckpoint name) : Continues loop (loop.perform effect) [effect] where
  effects := rfl
  dir := rfl
  forward e he := by
    rw [List.mem_singleton] at he
    rw [he, hforward]
  below _ := ⟨fun name hname => absurd hname (hkeeps name), trivial⟩

theorem Continues.writeCheckpoint (loop : ScanLoop) (config : CheckpointConfig) (checkpoint : StatsCheckpoint) :
    Continues loop (loop.writeCheckpoint config checkpoint)
      (checkpointEffects loop.dir config.keep checkpoint) where
  effects := by rw [writeCheckpoint_eq, foldl_perform]
  dir := by rw [writeCheckpoint_eq, foldl_perform]
  forward effect heffect := by
    rcases List.mem_cons.mp heffect with rfl | heffect
    · rfl
    · obtain ⟨name, -, rfl⟩ := List.mem_map.mp heffect
      rfl
  below hunique := checkpointEffects_below hunique _ _

variable [Sha256] {cfg : ScanConfig}

omit [Sha256] in
theorem Continues.committed (loop : ScanLoop) (frame : PreparedBlockFrame) (state : StatsScannerState)
    (row : BlockStats) : Continues loop (committed cfg loop frame state row)
      (.emitBlock row :: dueEffects cfg loop frame state) where
  effects := rfl
  dir := rfl
  forward effect heffect := by
    rcases List.mem_cons.mp heffect with rfl | heffect
    · rfl
    · unfold dueEffects at heffect
      split_ifs at heffect with hdue
      · exact (Continues.writeCheckpoint loop cfg.checkpoints _).forward effect heffect
      · exact absurd heffect List.not_mem_nil
  below hunique := by
    refine ⟨fun name hname => absurd hname (by simp), ?_⟩
    unfold dueEffects
    split_ifs with hdue
    · exact checkpointEffects_below hunique _ _
    · trivial

theorem Continues.commitFrames (loop : ScanLoop) (frames : List PreparedBlockFrame) :
    ∃ more, Continues loop (commitFrames cfg loop frames).1 more := by
  induction frames generalizing loop with
  | nil => exact ⟨[], .refl loop⟩
  | cons frame frames ih =>
    rw [Stats.commitFrames]
    cases hblock : processBlock cfg.utxoHashWindow loop.state frame with
    | error e =>
      rw [commitFrame_error hblock]
      exact ⟨[], .refl loop⟩
    | ok out =>
      rw [commitFrame_ok hblock]
      obtain ⟨more, hmore⟩ := ih (Stats.committed cfg loop frame out.1 out.2)
      exact ⟨_, (Continues.committed loop frame out.1 out.2).trans hmore⟩

omit [Sha256] in
/-- The last effect of a scan that completes is the flush. -/
theorem Continues.finish (loop : ScanLoop) :
    ∃ more, Continues loop (loop.finish cfg) (more ++ [.flush]) := by
  have hend : ∀ l : ScanLoop, Continues l ((l.perform (.emitRun l.state.stats)).perform .flush)
      ([.emitRun l.state.stats] ++ [.flush]) := by
    intro l
    refine (Continues.perform l rfl ?_).trans (Continues.perform _ rfl ?_)
    · exact fun name h => by cases h
    · exact fun name h => by cases h
  unfold ScanLoop.finish
  split_ifs
  · split
    · rename_i height hash hlast
      have hall := (Continues.writeCheckpoint loop cfg.checkpoints
        (makeCheckpoint cfg loop.state height hash)).trans (hend _)
      rw [← List.append_assoc] at hall
      exact ⟨_, hall⟩
    · exact ⟨_, hend loop⟩
  · exact ⟨_, hend loop⟩

end

/-! ## Scans of a chain -/

section
variable [Sha256] {source : BlockSource} {chain : Chain} {best : ℕ} {cfg : ScanConfig} {dir : CheckpointDir}
variable {restored : Option StatsCheckpoint}

theorem Serves.scanFrom_continues (hserves : Serves source chain best) {maxEnd : ℕ} (hmax : maxEnd ≤ best) :
    ∃ loop more, Continues (ScanLoop.start cfg dir restored) loop more ∧
      (scanFrom source cfg dir maxEnd restored).effects = loop.effects ∧
      (scanStart cfg restored ≤ maxEnd → (scanFrom source cfg dir maxEnd restored).result.isOk = true →
        ∃ init, more = init ++ [.flush]) := by
  obtain ⟨more, hmore⟩ := @Continues.commitFrames _ cfg (ScanLoop.start cfg dir restored)
    (chain.prepared (scanStart cfg restored) (maxEnd + 1 - scanStart cfg restored))
  unfold scanFrom
  dsimp only
  split_ifs with hend
  · exact ⟨_, _, .refl _, rfl, fun hle => absurd hend (not_lt.mpr hle)⟩
  · rw [hserves.scanBatches hmax _ _ le_rfl]
    rcases hres : Stats.commitFrames cfg (ScanLoop.start cfg dir restored) (chain.prepared
      (scanStart cfg restored) (maxEnd + 1 - scanStart cfg restored)) with ⟨loop, _ | _⟩
    · rw [hres] at hmore
      exact ⟨_, _, hmore, rfl, fun _ hok => by cases hok⟩
    · rw [hres] at hmore
      obtain ⟨last, hlast⟩ := @Continues.finish cfg loop
      refine ⟨_, _, hmore.trans hlast, rfl, fun _ _ => ⟨more ++ last, ?_⟩⟩
      rw [List.append_assoc]

end

end BitcoinData.Stats
