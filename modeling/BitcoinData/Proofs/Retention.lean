import BitcoinData.Lib.Lists
import BitcoinData.Sanity.Stats.Pruning
import BitcoinData.Sanity.Stats.Sample

/-! Which checkpoints a write leaves in the directory. Files are kept by their names alone, so the
one just written goes when enough leftover files have greater names. -/

namespace BitcoinData.Stats

open Lib

/-! ## Pruning -/

/-- The names of the checkpoint files, newest first. -/
def CheckpointDir.names (dir : CheckpointDir) : List (List Char) :=
  dir.listNewestFirst.map (·.name)

theorem listNewestFirst_perm (dir : CheckpointDir) :
    dir.listNewestFirst.Perm (dir.filter fun file => isCheckpointName file.name) :=
  (List.reverse_perm _).trans (List.perm_insertionSort _ _)

theorem UniqueNames.names_descending {dir : CheckpointDir} (h : UniqueNames dir) :
    dir.names.Pairwise (· > ·) := by
  have hnodup : dir.names.Nodup :=
    ((listNewestFirst_perm dir).map _).nodup_iff.mpr (h.filter _)
  have hsorted : dir.names.Pairwise fun a b => b ≤ a :=
    List.pairwise_map.mpr (listNewestFirst_sorted dir)
  exact (hsorted.and hnodup).imp fun hab => lt_of_le_of_ne hab.1 hab.2.symm

theorem mem_pruned {dir : CheckpointDir} {keep : ℕ} (hkeep : 1 ≤ keep) {name : List Char} :
    name ∈ dir.pruned keep ↔ name ∈ dir.names.drop keep := by
  unfold CheckpointDir.pruned CheckpointDir.names
  dsimp only
  rw [if_neg (by omega)]
  split_ifs with hfew
  · rw [List.drop_eq_nil_of_le (by rwa [List.length_map])]
  · rw [← List.map_drop, List.take_reverse, List.map_reverse, List.mem_reverse]
    congr! 3
    omega

theorem foldl_remove (names : List (List Char)) (dir : CheckpointDir) :
    names.foldl CheckpointDir.remove dir = dir.filter fun file => file.name ∉ names := by
  induction names generalizing dir with
  | nil => simp
  | cons name names ih =>
    rw [List.foldl_cons, ih, CheckpointDir.remove, List.filter_filter]
    apply List.filter_congr
    intro file _
    simp [Bool.and_comm]

/-! ## Writing -/

theorem save_unique {dir : CheckpointDir} (h : UniqueNames dir) (checkpoint : StatsCheckpoint) :
    UniqueNames (dir.save checkpoint) :=
  h.apply (.saveCheckpoint checkpoint)

theorem uniqueNames_nil : UniqueNames [] := List.nodup_nil

theorem writeCheckpoint_eq_filter {config : CheckpointConfig} (hwrites : config.writes = true)
    (hkeep : 1 ≤ config.keep) {dir : CheckpointDir} {checkpoint : StatsCheckpoint} :
    config.writeCheckpoint dir checkpoint =
      (dir.save checkpoint).filter fun file =>
        file.name ∉ (dir.save checkpoint).names.drop config.keep := by
  rw [CheckpointConfig.writeCheckpoint, if_pos hwrites]
  dsimp only
  rw [foldl_remove]
  apply List.filter_congr
  intro file _
  rw [decide_eq_decide, mem_pruned hkeep]

/-- The checkpoint files whose names are greater than that of `checkpoint`. -/
def newerCount (dir : CheckpointDir) (checkpoint : StatsCheckpoint) : ℕ :=
  dir.countP fun file => isCheckpointName file.name &&
    decide (checkpointName checkpoint.height checkpoint.blockHash < file.name)

/-- The file itself is not greater, so saving it does not change the count. -/
theorem countP_names_save (dir : CheckpointDir) (checkpoint : StatsCheckpoint) :
    (dir.save checkpoint).names.countP
      (checkpointName checkpoint.height checkpoint.blockHash < ·) = newerCount dir checkpoint := by
  rw [CheckpointDir.names, List.countP_map, (listNewestFirst_perm _).countP_eq, List.countP_filter,
    CheckpointDir.save, List.countP_append, List.countP_filter, newerCount]
  have hself : [(⟨checkpointName checkpoint.height checkpoint.blockHash, some checkpoint⟩ :
      CheckpointFile)].countP (fun file => decide
        (checkpointName checkpoint.height checkpoint.blockHash < file.name) &&
          isCheckpointName file.name) = 0 := by simp
  refine (congrArg (_ + ·) hself).trans ?_
  rw [Nat.add_zero]
  apply List.countP_congr
  intro file _
  simp only [Function.comp_apply, Bool.and_eq_true, decide_eq_true_eq]
  refine ⟨?_, ?_⟩
  · rintro ⟨⟨hlt, hname⟩, -⟩
    exact ⟨hname, hlt⟩
  · rintro ⟨hname, hlt⟩
    exact ⟨⟨hlt, hname⟩, hlt.ne'⟩

/-- However many there were, at most `keep` checkpoint files remain. -/
theorem writeCheckpoint_countP_le {config : CheckpointConfig} (hwrites : config.writes = true)
    (hkeep : 1 ≤ config.keep) (dir : CheckpointDir) (checkpoint : StatsCheckpoint) :
    (config.writeCheckpoint dir checkpoint).countP (fun file => isCheckpointName file.name) ≤
      config.keep := by
  rw [writeCheckpoint_eq_filter hwrites hkeep]
  generalize dir.save checkpoint = saved
  have hlist : (saved.filter fun file => file.name ∉ saved.names.drop config.keep).countP
        (fun file => isCheckpointName file.name) =
      saved.names.countP fun name => name ∉ saved.names.drop config.keep := by
    rw [CheckpointDir.names, List.countP_map, (listNewestFirst_perm saved).countP_eq,
      List.countP_filter, List.countP_filter]
    apply List.countP_congr
    intro file _
    simp only [Function.comp_apply, Bool.and_eq_true, and_comm]
  rw [hlist]
  generalize saved.names = names
  have hsplit : names.countP (fun name => name ∉ names.drop config.keep) =
      (names.take config.keep).countP (fun name => name ∉ names.drop config.keep) +
        (names.drop config.keep).countP fun name => name ∉ names.drop config.keep := by
    rw [← List.countP_append, List.take_append_drop]
  have hdrop : (names.drop config.keep).countP (fun name => name ∉ names.drop config.keep) = 0 := by
    rw [List.countP_eq_zero]
    intro name hname
    simpa using hname
  calc names.countP (fun name => name ∉ names.drop config.keep)
      = (names.take config.keep).countP (fun name => name ∉ names.drop config.keep) := by
        rw [hsplit, hdrop, Nat.add_zero]
    _ ≤ (names.take config.keep).length := List.countP_le_length
    _ ≤ config.keep := List.length_take_le _ _

/-- The checkpoint just written stays, among at most `keep`, exactly when fewer than `keep` of the
checkpoint files found there have greater names. -/
theorem written_survives_iff {dir : CheckpointDir} (hunique : UniqueNames dir)
    {config : CheckpointConfig} (hwrites : config.writes = true) (hkeep : 1 ≤ config.keep)
    (checkpoint : StatsCheckpoint) :
    (⟨checkpointName checkpoint.height checkpoint.blockHash, some checkpoint⟩ ∈
        config.writeCheckpoint dir checkpoint ∧
      (config.writeCheckpoint dir checkpoint).countP (fun file => isCheckpointName file.name) ≤
        config.keep) ↔
    newerCount dir checkpoint < config.keep := by
  rw [and_iff_left (writeCheckpoint_countP_le hwrites hkeep dir checkpoint),
    writeCheckpoint_eq_filter hwrites hkeep, List.mem_filter, ← countP_names_save]
  have hsaved : (⟨checkpointName checkpoint.height checkpoint.blockHash, some checkpoint⟩ :
      CheckpointFile) ∈ dir.save checkpoint := List.mem_append_right _ (List.mem_singleton_self _)
  have hname : checkpointName checkpoint.height checkpoint.blockHash ∈
      (dir.save checkpoint).names :=
    List.mem_map.mpr ⟨_, mem_listNewestFirst.mpr
      ⟨hsaved, isCheckpointName_checkpointName _ _⟩, rfl⟩
  rw [and_iff_right hsaved, decide_eq_true_eq]
  convert notMem_drop_iff (save_unique hunique checkpoint).names_descending hname config.keep

/-! ## Leftover files -/

def sampleCheckpoint (height : ℕ) : StatsCheckpoint :=
  makeCheckpoint (sampleConfig 0 (height + 1) 1) (.new 0) height (sampleChain.frame height).hash

def keepConfig (keep : ℕ) : CheckpointConfig := { every := 1, keep, enabled := true }

/-- One leftover file of height 9, and room for two. -/
theorem written_survives_sample :
    (⟨checkpointName 5 (sampleCheckpoint 5).blockHash, some (sampleCheckpoint 5)⟩ : CheckpointFile) ∈
      (keepConfig 2).writeCheckpoint (CheckpointDir.save [] (sampleCheckpoint 9))
        (sampleCheckpoint 5) := by
  have hunique : UniqueNames (CheckpointDir.save [] (sampleCheckpoint 9)) :=
    save_unique uniqueNames_nil _
  have hfew : newerCount (CheckpointDir.save [] (sampleCheckpoint 9)) (sampleCheckpoint 5) < 2 := by
    decide +kernel
  have hwrites : (keepConfig 2).writes = true := rfl
  exact ((written_survives_iff hunique hwrites (by decide) (sampleCheckpoint 5)).mpr hfew).1

/-- One leftover file of height 9, and room for one: the checkpoint of height 5 goes at once. -/
theorem written_checkpoint_pruned :
    ¬ ∀ (dir : CheckpointDir), UniqueNames dir → ∀ config : CheckpointConfig,
      config.writes = true → 1 ≤ config.keep → ∀ checkpoint : StatsCheckpoint,
        ⟨checkpointName checkpoint.height checkpoint.blockHash, some checkpoint⟩ ∈
            config.writeCheckpoint dir checkpoint ∧
          (config.writeCheckpoint dir checkpoint).countP (fun file => isCheckpointName file.name) ≤
            config.keep := by
  intro hsurvives
  obtain ⟨hmem, -⟩ := hsurvives (CheckpointDir.save [] (sampleCheckpoint 9))
    (save_unique uniqueNames_nil _) (keepConfig 1) rfl le_rfl (sampleCheckpoint 5)
  have hnames : ((keepConfig 1).writeCheckpoint (CheckpointDir.save [] (sampleCheckpoint 9))
      (sampleCheckpoint 5)).map (·.name) = [checkpointName 9 (sampleCheckpoint 9).blockHash] := by
    decide +kernel
  have hname : checkpointName 5 (sampleCheckpoint 5).blockHash ∈
      ((keepConfig 1).writeCheckpoint (CheckpointDir.save [] (sampleCheckpoint 9))
        (sampleCheckpoint 5)).map (·.name) := List.mem_map_of_mem hmem
  rw [hnames] at hname
  exact absurd hname (by decide +kernel)

end BitcoinData.Stats
