import BitcoinData.Sanity.Stats.Serving

/-! The files of a checkpoint directory: where each comes from, and which one is restored. -/

namespace BitcoinData.Stats

open Lib

/-! ## Files -/

theorem restoreFrom_mem {source : BlockSource} {cfg : ScanConfig} {files : List CheckpointFile}
    {checkpoint : StatsCheckpoint} (h : restoreFrom source cfg files = .ok (some checkpoint)) :
    ∃ file ∈ files, file.content = some checkpoint ∧
      checkpoint.utxoHashWindow = cfg.utxoHashWindow := by
  induction files with
  | nil => cases h
  | cons file files ih =>
    have holder : restoreFrom source cfg files = .ok (some checkpoint) →
        ∃ f ∈ file :: files, f.content = some checkpoint ∧
          checkpoint.utxoHashWindow = cfg.utxoHashWindow := fun h => by
      obtain ⟨f, hf, hc⟩ := ih h
      exact ⟨f, List.mem_cons_of_mem _ hf, hc⟩
    rw [restoreFrom] at h
    split at h
    · exact holder h
    · rename_i found hfound
      split_ifs at h with hversion hwindow
      · exact holder h
      · exact holder h
      · rw [bind_eq_ok] at h
        obtain ⟨hash, -, h⟩ := h
        split_ifs at h with hhash
        · rw [pure_eq_ok, Except.ok.injEq, Option.some.injEq] at h
          subst h
          exact ⟨file, List.mem_cons_self, hfound, not_not.mp hwindow⟩
        · exact holder h

theorem restore_mem {source : BlockSource} {cfg : ScanConfig} {dir : CheckpointDir}
    {checkpoint : StatsCheckpoint}
    (h : restoreNewestValidCheckpoint source cfg dir = .ok (some checkpoint)) :
    ∃ file ∈ dir, file.content = some checkpoint ∧
      checkpoint.utxoHashWindow = cfg.utxoHashWindow := by
  obtain ⟨file, hmem, hfile⟩ := restoreFrom_mem h
  rw [CheckpointDir.listNewestFirst, List.mem_reverse, List.mem_insertionSort] at hmem
  exact ⟨file, List.mem_of_mem_filter hmem, hfile⟩

theorem mem_apply {dir : CheckpointDir} {effects : List ScanEffect} {file : CheckpointFile}
    (h : file ∈ effects.foldl CheckpointDir.apply dir) :
    file ∈ dir ∨ ∃ before checkpoint, before ++ [.saveCheckpoint checkpoint] <+: effects ∧
      file = ⟨checkpointName checkpoint.height checkpoint.blockHash, some checkpoint⟩ := by
  induction effects using List.reverseRecOn with
  | nil => exact .inl h
  | append_singleton effects effect ih =>
    rw [List.foldl_append, List.foldl_cons, List.foldl_nil] at h
    have hearlier : file ∈ effects.foldl CheckpointDir.apply dir →
        file ∈ dir ∨ ∃ before checkpoint,
          before ++ [.saveCheckpoint checkpoint] <+: effects ++ [effect] ∧
            file = ⟨checkpointName checkpoint.height checkpoint.blockHash, some checkpoint⟩ := fun h => by
      rcases ih h with h | ⟨before, checkpoint, hpre, hfile⟩
      · exact .inl h
      · exact .inr ⟨before, checkpoint, hpre.trans (List.prefix_append _ _), hfile⟩
    cases effect with
    | saveCheckpoint checkpoint =>
      rcases List.mem_append.mp h with h | h
      · exact hearlier (List.mem_of_mem_filter h)
      · exact .inr ⟨effects, checkpoint, List.prefix_refl _, List.mem_singleton.mp h⟩
    | removeCheckpoint name => exact hearlier (List.mem_of_mem_filter h)
    | rollbackToHeight height => exact hearlier h
    | emitBlock row => exact hearlier h
    | emitRun stats => exact hearlier h
    | flush => exact hearlier h

section
variable [Sha256] {chain : Chain} {cfg : ScanConfig}

omit [Sha256] in
theorem resumedFrom_some {source : BlockSource} {dir : CheckpointDir} {checkpoint : StatsCheckpoint}
    (h : resumedFrom source cfg dir = .ok (some checkpoint)) :
    restoreNewestValidCheckpoint source cfg dir = .ok (some checkpoint) := by
  unfold resumedFrom at h
  rw [bind_eq_ok] at h
  obtain ⟨tipHeight, -, h⟩ := h
  split_ifs at h with hsafe henabled
  · cases h
  · exact h
  · cases h

theorem BeganAt.caught {start : ℕ} {checkpoint : StatsCheckpoint} (h : BeganAt chain start checkpoint) :
    ∃ rows, Caught chain start checkpoint.utxoHashWindow rows checkpoint := by
  induction h with
  | @fresh source cfg dir best before checkpoint hstart hserves hresume hsaved =>
    have hnone : CaughtUp chain cfg start [] none := ⟨hstart, rfl⟩
    obtain ⟨hcaught, -, -⟩ := hserves.caught hnone hresume hsaved
    rw [← hcaught.window_eq] at hcaught
    exact ⟨_, hcaught⟩
  | @resumed source cfg dir best before earlier checkpoint hearlier hserves hresume hsaved ih =>
    obtain ⟨rows, hrows⟩ := ih
    obtain ⟨-, -, -, hwindow⟩ := restore_mem (resumedFrom_some hresume)
    rw [hwindow] at hrows
    have hsome : CaughtUp chain cfg start rows (some earlier) := hrows
    obtain ⟨hcaught, -, -⟩ := hserves.caught hsome hresume hsaved
    rw [← hcaught.window_eq] at hcaught
    exact ⟨_, hcaught⟩

theorem Filled.beganAt {dir : CheckpointDir} (h : Filled chain dir) :
    ∀ file ∈ dir, ∀ checkpoint, file.content = some checkpoint →
      ∃ start, BeganAt chain start checkpoint := by
  induction h with
  | empty => exact fun file hfile => absurd hfile List.not_mem_nil
  | @scan dir source cfg best effects hfilled hserves heffects ih =>
    intro file hfile checkpoint hcontent
    rcases mem_apply hfile with hold | ⟨before, saved, hbefore, hsaved⟩
    · exact ih file hold checkpoint hcontent
    subst hsaved
    obtain rfl := Option.some.inj hcontent
    have hpre := hbefore.trans heffects
    have hne : (Stats.scan source cfg dir).effects ≠ [] := by
      intro hnil
      rw [hnil] at hpre
      simp at hpre
    obtain ⟨restored, hresume⟩ := resumedFrom_of_effects hne
    cases restored with
    | none => exact ⟨cfg.start, .fresh rfl hserves hresume hpre⟩
    | some earlier =>
      obtain ⟨earlierFile, hmem, hfound, -⟩ := restore_mem (resumedFrom_some hresume)
      obtain ⟨start, hstart⟩ := ih earlierFile hmem earlier hfound
      exact ⟨start, .resumed hstart hserves hresume hpre⟩

end

end BitcoinData.Stats
