import BitcoinData.Proofs.Retention

/-! The search for a checkpoint to resume from goes through the files by name. It passes over what
it cannot use, but a checkpoint above the node's height ends it with an error. -/

namespace BitcoinData.Stats

open Lib

/-- A source that knows the canonical hashes up to its best height, and fails above it. -/
structure AnswersHashes (source : BlockSource) (canonical : ℕ → BlockHashBytes) (best : ℕ) : Prop where
  reached : ∀ h ≤ best, source.getBlockHash h = .ok (canonical h)
  above : ∀ h, best < h → ∃ e, source.getBlockHash h = .error e

/-- The version of this scanner, and the configured window. -/
structure Compatible (cfg : ScanConfig) (checkpoint : StatsCheckpoint) : Prop where
  version : checkpoint.statsStateVersion = STATS_STATE_VERSION
  window : checkpoint.utxoHashWindow = cfg.utxoHashWindow

/-- A checkpoint that a scan may resume from. -/
structure ValidCheckpoint (canonical : ℕ → BlockHashBytes) (best : ℕ) (cfg : ScanConfig)
    (checkpoint : StatsCheckpoint) : Prop extends Compatible cfg checkpoint where
  reached : checkpoint.height ≤ best
  onChain : canonical checkpoint.height = checkpoint.blockHash

/-- A file that the search can only pass over: it does not load, is not compatible, or is off the
chain below the best height. -/
def PassedOver (canonical : ℕ → BlockHashBytes) (best : ℕ) (cfg : ScanConfig)
    (file : CheckpointFile) : Prop :=
  ∀ checkpoint, file.content = some checkpoint → Compatible cfg checkpoint →
    checkpoint.height ≤ best ∧ canonical checkpoint.height ≠ checkpoint.blockHash

section
variable {source : BlockSource} {canonical : ℕ → BlockHashBytes} {best : ℕ} {cfg : ScanConfig}
variable {dir : CheckpointDir} {file : CheckpointFile} {files : List CheckpointFile}
variable {checkpoint : StatsCheckpoint}

/-! ## One file -/

theorem restoreFrom_compatible (hcontent : file.content = some checkpoint)
    (hcompatible : Compatible cfg checkpoint) :
    restoreFrom source cfg (file :: files) =
      source.getBlockHash checkpoint.height >>= fun canonicalHash =>
        if canonicalHash = checkpoint.blockHash then .ok (some checkpoint)
        else restoreFrom source cfg files := by
  rw [restoreFrom, hcontent]
  dsimp only
  rw [if_neg (not_not.mpr hcompatible.version), if_neg (not_not.mpr hcompatible.window)]
  rfl

theorem restoreFrom_passedOver (hsource : AnswersHashes source canonical best)
    (hpass : PassedOver canonical best cfg file) :
    restoreFrom source cfg (file :: files) = restoreFrom source cfg files := by
  cases hcontent : file.content with
  | none => rw [restoreFrom, hcontent]
  | some checkpoint =>
    by_cases hcompatible : Compatible cfg checkpoint
    · obtain ⟨hreached, hoff⟩ := hpass checkpoint hcontent hcompatible
      rw [restoreFrom_compatible hcontent hcompatible, hsource.reached _ hreached, ok_bind,
        if_neg hoff]
    · rw [restoreFrom, hcontent]
      dsimp only
      by_cases hversion : checkpoint.statsStateVersion = STATS_STATE_VERSION
      · have hwindow : checkpoint.utxoHashWindow ≠ cfg.utxoHashWindow :=
          fun hwindow => hcompatible ⟨hversion, hwindow⟩
        rw [if_neg (not_not.mpr hversion), if_pos hwindow]
      · rw [if_pos hversion]

theorem restoreFrom_valid (hsource : AnswersHashes source canonical best)
    (hcontent : file.content = some checkpoint)
    (hvalid : ValidCheckpoint canonical best cfg checkpoint) :
    restoreFrom source cfg (file :: files) = .ok (some checkpoint) := by
  rw [restoreFrom_compatible hcontent hvalid.toCompatible, hsource.reached _ hvalid.reached, ok_bind,
    if_pos hvalid.onChain]

theorem restoreFrom_above (hsource : AnswersHashes source canonical best)
    (hcontent : file.content = some checkpoint) (hcompatible : Compatible cfg checkpoint)
    (habove : best < checkpoint.height) (files : List CheckpointFile) :
    ∃ e, restoreFrom source cfg (file :: files) = .error e := by
  obtain ⟨e, he⟩ := hsource.above _ habove
  refine ⟨e, ?_⟩
  rw [restoreFrom_compatible hcontent hcompatible, he]
  rfl

/-- A file is passed over, is valid, or is a compatible one above the best height. -/
theorem file_cases (canonical : ℕ → BlockHashBytes) (best : ℕ) (cfg : ScanConfig)
    (file : CheckpointFile) :
    PassedOver canonical best cfg file ∨ ∃ checkpoint, file.content = some checkpoint ∧
      (ValidCheckpoint canonical best cfg checkpoint ∨
        Compatible cfg checkpoint ∧ best < checkpoint.height) := by
  by_cases hpass : PassedOver canonical best cfg file
  · exact .inl hpass
  · unfold PassedOver at hpass
    push Not at hpass
    obtain ⟨checkpoint, hcontent, hcompatible, hstop⟩ := hpass
    refine .inr ⟨checkpoint, hcontent, ?_⟩
    by_cases hreached : checkpoint.height ≤ best
    · exact .inl ⟨hcompatible, hreached, hstop hreached⟩
    · exact .inr ⟨hcompatible, not_le.mp hreached⟩

/-! ## The search -/

/-- The checkpoint found is that of the first file that is not passed over. -/
theorem restoreFrom_eq_some (hsource : AnswersHashes source canonical best) :
    restoreFrom source cfg files = .ok (some checkpoint) ↔
      ∃ newer file older, files = newer ++ file :: older ∧ file.content = some checkpoint ∧
        ValidCheckpoint canonical best cfg checkpoint ∧
        ∀ f ∈ newer, PassedOver canonical best cfg f := by
  refine ⟨?_, ?_⟩
  · intro h
    induction files with
    | nil => cases h
    | cons file files ih =>
      rcases file_cases canonical best cfg file with hpass | ⟨found, hcontent, hvalid | hstop⟩
      · rw [restoreFrom_passedOver hsource hpass] at h
        obtain ⟨newer, f, older, rfl, hf, hvalid, hnewer⟩ := ih h
        exact ⟨file :: newer, f, older, rfl, hf, hvalid, List.forall_mem_cons.mpr ⟨hpass, hnewer⟩⟩
      · rw [restoreFrom_valid hsource hcontent hvalid, Except.ok.injEq, Option.some.injEq] at h
        subst h
        exact ⟨[], file, files, rfl, hcontent, hvalid, fun f hf => absurd hf List.not_mem_nil⟩
      · obtain ⟨e, he⟩ := restoreFrom_above hsource hcontent hstop.1 hstop.2 files
        rw [he] at h
        cases h
  · rintro ⟨newer, f, older, rfl, hcontent, hvalid, hnewer⟩
    induction newer with
    | nil => exact restoreFrom_valid hsource hcontent hvalid
    | cons g newer ih =>
      rw [List.forall_mem_cons] at hnewer
      rw [List.cons_append, restoreFrom_passedOver hsource hnewer.1, ih hnewer.2]

theorem mem_newer_iff (hunique : UniqueNames dir) {newer older : List CheckpointFile}
    (hsplit : dir.listNewestFirst = newer ++ file :: older) (g : CheckpointFile) :
    g ∈ newer ↔ g ∈ dir.listNewestFirst ∧ file.name < g.name := by
  have hdesc := hunique.names_descending
  rw [CheckpointDir.names, hsplit, List.pairwise_map, List.pairwise_append, List.pairwise_cons] at hdesc
  obtain ⟨-, ⟨holder, -⟩, hcross⟩ := hdesc
  rw [hsplit]
  refine ⟨?_, ?_⟩
  · intro hg
    exact ⟨List.mem_append_left _ hg, hcross g hg file List.mem_cons_self⟩
  · rintro ⟨hg, hlt⟩
    rcases List.mem_append.mp hg with hg | hg
    · exact hg
    · rcases List.mem_cons.mp hg with rfl | hg
      · exact absurd hlt (lt_irrefl _)
      · exact absurd hlt (lt_asymm (holder g hg))

/-! ## The directory -/

def IsCheckpointOf (dir : CheckpointDir) (file : CheckpointFile) (checkpoint : StatsCheckpoint) : Prop :=
  file ∈ dir ∧ isCheckpointName file.name = true ∧ file.content = some checkpoint

/-- A valid checkpoint of the directory, and no valid one is of a greater height. -/
def NewestValid (canonical : ℕ → BlockHashBytes) (best : ℕ) (cfg : ScanConfig) (dir : CheckpointDir)
    (file : CheckpointFile) (checkpoint : StatsCheckpoint) : Prop :=
  IsCheckpointOf dir file checkpoint ∧ ValidCheckpoint canonical best cfg checkpoint ∧
    ∀ file' checkpoint', IsCheckpointOf dir file' checkpoint' →
      ValidCheckpoint canonical best cfg checkpoint' → checkpoint'.height ≤ checkpoint.height

/-- A valid checkpoint is found whenever there is one, and one of the greatest height, exactly when
every checkpoint file named after some newest valid one is passed over. -/
theorem restores_newest_iff (hsource : AnswersHashes source canonical best)
    (hunique : UniqueNames dir) :
    ((∃ file checkpoint, IsCheckpointOf dir file checkpoint ∧
          ValidCheckpoint canonical best cfg checkpoint) →
        ∃ file checkpoint, restoreNewestValidCheckpoint source cfg dir = .ok (some checkpoint) ∧
          NewestValid canonical best cfg dir file checkpoint) ↔
      ((∃ file checkpoint, IsCheckpointOf dir file checkpoint ∧
          ValidCheckpoint canonical best cfg checkpoint) →
        ∃ file checkpoint, NewestValid canonical best cfg dir file checkpoint ∧
          ∀ other ∈ dir, isCheckpointName other.name = true → file.name < other.name →
            PassedOver canonical best cfg other) := by
  refine imp_congr_right fun _ => ?_
  unfold restoreNewestValidCheckpoint
  refine ⟨?_, ?_⟩
  · rintro ⟨file, checkpoint, hrestore, hnewest⟩
    obtain ⟨newer, found, older, hsplit, hcontent, hvalid, hnewer⟩ :=
      (restoreFrom_eq_some hsource).mp hrestore
    have hfound : found ∈ dir.listNewestFirst := by
      rw [hsplit]
      exact List.mem_append_right _ List.mem_cons_self
    obtain ⟨hmem, hname⟩ := mem_listNewestFirst.mp hfound
    refine ⟨found, checkpoint, ⟨⟨hmem, hname, hcontent⟩, hvalid, hnewest.2.2⟩, ?_⟩
    intro other hother hothername hlt
    exact hnewer other ((mem_newer_iff hunique hsplit other).mpr
      ⟨mem_listNewestFirst.mpr ⟨hother, hothername⟩, hlt⟩)
  · rintro ⟨file, checkpoint, hnewest, hpass⟩
    obtain ⟨hmem, hname, hcontent⟩ := hnewest.1
    obtain ⟨newer, older, hsplit⟩ :=
      List.append_of_mem (mem_listNewestFirst.mpr ⟨hmem, hname⟩)
    refine ⟨file, checkpoint, ?_, hnewest⟩
    refine (restoreFrom_eq_some hsource).mpr
      ⟨newer, file, older, hsplit, hcontent, hnewest.2.1, fun g hg => ?_⟩
    obtain ⟨hg', hlt⟩ := (mem_newer_iff hunique hsplit g).mp hg
    obtain ⟨hgdir, hgname⟩ := mem_listNewestFirst.mp hg'
    exact hpass g hgdir hgname hlt

end

/-! ## A node behind its checkpoints -/

/-- A node of the sample chain that knows no block above its best height. -/
def nodeAt (best : ℕ) : BlockSource :=
  { sampleChain.source best with
    getBlockHash := fun h =>
      if h ≤ best then .ok (sampleChain.frame h).hash else .error "Block height out of range" }

theorem answersHashes_nodeAt (best : ℕ) :
    AnswersHashes (nodeAt best) (fun h => (sampleChain.frame h).hash) best where
  reached _ hle := if_pos hle
  above _ hlt := ⟨_, if_neg (not_le.mpr hlt)⟩

def sampleFile (height : ℕ) : CheckpointFile :=
  ⟨checkpointName height (sampleCheckpoint height).blockHash, some (sampleCheckpoint height)⟩

theorem sampleCheckpoint_valid {height best : ℕ} (h : height ≤ best) (start blocks every : ℕ) :
    ValidCheckpoint (fun h => (sampleChain.frame h).hash) best (sampleConfig start blocks every)
      (sampleCheckpoint height) :=
  ⟨⟨rfl, rfl⟩, h, rfl⟩

/-- The newer of the two files does not load. -/
def damagedDir : CheckpointDir :=
  [⟨checkpointName 9 (sampleCheckpoint 9).blockHash, none⟩, sampleFile 5]

theorem restores_newest_sample : ∃ file checkpoint,
    restoreNewestValidCheckpoint (nodeAt 20) (sampleConfig 0 30 1) damagedDir = .ok (some checkpoint) ∧
      NewestValid (fun h => (sampleChain.frame h).hash) 20 (sampleConfig 0 30 1) damagedDir file
        checkpoint := by
  have hunique : UniqueNames damagedDir := by
    unfold UniqueNames
    decide +kernel
  have hfile : IsCheckpointOf damagedDir (sampleFile 5) (sampleCheckpoint 5) :=
    ⟨List.mem_cons_of_mem _ (List.mem_singleton_self _), isCheckpointName_checkpointName _ _, rfl⟩
  have hvalid := sampleCheckpoint_valid (by decide : 5 ≤ 20) 0 30 1
  refine (restores_newest_iff (answersHashes_nodeAt 20) hunique).mpr (fun _ => ?_)
    ⟨sampleFile 5, sampleCheckpoint 5, hfile, hvalid⟩
  have honly : ∀ file checkpoint, IsCheckpointOf damagedDir file checkpoint → file = sampleFile 5 := by
    rintro file checkpoint ⟨hmem, -, hcontent⟩
    rcases List.mem_cons.mp hmem with rfl | hmem
    · cases hcontent
    · exact List.mem_singleton.mp hmem
  refine ⟨sampleFile 5, sampleCheckpoint 5, ⟨hfile, hvalid, fun file checkpoint hother _ => ?_⟩, ?_⟩
  · have hcontent := hother.2.2
    rw [honly file checkpoint hother] at hcontent
    rw [← Option.some.inj hcontent]
  · intro other hother hname hlt checkpoint hcontent
    rw [honly other checkpoint ⟨hother, hname, hcontent⟩] at hlt
    exact absurd hlt (lt_irrefl _)

/-- The node is at height 7; a checkpoint of height 5 is on its chain, one of height 9 is not
reached yet. -/
theorem unreached_checkpoint_ends_search :
    ¬ ∀ (source : BlockSource) (canonical : ℕ → BlockHashBytes) (best : ℕ) (cfg : ScanConfig)
      (dir : CheckpointDir), AnswersHashes source canonical best → UniqueNames dir →
      (∃ file checkpoint, IsCheckpointOf dir file checkpoint ∧
        ValidCheckpoint canonical best cfg checkpoint) →
      ∃ file checkpoint, restoreNewestValidCheckpoint source cfg dir = .ok (some checkpoint) ∧
        NewestValid canonical best cfg dir file checkpoint := by
  intro hrestores
  have hunique : UniqueNames [sampleFile 9, sampleFile 5] := by
    unfold UniqueNames
    decide +kernel
  have hnine : sampleFile 9 ∈ CheckpointDir.listNewestFirst [sampleFile 9, sampleFile 5] :=
    mem_listNewestFirst.mpr ⟨List.mem_cons_self, isCheckpointName_checkpointName _ _⟩
  obtain ⟨-, checkpoint, hrestore, -⟩ :=
    hrestores (nodeAt 7) _ 7 (sampleConfig 0 30 1) _ (answersHashes_nodeAt 7) hunique
      ⟨sampleFile 5, sampleCheckpoint 5,
        ⟨List.mem_cons_of_mem _ (List.mem_singleton_self _), isCheckpointName_checkpointName _ _, rfl⟩,
        sampleCheckpoint_valid (by decide) 0 30 1⟩
  obtain ⟨newer, found, older, hsplit, hcontent, hvalid, hnewer⟩ :=
    (restoreFrom_eq_some (answersHashes_nodeAt 7)).mp hrestore
  have hfound : found ∈ CheckpointDir.listNewestFirst [sampleFile 9, sampleFile 5] := by
    rw [hsplit]
    exact List.mem_append_right _ List.mem_cons_self
  rcases List.mem_cons.mp (mem_listNewestFirst.mp hfound).1 with rfl | hfive
  · -- the file of height 9 is not valid
    obtain rfl := Option.some.inj hcontent
    exact absurd hvalid.reached (by decide)
  · -- and it comes before that of height 5
    rw [List.mem_singleton.mp hfive] at hsplit
    have hlt : (sampleFile 5).name < (sampleFile 9).name := by decide +kernel
    obtain ⟨hreached, -⟩ := hnewer (sampleFile 9)
      ((mem_newer_iff hunique hsplit _).mpr ⟨hnine, hlt⟩) (sampleCheckpoint 9) rfl ⟨rfl, rfl⟩
    exact absurd hreached (by decide)

end BitcoinData.Stats
