import BitcoinData.Lib.Runs
import BitcoinData.Sanity.Marking
import BitcoinData.Sanity.Window

/-! The steps of the indexer and its environment, one constructor for each kind, and
what every step leaves alone: no file below the next height to be committed loses
its block, and the metadata of a finished window is never ahead of RocksDB. -/

namespace BitcoinData

open Lib

/-- The height that the next committed window starts at. -/
def nextHeight (config : IndexerConfig) (db : RocksIndexStore) : ℕ :=
  match db.tip with
  | some tip => tip.height + 1
  | none => config.emitStartHeight

def restoredUid (db : RocksIndexStore) : UInt64 :=
  match db.tip with
  | some tip => tip.lastUid
  | none => 0

theorem startProcess_eq_ok {config : IndexerConfig} {disk disk' : Disk} {process : Process}
    (h : startProcess config disk = .ok (disk', process)) :
    ∃ network startHeight, disk' = { disk with indexStore :=
        { disk.indexStore with network := network, startHeight := startHeight } } ∧
      process = ⟨P2trIndexerState.restoreAtUid (restoredUid disk.indexStore),
        nextHeight config disk.indexStore, .idle⟩ := by
  unfold startProcess RocksIndexStore.ensureMeta at h
  simp only [bind_eq_ok, pure_eq_ok, Except.ok.injEq, Prod.mk.injEq] at h
  obtain ⟨db, ⟨network, -, startHeight, -, rfl⟩, rfl, rfl⟩ := h
  exact ⟨network, startHeight, rfl, rfl⟩

section
variable [Externals]

/-- The steps, by what they do. A refused start, an error and a crash all leave the
disk as it is and no process. -/
inductive Steps (config : IndexerConfig) : System → Action → System → Prop
  | start {disk disk' : Disk} {process : Process}
      (h : startProcess config disk = .ok (disk', process)) :
      Steps config ⟨disk, none⟩ .start ⟨disk', some process⟩
  | stop {disk : Disk} {process : Option Process} {a : Action} :
      Steps config ⟨disk, process⟩ a ⟨disk, none⟩
  | window {disk : Disk} {state : P2trIndexerState} {next best : ℕ} {tuning : CatchUpConfig}
      {fetch : FetchChunk} {window : Window}
      (h : catchUpWindow config.emitStartHeight tuning disk.indexStore fetch state next
        (best - config.finalityDepth) = .ok window) :
      Steps config ⟨disk, some ⟨state, next, .idle⟩⟩ (.catchUp tuning best fetch)
        ⟨disk, some ⟨window.state, window.lastHeight + 1, .writing window window.pending⟩⟩
  | write {disk : Disk} {state : P2trIndexerState} {next : ℕ} {window : Window} {p : Pending}
      {rest : List Pending} :
      Steps config ⟨disk, some ⟨state, next, .writing window (p :: rest)⟩⟩ .effect
        ⟨{ disk with archive :=
            disk.archive.writeBlockBytes p.applied.lightBlock.height p.payload },
          some ⟨state, next, .writing window rest⟩⟩
  | group {disk : Disk} {state : P2trIndexerState} {next : ℕ} {window : Window}
      {groups : List (ℕ × List (UInt32 × UInt32))}
      (h : FileArchive.groupSpends window.spends = .ok groups) :
      Steps config ⟨disk, some ⟨state, next, .writing window []⟩⟩ .effect
        ⟨disk, some ⟨state, next, .marking window groups⟩⟩
  | mark {disk : Disk} {state : P2trIndexerState} {next height updated : ℕ} {window : Window}
      {marks : List (UInt32 × UInt32)} {rest : List (ℕ × List (UInt32 × UInt32))}
      {archive : FileArchive}
      (h : disk.archive.markCreationBlock (height, marks) = .ok (archive, updated)) :
      Steps config ⟨disk, some ⟨state, next, .marking window ((height, marks) :: rest)⟩⟩ .effect
        ⟨{ disk with archive := archive }, some ⟨state, next, .marking window rest⟩⟩
  | commit {disk : Disk} {state : P2trIndexerState} {next : ℕ} {window : Window} :
      Steps config ⟨disk, some ⟨state, next, .marking window []⟩⟩ .effect
        ⟨{ disk with
            indexStore := disk.indexStore.commitAppliedBlocks (window.pending.map (·.applied))
              window.lastHeight window.lastHash window.state.lastUid },
          some ⟨state, next, .truncating window⟩⟩
  | truncate {disk : Disk} {state : P2trIndexerState} {next : ℕ} {window : Window} :
      Steps config ⟨disk, some ⟨state, next, .truncating window⟩⟩ .effect
        ⟨{ disk with archive := { disk.archive with manifest := .torn } },
          some ⟨state, next, .finishing window⟩⟩
  | finish {disk : Disk} {state : P2trIndexerState} {next : ℕ} {window : Window} :
      Steps config ⟨disk, some ⟨state, next, .finishing window⟩⟩ .effect
        ⟨{ disk with archive := { disk.archive with
            manifest := .complete (window.manifest config) } },
          some ⟨state, next, .idle⟩⟩

theorem steps_of_effect {config : IndexerConfig} {disk : Disk} {process : Process}
    {r : Except String (Disk × Process)} (h : performEffect config disk process = some r) :
    Steps config ⟨disk, some process⟩ .effect (match r with
      | .ok (disk', process') => ⟨disk', some process'⟩
      | .error _ => ⟨disk, none⟩) := by
  obtain ⟨state, next, stage⟩ := process
  cases stage with
  | idle => cases h
  | writing window rest =>
    cases rest with
    | cons p rest =>
      simp only [performEffect, Option.some.injEq] at h
      subst h
      exact .write
    | nil =>
      simp only [performEffect, Option.some.injEq] at h
      cases hg : FileArchive.groupSpends window.spends with
      | error e =>
        rw [hg, error_bind] at h
        subst h
        exact .stop
      | ok groups =>
        rw [hg, ok_bind, pure_eq_ok] at h
        subst h
        exact .group hg
  | marking window rest =>
    cases rest with
    | nil =>
      simp only [performEffect, Option.some.injEq] at h
      subst h
      exact .commit
    | cons group rest =>
      simp only [performEffect, Option.some.injEq] at h
      cases hm : disk.archive.markCreationBlock group with
      | error e =>
        rw [hm, error_bind] at h
        subst h
        exact .stop
      | ok r =>
        rw [hm, ok_bind, pure_eq_ok] at h
        subst h
        exact .mark hm
  | truncating window =>
    simp only [performEffect, Option.some.injEq] at h
    subst h
    exact .truncate
  | finishing window =>
    simp only [performEffect, Option.some.injEq] at h
    subst h
    exact .finish

theorem steps_of_step {config : IndexerConfig} {sys sys' : System} {a : Action}
    (h : step config sys a = some sys') : Steps config sys a sys' := by
  obtain ⟨disk, process⟩ := sys
  cases a with
  | start =>
    cases process with
    | some process => cases h
    | none =>
      simp only [step] at h
      cases hs : startProcess config disk with
      | error e =>
        simp only [hs, Option.some.injEq] at h
        subst h
        exact .stop
      | ok r =>
        simp only [hs, Option.some.injEq] at h
        subst h
        exact .start hs
  | catchUp tuning best fetch =>
    cases process with
    | none => cases h
    | some process =>
      obtain ⟨state, next, stage⟩ := process
      cases stage with
      | idle =>
        simp only [step] at h
        split_ifs at h with hle
        cases hw : catchUpWindow config.emitStartHeight tuning disk.indexStore fetch state next
            (best - config.finalityDepth) with
        | error e =>
          simp only [hw, Option.some.injEq] at h
          subst h
          exact .stop
        | ok window =>
          simp only [hw, Option.some.injEq] at h
          subst h
          exact .window hw
      | writing window rest => cases h
      | marking window rest => cases h
      | truncating window => cases h
      | finishing window => cases h
  | effect =>
    cases process with
    | none => cases h
    | some process =>
      simp only [step] at h
      cases he : performEffect config disk process with
      | none => simp only [he] at h; cases h
      | some r =>
        have hsteps := steps_of_effect he
        cases r with
        | error e =>
          simp only [he, Option.some.injEq] at h
          subst h
          exact hsteps
        | ok r =>
          simp only [he, Option.some.injEq] at h
          subst h
          exact hsteps
  | crash =>
    simp only [step, Option.some.injEq] at h
    subst h
    exact .stop

/-! ## Files -/

namespace FileArchive

variable {archive : FileArchive} {height height' : ℕ} {block block' : StoredLightBlockInput}
  {bytes : Bytes}

theorem Stored.unique (h : archive.Stored height block) (h' : archive.Stored height block') :
    block = block' := by
  obtain ⟨bytes, hl, hd⟩ := h
  obtain ⟨bytes', hl', hd'⟩ := h'
  rw [hl, Option.some.injEq] at hl'
  subst hl'
  rw [hd, Except.ok.injEq] at hd'
  exact hd'

theorem stored_writeBlockBytes_of_ne (hne : height ≠ height') :
    (archive.writeBlockBytes height' bytes).Stored height block ↔ archive.Stored height block := by
  unfold Stored writeBlockBytes
  rw [lookup_insert_ite, if_neg hne]

theorem stored_writeBlockBytes_self :
    (archive.writeBlockBytes height bytes).Stored height block ↔
      decodeStoredLightBlock bytes = .ok block := by
  unfold Stored writeBlockBytes
  rw [lookup_insert_ite, if_pos rfl]
  constructor
  · rintro ⟨b, hb, hd⟩
    rw [Option.some.injEq] at hb
    rwa [hb]
  · intro hd
    exact ⟨bytes, rfl, hd⟩

/-- The block of `height` is still there, up to spent heights. -/
def Kept (archive archive' : FileArchive) (height : ℕ) : Prop :=
  ∀ block, archive.Stored height block →
    ∃ block', archive'.Stored height block' ∧ block'.unmarked = block.unmarked

theorem Kept.refl (archive : FileArchive) (height : ℕ) : Kept archive archive height :=
  fun block h => ⟨block, h, rfl⟩

theorem kept_writeBlockBytes (archive : FileArchive) (bytes : Bytes) (hne : height ≠ height') :
    Kept archive (archive.writeBlockBytes height' bytes) height :=
  fun block h => ⟨block, (stored_writeBlockBytes_of_ne hne).mpr h, rfl⟩

/-- A block seen after a rewrite was there before it, and is its marked form when the
rewrite was its own. -/
theorem stored_markCreationBlock {archive' : FileArchive} {marks : List (UInt32 × UInt32)}
    {updated : ℕ} (h : archive.markCreationBlock (height', marks) = .ok (archive', updated))
    (hs : archive'.Stored height block') :
    ∃ block, archive.Stored height block ∧ ((height ≠ height' ∧ block' = block) ∨
      (height = height' ∧ block' = block.marked marks)) := by
  rcases markCreationBlock_eq_ok h with ⟨hnone, rfl⟩ | ⟨b, bytes, hb, rfl, hdec, -⟩
  · refine ⟨block', hs, Or.inl ⟨?_, rfl⟩⟩
    rintro rfl
    obtain ⟨bytes, hl, -⟩ := hs
    rw [hnone] at hl
    cases hl
  · by_cases hne : height = height'
    · subst hne
      have heq := stored_writeBlockBytes_self.mp hs
      rw [hdec, Except.ok.injEq] at heq
      exact ⟨b, hb, Or.inr ⟨rfl, heq.symm⟩⟩
    · exact ⟨block', (stored_writeBlockBytes_of_ne hne).mp hs, Or.inl ⟨hne, rfl⟩⟩

theorem mark_index_lt {archive' : FileArchive} {marks : List (UInt32 × UInt32)} {updated : ℕ}
    (h : archive.markCreationBlock (height, marks) = .ok (archive', updated))
    (hs : archive.Stored height block) : ∀ m ∈ marks, m.1.toNat < block.outputs.length := by
  rcases markCreationBlock_eq_ok h with ⟨hnone, rfl⟩ | ⟨b, bytes, hb, rfl, -, hlt⟩
  · obtain ⟨bytes, hl, -⟩ := hs
    rw [hnone] at hl
    cases hl
  · rw [hs.unique hb]
    exact hlt

theorem kept_markCreationBlock {archive' : FileArchive} {group : ℕ × List (UInt32 × UInt32)}
    {updated : ℕ} (h : archive.markCreationBlock group = .ok (archive', updated)) (height : ℕ) :
    Kept archive archive' height := by
  obtain ⟨height', marks⟩ := group
  rcases markCreationBlock_eq_ok h with ⟨-, rfl⟩ | ⟨b, bytes, hb, rfl, hdec, -⟩
  · exact Kept.refl _ _
  · intro block hblock
    by_cases hne : height = height'
    · subst hne
      rw [hblock.unique hb]
      exact ⟨_, stored_writeBlockBytes_self.mpr hdec, unmarked_marked b marks⟩
    · exact ⟨block, (stored_writeBlockBytes_of_ne hne).mpr hblock, rfl⟩

end FileArchive

/-- The file of a pending block has been written. -/
def Written (archive : FileArchive) (p : Pending) : Prop :=
  ∃ block, archive.Stored p.applied.storageBlock.height block ∧
    block.unmarked = p.applied.storageBlock.normalised.unmarked

theorem Written.kept {archive archive' : FileArchive} {p : Pending} (h : Written archive p)
    (hk : FileArchive.Kept archive archive' p.applied.storageBlock.height) : Written archive' p := by
  obtain ⟨block, hs, hu⟩ := h
  obtain ⟨block', hs', hu'⟩ := hk block hs
  exact ⟨block', hs', hu'.trans hu⟩

end

end BitcoinData
