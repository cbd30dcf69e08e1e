import BitcoinData.Sanity.Entries
import BitcoinData.Sanity.Sample

/-! Stored spent heights and the spends that back them. A spent height is written into
a committed file before the window that spends the output is committed, so a crash in
between leaves a mark that another branch may not repeat. When every window spends
again whatever carries a mark inside its heights, each mark at or below the tip is
backed by a stored spend. -/

namespace BitcoinData

open Lib

section
variable [Externals]

/-- The stored block at height `s` spends output `i` of the block at `height`. -/
def Backed (archive : FileArchive) (height : ℕ) (block : StoredLightBlockInput) (i : ℕ)
    (s : UInt32) : Prop :=
  ∃ spendBlock spend, archive.Stored s.toNat spendBlock ∧ spend ∈ spendBlock.spends ∧
    spend.spentUid.toNat = block.outputUid i ∧ spend.creationHeight.toNat = height

/-- Every spent height at or below the tip, in a block at or below the tip, is backed. -/
def SpendsBacked (disk : Disk) : Prop :=
  ∀ tip, disk.indexStore.tip = some tip →
    ∀ (height : ℕ) (block : StoredLightBlockInput) (i : ℕ), height ≤ tip.height →
      disk.archive.Stored height block → i < block.outputs.length →
      block.mark i ≠ STORAGE_SPENT_HEIGHT_UNSPENT → (block.mark i).toNat ≤ tip.height →
      Backed disk.archive height block i (block.mark i)

/-- A window about to be written spends every committed output that carries a spent
height inside the window. -/
def MarksRespent (config : IndexerConfig) (sys : System) : Prop :=
  ∀ process window, sys.process = some process → process.stage = .writing window window.pending →
    ∀ (height : ℕ) (block : StoredLightBlockInput) (i : ℕ),
      height < nextHeight config sys.disk.indexStore → sys.disk.archive.Stored height block →
      i < block.outputs.length → block.mark i ≠ STORAGE_SPENT_HEIGHT_UNSPENT →
      nextHeight config sys.disk.indexStore ≤ (block.mark i).toNat →
      (block.mark i).toNat ≤ window.lastHeight →
      ∃ index spentHeight, index.toNat = i ∧ (height, index, spentHeight) ∈ window.spends

theorem Backed.kept {archive archive' : FileArchive} {height i : ℕ}
    {block block' : StoredLightBlockInput} {s : UInt32} (h : Backed archive height block i s)
    (hk : FileArchive.Kept archive archive' s.toNat) (hu : block'.unmarked = block.unmarked) :
    Backed archive' height block' i s := by
  obtain ⟨spendBlock, spend, hs, hmem, huid, hheight⟩ := h
  obtain ⟨spendBlock', hs', hu'⟩ := hk spendBlock hs
  refine ⟨spendBlock', spend, hs', ?_, ?_, hheight⟩
  · rw [spends_of_unmarked hu']
    exact hmem
  · rw [outputUid_of_unmarked hu]
    exact huid

/-! ## Rows -/

/-- The blocks of the committed heights. -/
def committedSrc (config : IndexerConfig) (disk : Disk) (height : ℕ)
    (block : StoredLightBlockInput) : Prop :=
  height < nextHeight config disk.indexStore ∧ disk.archive.Stored height block

/-- The blocks of the committed heights and of a window above them. -/
def windowSrc (config : IndexerConfig) (disk : Disk) (window : Window) (height : ℕ)
    (block : StoredLightBlockInput) : Prop :=
  committedSrc config disk height block ∨
    ∃ p ∈ window.pending, p.applied.storageBlock.height = height ∧ block = p.applied.storageBlock

/-- The rows of a window in flight name outputs, and its spends are stored with the
blocks that make them. -/
structure WindowRows (config : IndexerConfig) (disk : Disk) (window : Window) : Prop where
  state : EntriesFrom (windowSrc config disk window) window.state.outpointToSpend
  created : ∀ p ∈ window.pending, ∀ created ∈ p.applied.createdUtxos,
    EntryFrom (windowSrc config disk window) (createdPair created).2
  spent : ∀ p ∈ window.pending, ∀ spent ∈ p.applied.spentUtxos,
    EntryFrom (windowSrc config disk window) (spentLookup spent)

theorem committedSrc_kept {config : IndexerConfig} {disk disk' : Disk}
    (hnext : nextHeight config disk.indexStore ≤ nextHeight config disk'.indexStore)
    (hk : ∀ height, height < nextHeight config disk.indexStore →
      FileArchive.Kept disk.archive disk'.archive height) {height : ℕ}
    {block : StoredLightBlockInput} (h : committedSrc config disk height block) :
    ∃ block', committedSrc config disk' height block' ∧ SameUids block' block := by
  obtain ⟨block', hs', hu⟩ := hk height h.1 block h.2
  exact ⟨block', ⟨lt_of_lt_of_le h.1 hnext, hs'⟩, sameUids_of_unmarked hu⟩

theorem WindowRows.kept {config : IndexerConfig} {disk disk' : Disk} {window : Window}
    (h : WindowRows config disk window)
    (hnext : nextHeight config disk.indexStore ≤ nextHeight config disk'.indexStore)
    (hk : ∀ height, height < nextHeight config disk.indexStore →
      FileArchive.Kept disk.archive disk'.archive height) :
    WindowRows config disk' window := by
  have hsrc : ∀ height block, windowSrc config disk window height block →
      ∃ block', windowSrc config disk' window height block' ∧ SameUids block' block := by
    rintro height block (hb | hp)
    · obtain ⟨block', hb', hsame⟩ := committedSrc_kept hnext hk hb
      exact ⟨block', Or.inl hb', hsame⟩
    · exact ⟨block, Or.inr hp, rfl, fun _ => rfl⟩
  exact ⟨fun o e ho => (h.state o e ho).mono hsrc, fun p hp c hc => (h.created p hp c hc).mono hsrc,
    fun p hp s hs => (h.spent p hp s hs).mono hsrc⟩

theorem WindowSpec.rows {config : IndexerConfig} {disk : Disk} {start : P2trIndexerState}
    {window : Window} {done : List (BlockScanInput × Pending)}
    (hw : WindowSpec disk.indexStore start (nextHeight config disk.indexStore) window done)
    (hdb : EntriesFrom (committedSrc config disk) disk.indexStore.outpoints)
    (hm : EntriesFrom (committedSrc config disk) start.outpointToSpend) :
    WindowRows config disk window := by
  have hsrc : ∀ d ∈ done, windowSrc config disk window d.1.height d.2.applied.storageBlock := by
    intro d hd
    refine Or.inr ⟨d.2, ?_, (hw.stored_height hd).1, rfl⟩
    rw [hw.pending]
    exact List.mem_map_of_mem hd
  have hweak : ∀ m, EntriesFrom (committedSrc config disk) m →
      EntriesFrom (windowSrc config disk window) m := by
    intro m h o e ho
    obtain ⟨block, hb, hrest⟩ := h o e ho
    exact ⟨block, Or.inl hb, hrest⟩
  obtain ⟨hstate, hspent⟩ := hw.trace.entries hsrc (hweak _ hdb) (hweak _ hm)
  refine ⟨hstate, fun p hp => ?_, fun p hp => ?_⟩
  · obtain ⟨d, hd, rfl⟩ := hw.mem_pending hp
    obtain ⟨⟨s, s', hs⟩, -⟩ := hw.trace.mem hd
    exact fun created hc => hs.created_entry (hsrc d hd) hc
  · obtain ⟨d, hd, rfl⟩ := hw.mem_pending hp
    exact hspent d hd

/-! ## The invariant -/

/-- The marks while the creation blocks of a window are being rewritten: a mark inside
the window is one of the window's own, or will be overwritten by one. -/
def MarksPending (config : IndexerConfig) (disk : Disk) (window : Window)
    (rest : List (ℕ × List (UInt32 × UInt32))) : Prop :=
  ∀ (height : ℕ) (block : StoredLightBlockInput) (i : ℕ), height ≤ window.lastHeight →
    disk.archive.Stored height block → i < block.outputs.length →
    block.mark i ≠ STORAGE_SPENT_HEIGHT_UNSPENT →
    nextHeight config disk.indexStore ≤ height ∨
      nextHeight config disk.indexStore ≤ (block.mark i).toNat →
    (block.mark i).toNat ≤ window.lastHeight →
    (∃ index, index.toNat = i ∧ (height, index, (block.mark i).toNat) ∈ window.spends) ∨
      ∃ m : UInt32 × UInt32, m.1.toNat = i ∧ FileArchive.InGroups rest height m

def SpendStage (config : IndexerConfig) (disk : Disk) (process : Process) : Prop :=
  match process.stage with
  | .writing window rest => WindowRows config disk window ∧
    (∀ (height : ℕ) (block : StoredLightBlockInput) (i : ℕ),
      height < nextHeight config disk.indexStore → disk.archive.Stored height block →
      i < block.outputs.length → block.mark i ≠ STORAGE_SPENT_HEIGHT_UNSPENT →
      nextHeight config disk.indexStore ≤ (block.mark i).toNat →
      (block.mark i).toNat ≤ window.lastHeight →
      ∃ index spentHeight, index.toNat = i ∧ (height, index, spentHeight) ∈ window.spends) ∧
    ∃ written, window.pending = written ++ rest ∧ ∀ p ∈ written, FreshFile disk.archive p
  | .marking window rest => WindowRows config disk window ∧ MarksPending config disk window rest ∧
    ∀ height m, FileArchive.InGroups rest height m → (height, m.1, m.2.toNat) ∈ window.spends
  | _ => EntriesFrom (committedSrc config disk) process.state.outpointToSpend

structure SpendInv (config : IndexerConfig) (sys : System) : Prop where
  base : Base config sys
  marks : ∀ (height : ℕ) (block : StoredLightBlockInput) (i : ℕ),
    height < nextHeight config sys.disk.indexStore → sys.disk.archive.Stored height block →
    i < block.outputs.length → block.mark i ≠ STORAGE_SPENT_HEIGHT_UNSPENT →
    (block.mark i).toNat < nextHeight config sys.disk.indexStore →
    Backed sys.disk.archive height block i (block.mark i)
  db : EntriesFrom (committedSrc config sys.disk) sys.disk.indexStore.outpoints
  stage : ∀ process, sys.process = some process → SpendStage config sys.disk process

variable {config : IndexerConfig}

theorem SpendInv.init (config : IndexerConfig) : SpendInv config System.init where
  base := Base.init config
  marks := by
    intro height block i hlt hs
    obtain ⟨bytes, hl, -⟩ := hs
    cases hl
  db := by
    intro o e h
    cases h
  stage := fun process h => by cases h

/-- Rows of the committed heights stay rows of the committed heights. -/
theorem entries_kept {disk disk' : Disk} {m : SpendMap}
    (hnext : nextHeight config disk.indexStore ≤ nextHeight config disk'.indexStore)
    (hk : ∀ height, height < nextHeight config disk.indexStore →
      FileArchive.Kept disk.archive disk'.archive height)
    (h : EntriesFrom (committedSrc config disk) m) : EntriesFrom (committedSrc config disk') m :=
  fun o e ho => (h o e ho).mono fun _ _ hb => committedSrc_kept hnext hk hb

/-- Marks below the window survive the rewrite of a creation block, and no new ones
appear there. -/
theorem SpendInv.marks_mark {disk : Disk} {process : Process} {window : Window}
    {height₀ updated : ℕ} {marks : List (UInt32 × UInt32)} {archive : FileArchive}
    (hi : SpendInv config ⟨disk, some process⟩)
    (hf : Flight config disk.indexStore process window)
    (hgroups : ∀ m ∈ marks, (height₀, m.1, m.2.toNat) ∈ window.spends)
    (hm : disk.archive.markCreationBlock (height₀, marks) = .ok (archive, updated)) :
    ∀ (height : ℕ) (block : StoredLightBlockInput) (i : ℕ),
      height < nextHeight config disk.indexStore → archive.Stored height block →
      i < block.outputs.length → block.mark i ≠ STORAGE_SPENT_HEIGHT_UNSPENT →
      (block.mark i).toNat < nextHeight config disk.indexStore →
      Backed archive height block i (block.mark i) := by
  intro height block' i hlt hs hi' hne hbelow
  have hkept := FileArchive.kept_markCreationBlock hm
  obtain ⟨block, hb, ⟨-, rfl⟩ | ⟨rfl, rfl⟩⟩ := FileArchive.stored_markCreationBlock hm hs
  · exact (hi.marks height block' i hlt hb hi' hne hbelow).kept (hkept _) rfl
  · have hlen : i < block.outputs.length := by
      rwa [outputs_length_of_unmarked (unmarked_marked block marks)] at hi'
    obtain ⟨hhit, hmiss⟩ := mark_marked block marks hlen
    by_cases hex : ∃ m ∈ marks, m.1.toNat = i
    · obtain ⟨m, hmem, -, hmark⟩ := hhit hex
      have := (hf.spends_height (hgroups m hmem)).1
      rw [hmark] at hbelow
      omega
    · push Not at hex
      have hsame := hmiss hex
      rw [hsame] at hne hbelow ⊢
      exact (hi.marks height block i hlt hb hlen hne hbelow).kept (hkept _) (unmarked_marked _ _)

/-- Rewriting a creation block turns the marks of its group into marks of the window. -/
theorem MarksPending.mark {disk : Disk} {window : Window} {height₀ updated : ℕ}
    {marks : List (UInt32 × UInt32)} {rest : List (ℕ × List (UInt32 × UInt32))}
    {archive : FileArchive} (hp : MarksPending config disk window ((height₀, marks) :: rest))
    (hgroups : ∀ m ∈ marks, (height₀, m.1, m.2.toNat) ∈ window.spends)
    (hm : disk.archive.markCreationBlock (height₀, marks) = .ok (archive, updated)) :
    MarksPending config { disk with archive := archive } window rest := by
  intro height block' i hle hs hi hne hrange hlast
  obtain ⟨block, hb, ⟨hother, rfl⟩ | ⟨rfl, rfl⟩⟩ := FileArchive.stored_markCreationBlock hm hs
  · rcases hp height block' i hle hb hi hne hrange hlast with h | ⟨m, hmi, ms, hmem, hmm⟩
    · exact Or.inl h
    · rcases List.mem_cons.mp hmem with heq | hmem
      · exact absurd (Prod.mk.inj heq).1 hother
      · exact Or.inr ⟨m, hmi, ms, hmem, hmm⟩
  · have hlen : i < block.outputs.length := by
      rwa [outputs_length_of_unmarked (unmarked_marked block marks)] at hi
    obtain ⟨hhit, hmiss⟩ := mark_marked block marks hlen
    by_cases hex : ∃ m ∈ marks, m.1.toNat = i
    · obtain ⟨m, hmem, hmi, hmark⟩ := hhit hex
      rw [hmark]
      exact Or.inl ⟨m.1, hmi, hgroups m hmem⟩
    · push Not at hex
      rw [hmiss hex] at hne hrange hlast ⊢
      rcases hp height block i hle hb hlen hne hrange hlast with h | ⟨m, hmi, ms, hmem, hmm⟩
      · exact Or.inl h
      · rcases List.mem_cons.mp hmem with heq | hmem
        · rw [(Prod.mk.inj heq).2] at hmm
          exact absurd hmi (hex m hmm)
        · exact Or.inr ⟨m, hmi, ms, hmem, hmm⟩

theorem windowSrc_file {disk : Disk} {window : Window}
    (hwritten : ∀ p ∈ window.pending, Written disk.archive p) {height : ℕ}
    {block block' : StoredLightBlockInput} (h : windowSrc config disk window height block)
    (hs : disk.archive.Stored height block') : SameUids block' block := by
  rcases h with ⟨-, hb⟩ | ⟨p, hp, rfl, rfl⟩
  · rw [hs.unique hb]
    exact ⟨rfl, fun _ => rfl⟩
  · obtain ⟨b, hb, hu⟩ := hwritten p hp
    have hsame := sameUids_of_unmarked hu
    rw [hs.unique hb]
    exact hsame

theorem backed_of_spends {disk : Disk} {process : Process} {window : Window}
    (hf : Flight config disk.indexStore process window)
    (hwritten : ∀ p ∈ window.pending, Written disk.archive p)
    (hrows : WindowRows config disk window) {height i : ℕ} {block : StoredLightBlockInput}
    {s index : UInt32} (hs : disk.archive.Stored height block) (hi : index.toNat = i)
    (h : (height, index, s.toNat) ∈ window.spends) : Backed disk.archive height block i s := by
  obtain ⟨start, done, hw⟩ := hf.spec
  obtain ⟨p, hp, spent, hspent, hheight, hindex, hpheight, spend, hmem, huid, hcreation⟩ :=
    hw.spends_mem h
  obtain ⟨src, hsrc, -, hsrcuid⟩ := hrows.spent p hp spent hspent
  replace hsrc : windowSrc config disk window height src := hheight ▸ hsrc
  replace hsrcuid : src.outputUid spent.outputIndex.toNat = spent.uid.toNat := hsrcuid
  rw [hindex, hi] at hsrcuid
  obtain ⟨spendBlock, hsb, hu⟩ := hwritten p hp
  rw [hpheight] at hsb
  refine ⟨spendBlock, spend, hsb, ?_, ?_, hcreation⟩
  · rw [spends_of_unmarked hu]
    exact hmem
  · rw [huid, (windowSrc_file hwritten hsrc hs).2 i, hsrcuid]

/-- What the next commit can rely on. -/
theorem SpendInv.commit {disk : Disk} {state : P2trIndexerState} {next : ℕ} {window : Window}
    (hi : SpendInv config ⟨disk, some ⟨state, next, .marking window []⟩⟩)
    (hb : Base config ⟨{ disk with
      indexStore := disk.indexStore.commitAppliedBlocks (window.pending.map (·.applied))
        window.lastHeight window.lastHash window.state.lastUid },
      some ⟨state, next, .truncating window⟩⟩) :
    SpendInv config ⟨{ disk with
      indexStore := disk.indexStore.commitAppliedBlocks (window.pending.map (·.applied))
        window.lastHeight window.lastHash window.state.lastUid },
      some ⟨state, next, .truncating window⟩⟩ := by
  obtain ⟨hf, hwritten⟩ := hi.base.marking rfl
  obtain ⟨hrows, hpending, -⟩ : WindowRows config disk window ∧ MarksPending config disk window [] ∧ _ :=
    hi.stage _ rfl
  obtain ⟨start, done, hw⟩ := hf.spec
  have hlast := hw.lastHeight_eq.2
  have hnext : nextHeight config (disk.indexStore.commitAppliedBlocks
      (window.pending.map (·.applied)) window.lastHeight window.lastHash
      window.state.lastUid) = window.lastHeight + 1 :=
    nextHeight_of_tip (commitAppliedBlocks_tip _ _ _ _ _)
  -- every block a row can point to is now a committed file
  have hsrc : ∀ height block, windowSrc config disk window height block →
      ∃ block', committedSrc config { disk with
        indexStore := disk.indexStore.commitAppliedBlocks (window.pending.map (·.applied))
          window.lastHeight window.lastHash window.state.lastUid } height block' ∧
        SameUids block' block := by
    rintro height block (⟨hlt, hs⟩ | ⟨p, hp, rfl, rfl⟩)
    · exact ⟨block, ⟨by rw [hnext]; omega, hs⟩, rfl, fun _ => rfl⟩
    · obtain ⟨b, hb, hu⟩ := hwritten p hp
      obtain ⟨-, -, hhi, -⟩ := hw.pending_height hp
      have hsame := sameUids_of_unmarked hu
      exact ⟨b, ⟨by rw [hnext]; omega, hb⟩, hsame⟩
  refine ⟨hb, ?_, ?_, ?_⟩
  · intro height block i hlt hs hlen hne hmark
    simp only [hnext] at hlt hmark
    by_cases hold : height < nextHeight config disk.indexStore ∧
        (block.mark i).toNat < nextHeight config disk.indexStore
    · exact hi.marks height block i hold.1 hs hlen hne hold.2
    · have hrange : nextHeight config disk.indexStore ≤ height ∨
          nextHeight config disk.indexStore ≤ (block.mark i).toNat := by omega
      rcases hpending height block i (by omega) hs hlen hne hrange (by omega) with
        ⟨index, hindex, hmem⟩ | ⟨m, -, ms, hm, -⟩
      · exact backed_of_spends hf hwritten hrows hs hindex hmem
      · cases hm
  · apply commit_entries
    · exact fun o e ho => (hi.db o e ho).mono fun height block hb => hsrc height block (Or.inl hb)
    · intro b hb created hc
      obtain ⟨p, hp, rfl⟩ := List.mem_map.mp hb
      exact (hrows.created p hp created hc).mono hsrc
  · rintro process ⟨⟩
    change EntriesFrom _ state.outpointToSpend
    rw [show state = window.state from hf.state]
    exact fun o e ho => (hrows.state o e ho).mono hsrc

theorem SpendInv.step {sys sys' : System} {a : Action} (hi : SpendInv config sys)
    (h : Steps config sys a sys') (hcond : MarksRespent config sys') : SpendInv config sys' := by
  have hbase := hi.base.step h
  have hkept := h.kept hi.base
  have hnext := h.nextHeight_le hi.base
  cases h with
  | start hs =>
    obtain ⟨network, startHeight, rfl, rfl⟩ := startProcess_eq_ok hs
    refine ⟨hbase, hi.marks, hi.db, ?_⟩
    rintro process ⟨⟩
    intro o e ho
    cases ho
  | stop => exact ⟨hbase, hi.marks, hi.db, fun process h => by cases h⟩
  | @window disk state next best tuning fetch window hw =>
    refine ⟨hbase, hi.marks, hi.db, ?_⟩
    rintro process ⟨⟩
    have hstart : next = nextHeight config disk.indexStore := hi.base.stage _ rfl
    rw [hstart] at hw
    obtain ⟨done, hspec, -⟩ := catchUpWindow_spec hi.base.files.emit hw
    exact ⟨hspec.rows hi.db (hi.stage _ rfl), hcond _ window rfl rfl, [], rfl, by simp⟩
  | @write disk state next window p rest =>
    obtain ⟨hf, written₀, hp₀, -⟩ := hi.base.inFlight rfl
    obtain ⟨hrows, hrespent, written, hp, hfresh⟩ : _ ∧ _ ∧ _ := hi.stage _ rfl
    obtain ⟨hheight, hlo, hdec, hne⟩ := hf.write_height hp
    obtain ⟨start, done, hw⟩ := hf.spec
    have hback := hf.stored_write hp
    refine ⟨hbase, ?_, entries_kept hnext hkept hi.db, ?_⟩
    · intro height block i hlt hs hlen hmark hbelow
      exact (hi.marks height block i hlt ((hback height block hlt).mp hs) hlen hmark hbelow).kept
        (hkept _ hbelow) rfl
    · rintro process ⟨⟩
      refine ⟨hrows.kept hnext hkept, ?_, written ++ [p], by simp [hp],
        FreshFile.write hw hp hheight hdec hne hfresh⟩
      intro height block i hlt hs
      exact hrespent height block i hlt ((hback height block hlt).mp hs)
  | @group disk state next window groups hg =>
    obtain ⟨hf, -⟩ := hi.base.inFlight rfl
    obtain ⟨hrows, hrespent, written, hp, hfresh⟩ : _ ∧ _ ∧ _ := hi.stage _ rfl
    rw [List.append_nil] at hp
    obtain ⟨start, done, hw⟩ := hf.spec
    refine ⟨hbase, hi.marks, hi.db, ?_⟩
    rintro process ⟨⟩
    refine ⟨hrows, ?_, fun height m hm => (FileArchive.inGroups_groupSpends hg _ _ _).mp hm⟩
    intro height block i hle hs hlen hmark hrange hlast
    by_cases hlt : height < nextHeight config disk.indexStore
    · obtain ⟨index, spentHeight, hindex, hmem⟩ := hrespent height block i hlt hs hlen hmark
        (hrange.resolve_left (not_le.mpr hlt)) hlast
      have hbound := (hf.spends_height hmem).2.2
      refine Or.inr ⟨(index, UInt32.ofNat spentHeight), hindex, ?_⟩
      rw [FileArchive.inGroups_groupSpends hg, UInt32.toNat_ofNat_of_lt'
        (lt_of_le_of_lt hbound (by decide))]
      exact hmem
    · -- a file of the window, just written
      obtain ⟨d, hd, hheight⟩ := hw.exists_of_height (by omega)
        (by have := hw.lastHeight_eq.2; omega : height < _ + done.length)
      have hmemd := List.mem_of_getElem? hd
      have hpend : d.2 ∈ written := by
        rw [← hp, hw.pending]
        exact List.mem_map_of_mem hmemd
      rw [← hheight, ← (hw.stored_height hmemd).1] at hs
      exact absurd (hfresh d.2 hpend block hs i hlen) hmark
  | @mark disk state next height₀ updated window marks rest archive hm =>
    obtain ⟨hf, -⟩ := hi.base.marking rfl
    obtain ⟨hrows, hpending, hgroups⟩ : _ ∧ MarksPending config disk window _ ∧ _ := hi.stage _ rfl
    have hfirst : ∀ m ∈ marks, (height₀, m.1, m.2.toNat) ∈ window.spends := fun m hmem =>
      hgroups height₀ m ⟨marks, List.mem_cons_self, hmem⟩
    refine ⟨hbase, hi.marks_mark hf hfirst hm, entries_kept hnext hkept hi.db, ?_⟩
    rintro process ⟨⟩
    refine ⟨hrows.kept hnext hkept, hpending.mark hfirst hm, ?_⟩
    rintro height m ⟨ms, hmem, hmm⟩
    exact hgroups height m ⟨ms, List.mem_cons_of_mem _ hmem, hmm⟩
  | commit => exact hi.commit hbase
  | truncate =>
    refine ⟨hbase, hi.marks, hi.db, ?_⟩
    rintro process ⟨⟩
    exact hi.stage _ rfl
  | finish =>
    refine ⟨hbase, hi.marks, hi.db, ?_⟩
    rintro process ⟨⟩
    exact hi.stage _ rfl

/-- In a run that never writes a window over marks it does not repeat, every stored
spent height at or below the tip is backed by a stored spend. -/
theorem spends_backed (config : IndexerConfig) (acts : List Action) (sys : System)
    (hrun : run (step config) System.init acts = some sys)
    (hcond : ∀ pre, pre <+: acts → ∀ s, run (step config) System.init pre = some s →
      MarksRespent config s) :
    SpendsBacked sys.disk := by
  have hi : SpendInv config sys := run_invariant_of_states
    (fun a s s' hs hstep hP => hs.step (steps_of_step hstep) hP) (SpendInv.init config) hrun hcond
  intro tip htip height block i hle hs hlen hne hmark
  have hnext : nextHeight config sys.disk.indexStore = tip.height + 1 := nextHeight_of_tip htip
  exact hi.marks height block i (by omega) hs hlen hne (by omega)

end

/-! Block 100 pays an output. A window with block 101 of one branch, which spends it,
is interrupted after the mark; block 101 of another branch is committed instead. -/

section
attribute [local instance] sampleExternals

def firstBlock : BlockScanInput := sampleBlock 100 1 0 [sampleTx 10 0 [] [1]]
def spendingBranch : BlockScanInput := sampleBlock 101 2 1 [sampleTx 11 0 [⟨sampleId 10, 0⟩] []]
def otherBranch : BlockScanInput := sampleBlock 101 3 1 []

def commitFirst : List Action :=
  [.start, sampleCatchUp 101 [firstBlock]] ++ List.replicate 5 .effect

def staleMarkActions : List Action :=
  commitFirst ++ [sampleCatchUp 102 [spendingBranch]] ++ List.replicate 3 .effect ++
    [.crash, .start, sampleCatchUp 102 [otherBranch]] ++ List.replicate 3 .effect

/-- The committed tip is 101, output 0 of block 100 is marked as spent at 101, and block
101 spends nothing. -/
theorem stale_mark_state : ∃ sys tip block spendBlock, Reachable sampleConfig sys ∧
    sys.disk.indexStore.tip = some tip ∧ tip.height = 101 ∧ sys.disk.archive.Stored 100 block ∧
    0 < block.outputs.length ∧ block.mark 0 = 101 ∧ sys.disk.archive.Stored 101 spendBlock ∧
    spendBlock.spends = [] := by
  have hrun : ((run (step sampleConfig) System.init staleMarkActions).any fun sys =>
      (sys.disk.indexStore.tip.any fun tip => decide (tip.height = 101)) = true ∧
      ((sys.disk.archive.blocks.lookup 100).any fun bytes =>
        (decodeStoredLightBlock bytes).toOption.any fun block =>
          decide (0 < block.outputs.length ∧ block.mark 0 = 101)) = true ∧
      ((sys.disk.archive.blocks.lookup 101).any fun bytes =>
        (decodeStoredLightBlock bytes).toOption.any fun block => decide (block.spends = [])) =
        true) = true := by
    decide +kernel
  obtain ⟨sys, hsys, hfacts⟩ := (Option.any_eq_true _ _).mp hrun
  obtain ⟨htip, h100, h101⟩ := of_decide_eq_true hfacts
  obtain ⟨tip, ht, hheight⟩ := (Option.any_eq_true _ _).mp htip
  obtain ⟨bytes, hl, hd⟩ := (Option.any_eq_true _ _).mp h100
  obtain ⟨block, hb, hmark⟩ := (Option.any_eq_true _ _).mp hd
  obtain ⟨bytes', hl', hd'⟩ := (Option.any_eq_true _ _).mp h101
  obtain ⟨spendBlock, hsb, hspends⟩ := (Option.any_eq_true _ _).mp hd'
  obtain ⟨hlen, hmark⟩ := of_decide_eq_true hmark
  exact ⟨sys, tip, block, spendBlock, ⟨_, hsys⟩, ht, of_decide_eq_true hheight,
    ⟨bytes, hl, toOption_eq_some.mp hb⟩, hlen, hmark, ⟨bytes', hl', toOption_eq_some.mp hsb⟩,
    of_decide_eq_true hspends⟩

theorem stale_mark_committed : ∃ sys, Reachable sampleConfig sys ∧ ¬ SpendsBacked sys.disk := by
  obtain ⟨sys, tip, block, spendBlock, hreach, htip, hheight, hs, hlen, hmark, hsb, hspends⟩ :=
    stale_mark_state
  refine ⟨sys, hreach, fun hbacked => ?_⟩
  have hle : (block.mark 0).toNat ≤ tip.height := by
    rw [hmark, hheight]
    decide
  obtain ⟨spendBlock', spend, hsb', hmem, -⟩ := hbacked tip htip 100 block 0 (by omega) hs hlen
    (by rw [hmark]; decide) hle
  rw [hmark] at hsb'
  rw [hsb'.unique hsb, hspends] at hmem
  cases hmem

def spendInWindow : List Action :=
  [.start, sampleCatchUp 102 [firstBlock, spendingBranch]] ++ List.replicate 5 .effect

/-- Nothing below the next height is on disk, or no window is being written. -/
def quiet (sys : System) : Bool :=
  decide (∀ height ∈ sys.disk.archive.blocks.keys,
    nextHeight sampleConfig sys.disk.indexStore ≤ height) ||
  match sys.process with
  | some ⟨_, _, .writing _ _⟩ => false
  | _ => true

theorem marksRespent_of_quiet {sys : System} (h : quiet sys = true) :
    MarksRespent sampleConfig sys := by
  intro process window hp hstage height block i hlt hs
  rcases Bool.or_eq_true_iff.mp h with h | h
  · obtain ⟨bytes, hl, -⟩ := hs
    have hmem : height ∈ sys.disk.archive.blocks.keys :=
      Finmap.mem_keys.mpr (Finmap.mem_of_lookup_eq_some hl)
    exact absurd (of_decide_eq_true h height hmem) (not_le.mpr hlt)
  · obtain ⟨state, next, stage⟩ := process
    simp only at hstage
    subst hstage
    rw [hp] at h
    cases h

theorem spends_backed_sample : ∃ sys tip, Reachable sampleConfig sys ∧
    sys.disk.indexStore.tip = some tip ∧ SpendsBacked sys.disk := by
  have hsome : ((run (step sampleConfig) System.init spendInWindow).bind fun sys =>
      sys.disk.indexStore.tip).isSome = true := by decide +kernel
  have hquiet : (spendInWindow.inits.all fun pre =>
      (run (step sampleConfig) System.init pre).all quiet) = true := by decide +kernel
  obtain ⟨tip, htip⟩ := Option.isSome_iff_exists.mp hsome
  obtain ⟨sys, hrun, htip⟩ := Option.bind_eq_some_iff.mp htip
  refine ⟨sys, tip, ⟨_, hrun⟩, htip, spends_backed _ _ _ hrun fun pre hpre s hs => ?_⟩
  have hall := List.all_eq_true.mp hquiet pre ((List.mem_inits _ _).mpr hpre)
  rw [hs] at hall
  exact marksRespent_of_quiet hall

end

end BitcoinData
