import BitcoinData.Sanity.Stats.Csv
import BitcoinData.Sanity.Stats.Pruning
import BitcoinData.Sanity.Stats.Sample

/-! The CSV file over any number of stopped runs and one that completes. Between two runs the
file has the rows of the heights from the start on, at least up to the newest checkpoint. -/

namespace BitcoinData.Stats

open Lib

/-! ## The sink of a run -/

/-- A sink that has no rows of its run yet. -/
def Ready (sink : CsvSink) (rows : List (List Char)) : Prop :=
  SinkHolds sink [] [BLOCK_STATS_HEADER] ∧ rows = [] ∨ SinkHolds sink (BLOCK_STATS_HEADER :: rows) []

theorem CsvFile.ready {file : List Char} {rows : List (List Char)} (h : CsvFile file rows) :
    Ready (.append file) rows := by
  rcases h.text with ⟨rfl, rfl⟩ | rfl
  · exact .inl ⟨append_empty, rfl⟩
  · exact .inr (append_lines (List.cons_ne_nil _ _))

section
variable {sink : CsvSink} {rows : List (List Char)}

theorem Ready.holds (h : Ready sink rows) : ∃ filed pending, SinkHolds sink filed pending ∧
    filed ++ pending = BLOCK_STATS_HEADER :: rows := by
  rcases h with ⟨h, rfl⟩ | h
  · exact ⟨_, _, h, rfl⟩
  · exact ⟨_, _, h, List.append_nil _⟩

theorem Ready.flushed (h : Ready sink rows) : sink.flush.file = unlines (BLOCK_STATS_HEADER :: rows) := by
  obtain ⟨filed, pending, hholds, hlines⟩ := h.holds
  rw [hholds.flush.file, hlines]

theorem Ready.csvFile (h : Ready sink rows) (hclean : ∀ line ∈ rows, CleanLine line) :
    CsvFile sink.file rows := by
  rcases h with ⟨h, rfl⟩ | h
  · exact ⟨.inl ⟨h.file, rfl⟩, hclean⟩
  · exact ⟨.inr h.file, hclean⟩

/-- Without a rollback, the sink holds what it held and the rows since. -/
theorem SinkHolds.forward {filed pending : List (List Char)} (h : SinkHolds sink filed pending)
    (effects : List ScanEffect) (hforward : ∀ effect ∈ effects, effect.isRollback = false)
    (htext : ∀ row ∈ emittedRows effects, TextRow row) :
    ∃ filed' pending', SinkHolds (effects.foldl CsvSink.apply sink) filed' pending' ∧
      filed' ++ pending' = filed ++ pending ++ (emittedRows effects).map csvLine := by
  induction effects generalizing sink filed pending with
  | nil => exact ⟨filed, pending, h, by simp [emittedRows]⟩
  | cons effect effects ih =>
    have hrest := fun e he => hforward e (List.mem_cons_of_mem _ he)
    cases effect with
    | rollbackToHeight height => exact absurd (hforward _ List.mem_cons_self) (by simp [ScanEffect.isRollback])
    | emitBlock row =>
      have hrows : emittedRows (.emitBlock row :: effects) = row :: emittedRows effects := rfl
      rw [hrows] at htext ⊢
      obtain ⟨filed₁, pending₁, hholds, hlines⟩ := h.emitBlock (htext row List.mem_cons_self)
      obtain ⟨filed', pending', hholds', hlines'⟩ := ih hholds hrest fun r hr =>
        htext r (List.mem_cons_of_mem _ hr)
      refine ⟨filed', pending', hholds', ?_⟩
      rw [hlines', ← List.append_assoc filed₁, hlines]
      simp
    | flush =>
      obtain ⟨filed', pending', hholds, hlines⟩ := ih h.flush hrest htext
      refine ⟨filed', pending', hholds, ?_⟩
      rw [hlines, List.append_nil]
      rfl
    | saveCheckpoint checkpoint => exact ih h hrest htext
    | removeCheckpoint name => exact ih h hrest htext
    | emitRun stats => exact ih h hrest htext

end

/-! ## Rows of consecutive heights -/

/-- Rows of the heights from `start` on. -/
structure RowsFrom (start : ℕ) (rows : List BlockStats) : Prop where
  heights : rows.map (·.height) = List.range' start rows.length
  text : ∀ row ∈ rows, TextRow row

section
variable {start : ℕ} {rows : List BlockStats}

theorem RowsFrom.clean (h : RowsFrom start rows) : ∀ line ∈ rows.map csvLine, CleanLine line := by
  intro line hline
  obtain ⟨row, hrow, rfl⟩ := List.mem_map.mp hline
  exact (h.text row hrow).clean

theorem RowsFrom.append {more : List BlockStats} (h : RowsFrom start rows)
    (hmore : RowsFrom (start + rows.length) more) : RowsFrom start (rows ++ more) where
  heights := by
    rw [List.map_append, h.heights, hmore.heights, List.length_append, List.range'_append_1]
  text row hrow := (List.mem_append.mp hrow).elim (h.text row) (hmore.text row)

theorem RowsFrom.of_heights {count : ℕ} (h : rows.map (·.height) <+: List.range' start count)
    (htext : ∀ row ∈ rows, TextRow row) : rows.length ≤ count ∧ RowsFrom start rows := by
  have hle : rows.length ≤ count := by simpa using h.length_le
  refine ⟨hle, ?_, htext⟩
  rw [List.prefix_iff_eq_take, List.length_map, List.take_range'_of_length_ge hle] at h
  exact h

/-- The rows up to a height are the first ones. -/
theorem RowsFrom.rollback (h : RowsFrom start rows) (height : ℕ) (hbound : start + rows.length ≤ 2 ^ 64) :
    ((rows.map csvLine).filter fun line => (rowHeight line).any (· ≤ height)) =
      (rows.take (height + 1 - start)).map csvLine := by
  have hheights := h.heights
  clear h
  induction rows generalizing start with
  | nil => simp
  | cons row rows ih =>
    rw [List.length_cons] at hbound
    rw [List.map_cons, List.length_cons, List.range'_succ, List.cons.injEq] at hheights
    obtain ⟨hrow, hrows⟩ := hheights
    have hany : (rowHeight (csvLine row)).any (· ≤ height) = decide (start ≤ height) := by
      rw [rowHeight_csvLine, Option.any_some, hrow, Nat.mod_eq_of_lt (by omega)]
    have hrest := ih (by omega) hrows
    rw [List.map_cons, List.filter_cons, hany, hrest]
    by_cases hle : start ≤ height
    · have hsucc : height + 1 - start = height + 1 - (start + 1) + 1 := by omega
      rw [if_pos (decide_eq_true hle), hsucc, List.take_succ_cons, List.map_cons]
    · have hzero : height + 1 - start = 0 := by omega
      have hzero' : height + 1 - (start + 1) = 0 := by omega
      rw [if_neg (by simpa using hle), hzero, hzero', List.take_zero, List.take_zero]

theorem RowsFrom.take (h : RowsFrom start rows) (count : ℕ) : RowsFrom start (rows.take count) := by
  have htaken := (List.take_prefix count rows).map (·.height)
  rw [h.heights] at htaken
  exact (RowsFrom.of_heights htaken fun row hrow => h.text row (List.mem_of_mem_take hrow)).2

end

/-! ## Between two runs -/

section
variable [Sha256] {chain : Chain} {start last window : ℕ} {file : List Char} {dir : CheckpointDir}
variable {rows : List BlockStats}

def Newest (dir : CheckpointDir) (entry : CheckpointFile) : Prop :=
  entry ∈ dir ∧ ∀ other ∈ dir, other.name ≤ entry.name

/-- The file has the rows of the heights from `start` on, at least up to the newest checkpoint,
and every checkpoint is one of scans from `start`. -/
structure Resumable (chain : Chain) (start last window : ℕ) (file : List Char) (dir : CheckpointDir)
    (rows : List BlockStats) : Prop where
  csv : CsvFile file (rows.map csvLine)
  rowsFrom : RowsFrom start rows
  bounded : rows.length ≤ last + 1 - start
  unique : UniqueNames dir
  caught : ∀ entry ∈ dir, isCheckpointName entry.name = true ∧ ∃ checkpoint earlier,
    entry.content = some checkpoint ∧ Caught chain start window earlier checkpoint ∧ checkpoint.height ≤ last
  covered : ∀ entry checkpoint, Newest dir entry → entry.content = some checkpoint →
    checkpoint.height < start + rows.length

theorem resumable_empty : Resumable chain start last window [] [] [] where
  csv := ⟨.inl ⟨rfl, rfl⟩, fun _ h => absurd h List.not_mem_nil⟩
  rowsFrom := ⟨rfl, fun _ h => absurd h List.not_mem_nil⟩
  bounded := Nat.zero_le _
  unique := List.nodup_nil
  caught _ h := absurd h List.not_mem_nil
  covered _ _ h := absurd h.1 List.not_mem_nil

theorem Resumable.exists_newest (h : Resumable chain start last window file dir rows) (hne : dir ≠ []) :
    ∃ entry older, dir.listNewestFirst = entry :: older ∧ Newest dir entry := by
  have hmem : ∀ entry ∈ dir, entry ∈ dir.listNewestFirst := fun entry hentry =>
    mem_listNewestFirst.mpr ⟨hentry, (h.caught entry hentry).1⟩
  obtain ⟨some, hsome⟩ := List.exists_mem_of_ne_nil dir hne
  have hsorted := listNewestFirst_sorted dir
  cases hfiles : dir.listNewestFirst with
  | nil =>
    have := hmem some hsome
    rw [hfiles] at this
    exact absurd this List.not_mem_nil
  | cons entry older =>
    rw [hfiles, List.pairwise_cons] at hsorted
    refine ⟨entry, older, rfl, ?_, fun other hother => ?_⟩
    · exact (mem_listNewestFirst.mp (hfiles ▸ List.mem_cons_self)).1
    · have := hmem other hother
      rw [hfiles] at this
      rcases List.mem_cons.mp this with rfl | hold
      · exact le_rfl
      · exact hsorted.1 other hold

theorem Resumable.dir_nil (h : Resumable chain start last window file dir []) : dir = [] := by
  by_contra hne
  obtain ⟨entry, -, -, hnewest⟩ := h.exists_newest hne
  obtain ⟨-, checkpoint, earlier, hcontent, hcaught, -⟩ := h.caught entry hnewest.1
  have hcovered := h.covered entry checkpoint hnewest hcontent
  have hstart := hcaught.start_le
  rw [List.length_nil] at hcovered
  omega

variable {source : BlockSource} {cfg : ScanConfig} {best : ℕ} {checkpoint : StatsCheckpoint}

theorem Resumable.restored (h : Resumable chain start last window file dir rows)
    (hserves : Serves source chain best) (hlast : last ≤ best)
    (hresume : resumedFrom source cfg dir = .ok (some checkpoint)) :
    cfg.utxoHashWindow = window ∧ ∃ entry, Newest dir entry ∧ entry.content = some checkpoint := by
  have hrestore := resumedFrom_some hresume
  obtain ⟨found, hfound, hcontent, hwindow⟩ := restore_mem hrestore
  obtain ⟨-, same, earlier, hsame, hcaught, -⟩ := h.caught found hfound
  obtain rfl := Option.some.inj (hcontent.symm.trans hsame)
  have hcfg : cfg.utxoHashWindow = window := hwindow.symm.trans hcaught.window_eq
  refine ⟨hcfg, ?_⟩
  obtain ⟨entry, older, hfiles, hnewest⟩ := h.exists_newest (List.ne_nil_of_mem hfound)
  obtain ⟨-, newest, rows', hnewestContent, hgood, hheight⟩ := h.caught entry hnewest.1
  refine ⟨entry, hnewest, ?_⟩
  -- the first file that is tried is good
  have hhash : source.getBlockHash newest.height = .ok newest.blockHash := by
    rw [hserves.blockHash _ (hheight.trans hlast), hgood.hash_eq]
  rw [restoreNewestValidCheckpoint, hfiles, restoreFrom, hnewestContent] at hrestore
  simp only [hgood.version_eq, hgood.window_eq, hcfg, ne_eq, not_true_eq_false, if_false, hhash, ok_bind,
    if_true, pure_eq_ok, Except.ok.injEq, Option.some.injEq] at hrestore
  rw [hnewestContent, hrestore]

/-- The rows a run continues from: they reach up to the height it starts at. -/
structure Continued (chain : Chain) (start last : ℕ) (cfg : ScanConfig) (file : List Char)
    (dir : CheckpointDir) (restored : Option StatsCheckpoint) (base : List BlockStats) : Prop where
  ready : Ready (csvAfter file (ScanLoop.start cfg dir restored).effects) (base.map csvLine)
  rowsFrom : RowsFrom start base
  next : scanStart cfg restored = start + base.length
  caughtUp : ∃ earlier, CaughtUp chain cfg start earlier restored ∧ earlier.length = base.length
  bounded : base.length ≤ last + 1 - start
  newest : ∀ entry, Newest dir entry → ∃ checkpoint, restored = some checkpoint ∧
    entry.content = some checkpoint ∧ checkpoint.height < start + base.length
  caught : ∀ entry ∈ dir, isCheckpointName entry.name = true ∧ ∃ checkpoint earlier,
    entry.content = some checkpoint ∧ Caught chain start cfg.utxoHashWindow earlier checkpoint ∧
      checkpoint.height ≤ last

theorem Caught.length {earlier : List BlockStats} (h : Caught chain start window earlier checkpoint) :
    earlier.length = checkpoint.height + 1 - start := by
  have hheights := congrArg List.length (runBlocks_heights_ok h.run)
  rw [List.length_map, List.length_map, Chain.length_prepared] at hheights
  exact hheights

omit [Sha256] in
theorem UniqueNames.eq_of_newest (h : UniqueNames dir) {a b : CheckpointFile} (ha : Newest dir a)
    (hb : Newest dir b) : a = b :=
  List.inj_on_of_nodup_map h ha.1 hb.1 (le_antisymm (hb.2 a ha.1) (ha.2 b hb.1))

theorem Resumable.continued (h : Resumable chain start last window file dir rows)
    (hserves : Serves source chain best) (hstart : cfg.start = start) (hlast : cfg.maxEnd best = last)
    (hclean : StartsClean file dir source cfg) {restored : Option StatsCheckpoint}
    (hresume : resumedFrom source cfg dir = .ok restored) :
    ∃ base, Continued chain start last cfg file dir restored base := by
  cases restored with
  | none =>
    have hrows : rows = [] := by
      have hfew := hclean hresume
      rcases h.csv.text with ⟨-, hnil⟩ | htext
      · exact List.map_eq_nil_iff.mp hnil
      · rw [htext, lines_unlines h.csv.all_clean, List.length_cons, List.length_map] at hfew
        exact List.eq_nil_of_length_eq_zero (by omega)
    subst hrows
    obtain rfl := h.dir_nil
    exact ⟨[], h.csv.ready, h.rowsFrom, by rw [List.length_nil]; exact hstart, ⟨[], ⟨hstart, rfl⟩, rfl⟩,
      Nat.zero_le _, fun entry hentry => absurd hentry.1 List.not_mem_nil,
      fun entry hentry => absurd hentry List.not_mem_nil⟩
  | some checkpoint =>
    have hle : last ≤ best := hlast ▸ maxEnd_le cfg best
    obtain ⟨rfl, entry, hnewest, hcontent⟩ := h.restored hserves hle hresume
    obtain ⟨-, same, earlier, hsame, hcaught, hheight⟩ := h.caught entry hnewest.1
    obtain rfl := Option.some.inj (hcontent.symm.trans hsame)
    have hcovered := h.covered entry checkpoint hnewest hcontent
    have hlow := hcaught.start_le
    have hbound : start + rows.length ≤ 2 ^ 64 := by
      have hmax : cfg.maxEnd best ≤ U64_MAX := (min_le_left _ _).trans (min_le_right _ _)
      have := h.bounded
      unfold U64_MAX at hmax
      omega
    have hlength : (rows.take (checkpoint.height + 1 - start)).length = checkpoint.height + 1 - start := by
      rw [List.length_take]
      omega
    refine ⟨rows.take (checkpoint.height + 1 - start), .inr ?_, h.rowsFrom.take _, ?_,
      ⟨earlier, hcaught, ?_⟩, ?_, fun other hother => ⟨checkpoint, rfl, ?_, ?_⟩, h.caught⟩
    · obtain ⟨filed, pending, hholds, hlines⟩ := h.csv.opened
      have hrolled := hholds.rollback checkpoint.height hlines h.csv.all_clean
      rw [h.rowsFrom.rollback checkpoint.height hbound] at hrolled
      exact hrolled
    · rw [scanStart, hcaught.next_eq, hlength]
      omega
    · rw [hcaught.length, hlength]
    · rw [hlength]
      omega
    · rw [h.unique.eq_of_newest hother hnewest]
      exact hcontent
    · rw [hlength]
      omega

/-! ## One more run -/

variable {restored : Option StatsCheckpoint} {base : List BlockStats}

omit [Sha256] in
theorem start_dir : (ScanLoop.start cfg dir restored).effects.foldl CheckpointDir.apply dir = dir := by
  cases restored <;> rfl

omit [Sha256] in
/-- A run that has done anything has rolled back first, if it had to. -/
theorem prefix_start {effects more : List ScanEffect} (hne : effects ≠ [])
    (h : effects <+: (ScanLoop.start cfg dir restored).effects ++ more) :
    ∃ rest, effects = (ScanLoop.start cfg dir restored).effects ++ rest ∧ rest <+: more := by
  cases restored with
  | none => exact ⟨effects, rfl, h⟩
  | some checkpoint =>
    obtain ⟨effect, rest, rfl⟩ := List.exists_cons_of_ne_nil hne
    have hsplit := List.cons_prefix_cons.mp h
    exact ⟨rest, by rw [hsplit.1]; rfl, hsplit.2⟩

omit [Sha256] in
theorem reopened_start {rest : List ScanEffect} (h : ∀ effect ∈ rest, effect.isRollback = false) :
    reopened file ((ScanLoop.start cfg dir restored).effects ++ rest) =
      csvAfter file (ScanLoop.start cfg dir restored).effects := by
  have hnone : rest.filter ScanEffect.isRollback = [] := by
    rw [List.filter_eq_nil_iff]
    intro effect heffect
    rw [h effect heffect]
    simp
  unfold reopened
  rw [List.filter_append, hnone, List.append_nil]
  cases restored <;> rfl

/-- The rows that a run has emitted, wherever it is stopped. -/
theorem Continued.emitted (h : Continued chain start last cfg file dir restored base)
    (hserves : Serves source chain best) (hlast : cfg.maxEnd best = last)
    (hresume : resumedFrom source cfg dir = .ok restored) {effects : List ScanEffect}
    (heffects : effects <+: (scan source cfg dir).effects) :
    base.length + (emittedRows effects).length ≤ last + 1 - start ∧
      RowsFrom (start + base.length) (emittedRows effects) := by
  have hrange := hserves.scan_rows hresume heffects
  rw [hlast, h.next] at hrange
  have htext : ∀ row ∈ emittedRows effects, TextRow row := fun row hrow =>
    scan_text hserves hresume row ((heffects.filterMap _).subset hrow)
  obtain ⟨hle, hrows⟩ := RowsFrom.of_heights hrange htext
  have := h.bounded
  exact ⟨by omega, hrows⟩

/-- What is left of a run that was stopped can be resumed again. -/
theorem Continued.stopped (h : Continued chain start last cfg file dir restored base)
    (hunique : UniqueNames dir) (hserves : Serves source chain best) (hlast : cfg.maxEnd best = last)
    (hresume : resumedFrom source cfg dir = .ok restored) {effects : List ScanEffect} (hne : effects ≠ [])
    (heffects : effects <+: (scan source cfg dir).effects) {kept : List BlockStats} {file' : List Char}
    (hsurvives : Survives file effects kept file') :
    Resumable chain start last cfg.utxoHashWindow file' (effects.foldl CheckpointDir.apply dir)
      (base ++ kept) := by
  obtain ⟨hcount, hemitted⟩ := h.emitted hserves hlast hresume heffects
  obtain ⟨hkeptCount, hkept⟩ : kept.length ≤ (emittedRows effects).length ∧
      RowsFrom (start + base.length) kept := by
    have hheights := hsurvives.emitted.map (·.height)
    rw [hemitted.heights] at hheights
    exact RowsFrom.of_heights hheights fun row hrow => hemitted.text row (hsurvives.emitted.subset hrow)
  have hall := h.rowsFrom.append hkept
  obtain ⟨loop, more, hmore, hloop⟩ : ∃ loop more, Continues (ScanLoop.start cfg dir restored) loop more ∧
      (scan source cfg dir).effects = loop.effects := by
    rcases hserves.scan_eq hresume with ⟨-, -, hscan⟩ | ⟨-, hscan⟩
    · rw [hscan, List.prefix_nil] at heffects
      exact absurd heffects hne
    · obtain ⟨loop, more, hmore, hloop, -⟩ := @Serves.scanFrom_continues _ source chain best cfg dir restored
        hserves _ (maxEnd_le cfg best)
      exact ⟨loop, more, hmore, by rw [hscan, hloop]⟩
  have hsplit := heffects
  rw [hloop, hmore.effects] at hsplit
  obtain ⟨rest, hrest, hshort⟩ := prefix_start hne hsplit
  refine ⟨?_, hall, by rw [List.length_append]; omega, hunique.foldl effects, ?_, ?_⟩
  · have hreopened : reopened file effects = csvAfter file (ScanLoop.start cfg dir restored).effects := by
      rw [hrest]
      exact reopened_start fun effect heffect => hmore.forward effect (hshort.subset heffect)
    rcases hsurvives.text with htext | ⟨rfl, htext⟩
    · refine ⟨.inr ?_, hall.clean⟩
      rw [htext, hreopened, h.ready.flushed, List.map_append, ← unlines_append]
      rfl
    · rw [htext, hreopened, List.append_nil]
      exact h.ready.csvFile h.rowsFrom.clean
  · intro entry hentry
    rcases mem_apply hentry with hold | ⟨before, checkpoint, hsaved, rfl⟩
    · exact h.caught entry hold
    · obtain ⟨earlier, hup, -⟩ := h.caughtUp
      obtain ⟨hcaught, hle, -⟩ := hserves.caught hup hresume (hsaved.trans heffects)
      exact ⟨isCheckpointName_checkpointName _ _, checkpoint, _, rfl, hcaught, hlast ▸ hle⟩
  · intro entry checkpoint hnewest hcontent
    rw [List.length_append]
    rcases mem_apply hnewest.1 with hold | ⟨before, saved, hsaved, rfl⟩
    · -- nothing newer has been saved, so it is the one that was restored
      have hbelow : PrunesBelow dir rest := by
        obtain ⟨after, rfl⟩ := hshort
        have hdir : (ScanLoop.start cfg dir restored).dir = dir := by cases restored <;> rfl
        have hpruned := hmore.below
        rw [hdir] at hpruned
        exact ((prunesBelow_append dir rest after).mp (hpruned hunique)).1
      have hdir : effects.foldl CheckpointDir.apply dir = rest.foldl CheckpointDir.apply dir := by
        rw [hrest, List.foldl_append, start_dir]
      have hnewestBefore : Newest dir entry := by
        refine ⟨hold, fun other hother => ?_⟩
        obtain ⟨later, hlater, hle⟩ := hbelow.covers hother
        rw [← hdir] at hlater
        exact hle.trans (hnewest.2 later hlater)
      obtain ⟨found, -, hfound, hheight⟩ := h.newest entry hnewestBefore
      obtain rfl := Option.some.inj (hcontent.symm.trans hfound)
      omega
    · obtain rfl := Option.some.inj hcontent
      obtain ⟨earlier, hup, hlength⟩ := h.caughtUp
      obtain ⟨hcaught, -, -⟩ := hserves.caught hup hresume (hsaved.trans heffects)
      have hrows := hcaught.length
      have hbefore := (hsurvives.checkpointed before saved hsaved).length_le
      rw [List.length_append, hlength] at hrows
      omega

/-- A run that completes has the row of every height. -/
theorem Continued.completed (h : Continued chain start last cfg file dir restored base)
    (hserves : Serves source chain best) (hlast : cfg.maxEnd best = last) (hne : start ≤ last)
    (hstart : cfg.start = start) (hresume : resumedFrom source cfg dir = .ok restored)
    (hok : (scan source cfg dir).result.isOk = true) :
    ExactlyOnce (csvAfter file (scan source cfg dir).effects).file start last := by
  have hmax : cfg.maxEnd best ≤ cfg.safeHeight best := min_le_right _ _
  obtain ⟨-, hemitted⟩ := h.emitted hserves hlast hresume (List.prefix_refl _)
  have hall := h.rowsFrom.append hemitted
  -- the file holds the rows before and those of the run
  suffices hfile : (csvAfter file (scan source cfg dir).effects).file = unlines (BLOCK_STATS_HEADER ::
      (base ++ emittedRows (scan source cfg dir).effects).map csvLine) ∧
      base.length + (emittedRows (scan source cfg dir).effects).length = last + 1 - start by
    refine ⟨base ++ emittedRows (scan source cfg dir).effects, ?_, ?_⟩
    · have hcsv : CsvFile _ _ := ⟨.inr rfl, hall.clean⟩
      rw [hfile.1, lines_unlines hcsv.all_clean]
    · rw [hall.heights, List.length_append, hfile.2]
  rcases hserves.scan_eq hresume with ⟨hsafe, -, -⟩ | ⟨-, hscan⟩
  · omega
  obtain ⟨loop, more, hmore, hloop, hflushed⟩ := @Serves.scanFrom_continues _ source chain best cfg dir restored
    hserves _ (maxEnd_le cfg best)
  have hrun := @Serves.scanFrom_run _ _ _ _ cfg hserves _ (maxEnd_le cfg best) dir restored
  rw [← hscan] at hloop hflushed hrun
  have hcount : (emittedRows (scan source cfg dir).effects).length =
      cfg.maxEnd best + 1 - scanStart cfg restored := by
    cases hresult : (scan source cfg dir).result with
    | error e =>
      rw [hresult] at hok
      cases hok
    | ok state =>
      rw [hresult] at hrun
      have hlength := congrArg List.length (runBlocks_heights_ok hrun.symm)
      rw [List.length_map, List.length_map, Chain.length_prepared] at hlength
      exact hlength
  have hbase := h.bounded
  have hnext := h.next
  refine ⟨?_, by omega⟩
  by_cases hend : scanStart cfg restored ≤ cfg.maxEnd best
  · obtain ⟨init, rfl⟩ := hflushed hend hok
    obtain ⟨filed, pending, hholds, hlines⟩ := h.ready.holds
    have hrows : emittedRows (scan source cfg dir).effects = emittedRows init := by
      rw [hloop, hmore.effects, emittedRows_append, emittedRows_append]
      cases restored <;> simp [emittedRows, ScanLoop.start]
    rw [hrows] at hemitted ⊢
    obtain ⟨filed', pending', hholds', hlines'⟩ := hholds.forward init
      (fun effect heffect => hmore.forward effect (List.mem_append_left _ heffect)) hemitted.text
    have hsink : csvAfter file (scan source cfg dir).effects = (init.foldl CsvSink.apply
        (csvAfter file (ScanLoop.start cfg dir restored).effects)).flush := by
      rw [hloop, hmore.effects, csvAfter, List.foldl_append, List.foldl_append]
      rfl
    rw [hsink, hholds'.flush.file, hlines', hlines, List.map_append]
    rfl
  · -- only the rollback
    have hnil : (emittedRows (scan source cfg dir).effects) = [] :=
      List.eq_nil_of_length_eq_zero (by omega)
    have heffects : (scan source cfg dir).effects = (ScanLoop.start cfg dir restored).effects := by
      rw [hscan]
      unfold scanFrom
      dsimp only
      rw [if_pos (not_le.mp hend)]
    rw [hnil, List.append_nil, heffects]
    rcases h.ready with ⟨-, hrows⟩ | hholds
    · rw [List.map_eq_nil_iff] at hrows
      rw [hrows, List.length_nil] at hnext
      omega
    · exact hholds.file

/-! ## Any number of runs -/

theorem Restarts.resumable (h : Restarts StartsClean chain start last file dir) :
    ∃ window rows, Resumable chain start last window file dir rows := by
  induction h with
  | empty => exact ⟨0, [], resumable_empty⟩
  | @stopped file dir source cfg effects kept file' hbefore hrun hclean heffects hsurvives ih =>
    obtain ⟨window, rows, hresumable⟩ := ih
    obtain ⟨best, hserves, hlast⟩ := hrun.serves
    by_cases hne : effects = []
    · subst hne
      -- the process has only opened the file
      have hkept : kept = [] := List.prefix_nil.mp hsurvives.emitted
      subst hkept
      refine ⟨window, rows, ?_, hresumable.rowsFrom, hresumable.bounded, hresumable.unique,
        hresumable.caught, hresumable.covered⟩
      have hready := hresumable.csv.ready
      rcases hsurvives.text with htext | ⟨-, htext⟩
      · refine ⟨.inr ?_, hresumable.rowsFrom.clean⟩
        rw [htext, List.map_nil, unlines_nil, List.append_nil]
        exact hready.flushed
      · rw [htext]
        exact hready.csvFile hresumable.rowsFrom.clean
    · have hscan : (scan source cfg dir).effects ≠ [] := fun hnil =>
        hne (List.prefix_nil.mp (hnil ▸ heffects))
      obtain ⟨restored, hresume⟩ := resumedFrom_of_effects hscan
      obtain ⟨base, hcontinued⟩ := hresumable.continued hserves hrun.start_eq hlast hclean hresume
      exact ⟨cfg.utxoHashWindow, base ++ kept, hcontinued.stopped hresumable.unique hserves hlast hresume hne
        heffects hsurvives⟩

/-- Over any number of stopped runs and one that completes, the file gets the header and one row for
each height, if no run without a checkpoint starts on a file that has rows. -/
theorem restarts_exactly_once (hruns : Restarts StartsClean chain start last file dir)
    (hrun : ResumeRun chain start last source cfg) (hclean : StartsClean file dir source cfg)
    (hne : start ≤ last) (hok : (scan source cfg dir).result.isOk = true) :
    ExactlyOnce (csvAfter file (scan source cfg dir).effects).file start last := by
  obtain ⟨window, rows, hresumable⟩ := hruns.resumable
  obtain ⟨best, hserves, hlast⟩ := hrun.serves
  cases hresume : resumedFrom source cfg dir with
  | error e =>
    rw [scan_of_not_resumed hresume] at hok
    cases hok
  | ok restored =>
    obtain ⟨base, hcontinued⟩ := hresumable.continued hserves hrun.start_eq hlast hclean hresume
    exact hcontinued.completed hserves hlast hne hrun.start_eq hresume hok

end

/-! ## On the sample chain -/

theorem ExactlyOnce.length_lines {file : List Char} {start last : ℕ} (h : ExactlyOnce file start last) :
    (lines file).length = last + 1 - start + 1 := by
  obtain ⟨rows, hlines, hheights⟩ := h
  have hlength := congrArg List.length hheights
  rw [List.length_map, List.length_range'] at hlength
  rw [hlines, List.length_cons, List.length_map, hlength]

section
attribute [local instance] sampleSha256

/-- A first run over the heights 0 and 1, stopped after `count` effects. -/
def stoppedEffects (every count : ℕ) : List ScanEffect :=
  (scan (sampleChain.source 8) (sampleConfig 0 2 every) []).effects.take count

def stoppedDir (every count : ℕ) : CheckpointDir :=
  (stoppedEffects every count).foldl CheckpointDir.apply []

def stoppedFile (every count : ℕ) : List Char :=
  (reopened [] (stoppedEffects every count)).flush.file ++
    unlines ((emittedRows (stoppedEffects every count)).map csvLine)

theorem stoppedFile_survives (every count : ℕ) : Survives [] (stoppedEffects every count)
    (emittedRows (stoppedEffects every count)) (stoppedFile every count) where
  emitted := List.prefix_refl _
  checkpointed before _ h := ((List.prefix_append before _).trans h).filterMap _
  text := .inl rfl

theorem sample_resumeRun (every : ℕ) :
    ResumeRun sampleChain 0 1 (sampleChain.source 8) (sampleConfig 0 2 every) :=
  ⟨⟨8, sampleChain.serves_source 8, rfl⟩, rfl, rfl⟩

theorem stopped_restarts {Ok : List Char → CheckpointDir → BlockSource → ScanConfig → Prop} (every count : ℕ)
    (h : Ok [] [] (sampleChain.source 8) (sampleConfig 0 2 every)) :
    Restarts Ok sampleChain 0 1 (stoppedFile every count) (stoppedDir every count) :=
  .stopped .empty (sample_resumeRun every) h (List.take_prefix _ _) (stoppedFile_survives every count)

/-- The first run leaves the row and the checkpoint of height 0. -/
theorem restarts_exactly_once_sample : ExactlyOnce (csvAfter (stoppedFile 1 2)
    (scan (sampleChain.source 8) (sampleConfig 0 2 1) (stoppedDir 1 2)).effects).file 0 1 := by
  have hresumed : ((resumedFrom (sampleChain.source 8) (sampleConfig 0 2 1) (stoppedDir 1 2)).toOption.bind
      id).isSome = true := by decide +kernel
  have hok : (scan (sampleChain.source 8) (sampleConfig 0 2 1) (stoppedDir 1 2)).result.isOk = true := by
    decide +kernel
  refine restarts_exactly_once (stopped_restarts 1 2 fun _ => Nat.zero_le _) (sample_resumeRun 1)
    (fun hnone => ?_) (Nat.zero_le 1) hok
  rw [hnone] at hresumed
  cases hresumed

/-- The first run leaves the row of height 0 and no checkpoint, so the second one writes it again. -/
theorem restart_repeats_row : ¬ ∀ file dir source cfg,
    Restarts (fun _ _ _ _ => True) sampleChain 0 1 file dir → ResumeRun sampleChain 0 1 source cfg →
    (scan source cfg dir).result.isOk = true →
    ExactlyOnce (csvAfter file (scan source cfg dir).effects).file 0 1 := by
  intro hall
  have hok : (scan (sampleChain.source 8) (sampleConfig 0 2 100) (stoppedDir 100 1)).result.isOk = true := by
    decide +kernel
  have hrows : (lines (csvAfter (stoppedFile 100 1)
      (scan (sampleChain.source 8) (sampleConfig 0 2 100) (stoppedDir 100 1)).effects).file).length = 4 := by
    decide +kernel
  have honce := hall _ _ _ _ (stopped_restarts 100 1 trivial) (sample_resumeRun 100) hok
  have hlength := honce.length_lines
  rw [hrows] at hlength
  exact absurd hlength (by decide)

end

end BitcoinData.Stats
