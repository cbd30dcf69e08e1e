import BitcoinData.Sanity.Stats.Csv

/-! Rolling back a CSV file that a crash cut inside its last row. The rows before it are sorted out
by their heights; the cut row is taken for a whole one whenever what is left of its height is
small enough. -/

namespace BitcoinData.Stats

open Lib

/-- A row as the scanner hands it to the sink: printed hashes, and a height that fits. -/
structure WrittenRow (row : BlockStats) : Prop extends TextRow row where
  height_lt : row.height < 2 ^ 64

/-- What a write that was cut leaves of the line of a row. -/
def TornRow (torn : List Char) : Prop := ∃ row, WrittenRow row ∧ torn <+: csvLine row

/-- Header, rows, and what is left of one more row. -/
def tornFile (rows : List BlockStats) (torn : List Char) : List Char :=
  unlines (BLOCK_STATS_HEADER :: rows.map csvLine) ++ torn

theorem TornRow.clean {torn : List Char} (h : TornRow torn) : CleanLine torn := by
  obtain ⟨row, hrow, hpre⟩ := h
  exact ⟨fun hc => hrow.clean.1 (hpre.subset hc), fun hc => hrow.clean.2 (hpre.subset hc)⟩

theorem written_clean {rows : List BlockStats} (h : ∀ row ∈ rows, WrittenRow row) :
    ∀ line ∈ BLOCK_STATS_HEADER :: rows.map csvLine, CleanLine line := by
  intro line hline
  rcases List.mem_cons.mp hline with rfl | hline
  · exact header_clean
  · obtain ⟨row, hrow, rfl⟩ := List.mem_map.mp hline
    exact (h row hrow).clean

theorem filter_rowHeight {rows : List BlockStats} (h : ∀ row ∈ rows, WrittenRow row) (height : ℕ) :
    (rows.map csvLine).filter (fun line => (rowHeight line).any (· ≤ height)) =
      (rows.filter fun row => row.height ≤ height).map csvLine := by
  rw [List.filter_map]
  congr 1
  apply List.filter_congr
  intro row hrow
  rw [Function.comp_apply, rowHeight_csvLine, Nat.mod_eq_of_lt (h row hrow).height_lt]
  rfl

theorem lines_tornFile {rows : List BlockStats} {torn : List Char}
    (hrows : ∀ row ∈ rows, WrittenRow row) (htorn : TornRow torn) :
    lines (tornFile rows torn) =
      BLOCK_STATS_HEADER :: (rows.map csvLine ++ if torn = [] then [] else [torn]) := by
  rw [tornFile, lines_unlines_append (written_clean hrows), lines_of_no_newline htorn.clean.1,
    List.cons_append]

/-- What the rollback keeps of the cut row. -/
def keptTorn (torn : List Char) (height : ℕ) : List (List Char) :=
  if (rowHeight torn).any (· ≤ height) then [torn] else []

theorem rollback_tornFile {rows : List BlockStats} {torn : List Char}
    (hrows : ∀ row ∈ rows, WrittenRow row) (htorn : TornRow torn) (height : ℕ) :
    rollbackCsvToHeight (tornFile rows torn) height =
      unlines (BLOCK_STATS_HEADER ::
        ((rows.filter fun row => row.height ≤ height).map csvLine ++ keptTorn torn height)) := by
  rw [rollback_of_lines height (lines_tornFile hrows htorn), List.filter_append,
    filter_rowHeight hrows]
  congr 3
  rw [keptTorn]
  by_cases hnil : torn = []
  · -- the empty text is no height
    subst hnil
    rfl
  · rw [if_neg hnil, List.filter_singleton]
    cases (rowHeight torn).any (· ≤ height) <;> rfl

theorem rollback_idempotent {rows : List BlockStats} {torn : List Char}
    (hrows : ∀ row ∈ rows, WrittenRow row) (htorn : TornRow torn) (height : ℕ) :
    rollbackCsvToHeight (rollbackCsvToHeight (tornFile rows torn) height) height =
      rollbackCsvToHeight (tornFile rows torn) height := by
  have hkept : ∀ row ∈ rows.filter fun row => row.height ≤ height, WrittenRow row :=
    fun row hrow => hrows row (List.mem_filter.mp hrow).1
  have hclean : ∀ line ∈ BLOCK_STATS_HEADER ::
      ((rows.filter fun row => row.height ≤ height).map csvLine ++ keptTorn torn height),
      CleanLine line := by
    intro line hline
    rw [← List.cons_append, List.mem_append] at hline
    rcases hline with hline | hline
    · exact written_clean hkept line hline
    · unfold keptTorn at hline
      split_ifs at hline with hkeep
      · rw [List.mem_singleton.mp hline]
        exact htorn.clean
      · cases hline
  rw [rollback_tornFile hrows htorn, rollback_lines height hclean, List.filter_append,
    filter_rowHeight hkept, List.filter_filter]
  congr 3
  · simp only [Bool.and_self]
  · unfold keptTorn
    split_ifs with hkeep
    · rw [List.filter_singleton, hkeep]
      rfl
    · rfl

/-- A rollback leaves exactly the whole rows up to the height, however often it is done, when what
is left of a cut row does not start with a number up to the height. -/
theorem rollback_exact_iff {rows : List BlockStats} {torn : List Char} (height : ℕ)
    (hrows : ∀ row ∈ rows, WrittenRow row) (htorn : TornRow torn) :
    (rollbackCsvToHeight (tornFile rows torn) height =
        unlines (BLOCK_STATS_HEADER :: (rows.filter fun row => row.height ≤ height).map csvLine) ∧
      rollbackCsvToHeight (rollbackCsvToHeight (tornFile rows torn) height) height =
        rollbackCsvToHeight (tornFile rows torn) height) ↔
    ∀ h, rowHeight torn = some h → height < h := by
  have hcond : (∀ h, rowHeight torn = some h → height < h) ↔
      (rowHeight torn).any (· ≤ height) = false := by
    cases rowHeight torn with
    | none => simp
    | some h => simp
  rw [hcond, and_iff_left (rollback_idempotent hrows htorn height), rollback_tornFile hrows htorn,
    ← List.cons_append, unlines_append, List.append_right_eq_self, keptTorn]
  cases (rowHeight torn).any (· ≤ height) with
  | false => simp
  | true => simp

def emptyRow (height : ℕ) : BlockStats :=
  { BlockStats.new height with blockHash := List.replicate 64 '0' }

theorem cleanField_zeros : CleanField (List.replicate 64 '0') :=
  ⟨⟨by decide, by decide⟩, by decide, by decide⟩

theorem cleanField_nil : CleanField [] :=
  ⟨⟨by decide, by decide⟩, by decide, by decide⟩

theorem emptyRow_written {height : ℕ} (h : height < 2 ^ 64) : WrittenRow (emptyRow height) where
  blockHash := cleanField_zeros
  utxoHash := cleanField_nil
  height_lt := h

theorem tornRow_of_height {height : ℕ} (h : height < 2 ^ 64) {torn : List Char}
    (hpre : torn <+: u64ToString height) : TornRow torn :=
  ⟨emptyRow height, emptyRow_written h, hpre.trans (List.prefix_append _ _)⟩

/-- Height 105 is cut behind its second digit, and the file goes back to height 9. -/
theorem rollback_exact_sample :
    rollbackCsvToHeight (tornFile [emptyRow 9, emptyRow 104] "10".toList) 9 =
      unlines [BLOCK_STATS_HEADER, csvLine (emptyRow 9)] := by
  have hrows : ∀ row ∈ [emptyRow 9, emptyRow 104], WrittenRow row := by
    intro row hrow
    simp only [List.mem_cons, List.not_mem_nil, or_false] at hrow
    rcases hrow with rfl | rfl
    · exact emptyRow_written (by decide)
    · exact emptyRow_written (by decide)
  have htorn : TornRow "10".toList := tornRow_of_height (by decide : 105 < 2 ^ 64) (by decide)
  have hheight : ∀ h, rowHeight "10".toList = some h → 9 < h := by decide
  exact ((rollback_exact_iff 9 hrows htorn).mpr hheight).1

/-- Height 105 is cut behind its second digit; going back to height 104 keeps a row of height 10. -/
theorem rollback_keeps_torn_row :
    ¬ ∀ (rows : List BlockStats) (torn : List Char) (height : ℕ),
      (∀ row ∈ rows, WrittenRow row) → TornRow torn →
      rollbackCsvToHeight (tornFile rows torn) height =
          unlines (BLOCK_STATS_HEADER :: (rows.filter fun row => row.height ≤ height).map csvLine) ∧
        rollbackCsvToHeight (rollbackCsvToHeight (tornFile rows torn) height) height =
          rollbackCsvToHeight (tornFile rows torn) height := by
  intro hrollback
  have hrows : ∀ row ∈ [emptyRow 104], WrittenRow row := by
    intro row hrow
    rw [List.mem_singleton.mp hrow]
    exact emptyRow_written (by decide)
  have htorn : TornRow "10".toList := tornRow_of_height (by decide : 105 < 2 ^ 64) (by decide)
  obtain ⟨hexact, -⟩ := hrollback [emptyRow 104] "10".toList 104 hrows htorn
  rw [rollback_tornFile hrows htorn, ← List.cons_append, unlines_append,
    List.append_right_eq_self] at hexact
  exact absurd hexact (by decide)

end BitcoinData.Stats
