import BitcoinData.Sanity.Stats.Directory
import BitcoinData.Spec.Stats.Csv

/-! The CSV file as a list of lines. A row is one line that starts with its height; it is short
enough to stay in the writer when it is emitted. -/

namespace BitcoinData.Stats

open Lib

/-! ## Text -/

/-- The header text is evaluated once for all of these. -/
theorem header_facts : ('\n' ∉ BLOCK_STATS_HEADER ∧ '\r' ∉ BLOCK_STATS_HEADER) ∧
    BLOCK_STATS_HEADER.length + 1 < DEFAULT_BUF_SIZE ∧ rowHeight BLOCK_STATS_HEADER = none := by
  decide +kernel

theorem header_clean : CleanLine BLOCK_STATS_HEADER := header_facts.1

theorem header_length : BLOCK_STATS_HEADER.length + 1 < DEFAULT_BUF_SIZE := header_facts.2.1

theorem header_rowHeight : rowHeight BLOCK_STATS_HEADER = none := header_facts.2.2

theorem uintToString_isDigit {bits n : ℕ} {c : Char} (h : c ∈ uintToString bits n) :
    c.isDigit = true :=
  Nat.isDigit_of_mem_toDigits (by decide) (by decide) h

/-- No number and no hash is longer than 64 characters. -/
theorem uintToString_length {bits n : ℕ} (hbits : bits ≤ 128) : (uintToString bits n).length ≤ 64 := by
  apply (Nat.length_toDigits_le_iff (by decide) (by decide)).mpr
  have hmod : n % 2 ^ bits < 2 ^ bits := Nat.mod_lt _ (Nat.two_pow_pos bits)
  have hpow : (2 : ℕ) ^ bits ≤ 2 ^ 128 := Nat.pow_le_pow_right (by decide) hbits
  have htop : (2 : ℕ) ^ 128 < 10 ^ 64 := by decide
  omega

/-- A field of a row: no separator, and not long. -/
structure CleanField (field : List Char) : Prop where
  clean : CleanLine field
  comma : ',' ∉ field
  length : field.length ≤ 64

theorem cleanField_uint {bits n : ℕ} (hbits : bits ≤ 128) : CleanField (uintToString bits n) where
  clean := by
    refine ⟨fun h => ?_, fun h => ?_⟩
    · exact absurd (uintToString_isDigit h) (by decide)
    · exact absurd (uintToString_isDigit h) (by decide)
  comma := fun h => absurd (uintToString_isDigit h) (by decide)
  length := uintToString_length hbits

theorem hexDigit_mem (n : ℕ) : hexDigit n ∈
    ['0', '1', '2', '3', '4', '5', '6', '7', '8', '9', 'a', 'b', 'c', 'd', 'e', 'f'] := by
  unfold hexDigit
  rw [List.getD_eq_getElem?_getD]
  cases hget : (['0', '1', '2', '3', '4', '5', '6', '7', '8', '9', 'a', 'b', 'c', 'd', 'e', 'f'] :
    List Char)[n]? with
  | none => decide
  | some c => exact List.mem_of_getElem? hget

theorem cleanField_hex (bytes : FixedBytes 32) : CleanField (hexEncode bytes.bytes) := by
  have hmem : ∀ c ∈ hexEncode bytes.bytes, c ∈
      ['0', '1', '2', '3', '4', '5', '6', '7', '8', '9', 'a', 'b', 'c', 'd', 'e', 'f'] := by
    intro c hc
    obtain ⟨b, -, hb⟩ := List.mem_flatMap.mp hc
    rcases List.mem_cons.mp hb with rfl | hb
    · exact hexDigit_mem _
    · rw [List.mem_singleton] at hb
      exact hb ▸ hexDigit_mem _
  refine ⟨⟨fun h => ?_, fun h => ?_⟩, fun h => ?_, ?_⟩
  · exact absurd (hmem _ h) (by decide)
  · exact absurd (hmem _ h) (by decide)
  · exact absurd (hmem _ h) (by decide)
  · have hlen : (hexEncode bytes.bytes).length = 2 * bytes.bytes.length := by
      simp [hexEncode, List.length_flatMap, Nat.mul_comm]
    rw [hlen, bytes.length_eq]

/-- A row whose hashes are printed in hexadecimal. -/
structure TextRow (row : BlockStats) : Prop where
  blockHash : CleanField row.blockHash
  utxoHash : CleanField row.utxoHash

theorem TextRow.fields {row : BlockStats} (h : TextRow row) :
    ∀ field ∈ otherFields row, CleanField field := by
  have hcounts : ∀ counts, ∀ field ∈ typeCountFields counts, CleanField field := by
    intro counts field hfield
    obtain ⟨n, -, rfl⟩ := List.mem_map.mp hfield
    exact cleanField_uint (by decide)
  have hestimate : ∀ estimate, ∀ field ∈ estimateFields estimate, CleanField field := by
    intro estimate field hfield
    simp only [estimateFields, List.mem_cons, List.not_mem_nil, or_false] at hfield
    rcases hfield with rfl | rfl | rfl | rfl | rfl | rfl
    all_goals exact cleanField_uint (by decide)
  intro field hfield
  simp only [otherFields, List.mem_append, List.mem_cons, List.not_mem_nil, or_false] at hfield
  rcases hfield with ((((hfield | hfield) | hfield) | hfield) | hfield) | hfield
  · rcases hfield with rfl | hfield
    · exact h.blockHash
    · rcases hfield with rfl | rfl | rfl | rfl | rfl | rfl | rfl | rfl | rfl | rfl | rfl | rfl | rfl |
        rfl | rfl
      all_goals exact cleanField_uint (by decide)
  · exact hcounts _ _ hfield
  · exact hcounts _ _ hfield
  · exact hestimate _ _ hfield
  · exact hestimate _ _ hfield
  · rcases hfield with rfl | rfl
    · exact h.utxoHash
    · exact cleanField_uint (by decide)

theorem TextRow.clean {row : BlockStats} (h : TextRow row) : CleanLine (csvLine row) := by
  have hheight : CleanField (u64ToString row.height) := cleanField_uint (by decide)
  have hfields : ∀ c, (c = '\n' ∨ c = '\r') → c ∉ (otherFields row).flatMap fun field => ',' :: field := by
    intro c hc hmem
    obtain ⟨field, hfield, hin⟩ := List.mem_flatMap.mp hmem
    have hclean := (h.fields field hfield).clean
    rcases List.mem_cons.mp hin with rfl | hin
    · rcases hc with hc | hc <;> exact absurd hc (by decide)
    · rcases hc with rfl | rfl
      · exact hclean.1 hin
      · exact hclean.2 hin
  refine ⟨?_, ?_⟩
  · rw [csvLine, List.mem_append, not_or]
    exact ⟨hheight.clean.1, hfields _ (.inl rfl)⟩
  · rw [csvLine, List.mem_append, not_or]
    exact ⟨hheight.clean.2, hfields _ (.inr rfl)⟩

theorem TextRow.length {row : BlockStats} (h : TextRow row) :
    (csvLine row).length + 1 < DEFAULT_BUF_SIZE := by
  have hsum : ∀ fields : List (List Char), (∀ field ∈ fields, CleanField field) →
      (fields.flatMap fun field => ',' :: field).length ≤ 65 * fields.length := by
    intro fields
    induction fields with
    | nil => exact fun _ => le_rfl
    | cons field fields ih =>
      intro hfields
      have hfield := (hfields field List.mem_cons_self).length
      have hrest := ih fun f hf => hfields f (List.mem_cons_of_mem _ hf)
      rw [List.flatMap_cons, List.length_append, List.length_cons, List.length_cons]
      omega
  have hheight : (u64ToString row.height).length ≤ 64 := uintToString_length (by decide)
  have hfields := hsum _ h.fields
  have hcount : (otherFields row).length = 48 := rfl
  rw [hcount] at hfields
  rw [csvLine, List.length_append, DEFAULT_BUF_SIZE]
  omega

theorem rowHeight_csvLine (row : BlockStats) : rowHeight (csvLine row) = some (row.height % 2 ^ 64) := by
  have hdigits : ∀ c ∈ u64ToString row.height, c.isDigit = true := fun c hc => uintToString_isDigit hc
  have hfirst : (csvLine row).takeWhile (· ≠ ',') = u64ToString row.height := by
    have hother : (otherFields row).flatMap (fun field => ',' :: field) =
        ',' :: (row.blockHash ++ ((otherFields row).tail.flatMap fun field => ',' :: field)) := rfl
    rw [csvLine, hother, List.takeWhile_append_of_pos]
    · simp
    · intro c hc
      have := hdigits c hc
      simp only [decide_eq_true_eq]
      rintro rfl
      exact absurd this (by decide)
  have hne : u64ToString row.height ≠ [] := Nat.toDigits_ne_nil
  rw [rowHeight, hfirst, parseU64]
  -- a digit is no sign
  have hsign : stripSign (u64ToString row.height) = u64ToString row.height := by
    unfold stripSign
    split
    · rename_i rest heq
      exact absurd (hdigits '+' (by rw [heq]; exact List.mem_cons_self)) (by decide)
    · rfl
  simp only [hsign]
  have hall : (u64ToString row.height).all Char.isDigit = true := List.all_eq_true.mpr hdigits
  have hvalue : Nat.ofDigitChars 10 (u64ToString row.height) 0 = row.height % 2 ^ 64 :=
    Nat.ofDigitChars_toDigits (by decide) (by decide)
  rw [if_neg (by simp [hne, hall]), hvalue, if_pos (Nat.mod_lt _ (by decide))]

section
variable [Sha256]

omit [Sha256] in
theorem finalizeBlock_clean (self : RollingUtxoHash) : CleanField self.finalizeBlock.1 := by
  unfold RollingUtxoHash.finalizeBlock
  split_ifs
  · exact cleanField_hex _
  · exact ⟨⟨List.not_mem_nil, List.not_mem_nil⟩, List.not_mem_nil, Nat.zero_le _⟩

omit [Sha256] in
theorem cleanField_blockHashHex (hash : BlockHashBytes) : CleanField (blockHashHex hash) :=
  cleanField_hex ⟨hash.bytes.reverse, by rw [List.length_reverse, hash.length_eq]⟩

theorem processBlock_text {window : ℕ} {state state' : StatsScannerState} {frame : PreparedBlockFrame}
    {row : BlockStats} (h : processBlock window state frame = .ok (state', row)) : TextRow row := by
  unfold processBlock PerBlock.measureSortedUidEncoding at h
  simp only [bind_eq_ok, pure_eq_ok, Except.ok.injEq] at h
  obtain ⟨_, ⟨_, _, ⟨_, _, rfl⟩⟩, heq⟩ := h
  rw [Prod.mk.injEq] at heq
  obtain ⟨_, rfl⟩ := heq
  exact ⟨cleanField_blockHashHex _, finalizeBlock_clean _⟩

theorem runBlocks_text {window : ℕ} (state : StatsScannerState) (frames : List PreparedBlockFrame) :
    ∀ row ∈ (runBlocks window state frames).1, TextRow row := by
  induction frames generalizing state with
  | nil => exact fun row hrow => absurd hrow List.not_mem_nil
  | cons frame frames ih =>
    rw [runBlocks]
    cases hblock : processBlock window state frame with
    | error e => exact fun row hrow => absurd hrow List.not_mem_nil
    | ok out =>
      intro row hrow
      rcases List.mem_cons.mp hrow with rfl | hrow
      · exact processBlock_text hblock
      · exact ih out.1 row hrow

theorem scan_text {source : BlockSource} {chain : Chain} {best : ℕ} {cfg : ScanConfig} {dir : CheckpointDir}
    {restored : Option StatsCheckpoint} (hserves : Serves source chain best)
    (hresume : resumedFrom source cfg dir = .ok restored) :
    ∀ row ∈ emittedRows (scan source cfg dir).effects, TextRow row := by
  rcases hserves.scan_eq hresume with ⟨-, -, hscan⟩ | ⟨-, hscan⟩
  · rw [hscan]
    exact fun row hrow => absurd hrow List.not_mem_nil
  · have hrun := congrArg Prod.fst (@Serves.scanFrom_run _ _ _ _ cfg hserves _ (maxEnd_le cfg best) dir restored)
    dsimp only at hrun
    rw [hscan, hrun]
    exact runBlocks_text _ _

end

/-! ## The writer -/

/-- The lines of the file, and the lines that only the writer has. -/
structure SinkHolds (sink : CsvSink) (filed pending : List (List Char)) : Prop where
  file : sink.file = unlines filed
  buf : sink.buf = unlines pending

theorem SinkHolds.flush {sink : CsvSink} {filed pending : List (List Char)}
    (h : SinkHolds sink filed pending) : SinkHolds sink.flush (filed ++ pending) [] := by
  refine ⟨?_, rfl⟩
  rw [CsvSink.flush, h.file, h.buf, unlines_append]

/-- The row that is emitted stays in the writer, whatever it makes room for. -/
theorem SinkHolds.emitBlock {sink : CsvSink} {filed pending : List (List Char)} {row : BlockStats}
    (h : SinkHolds sink filed pending) (hrow : TextRow row) :
    ∃ filed' pending', SinkHolds (sink.emitBlock row) filed' (pending' ++ [csvLine row]) ∧
      filed' ++ pending' = filed ++ pending := by
  have hshort : ¬ (csvLine row ++ ['\n']).length ≥ DEFAULT_BUF_SIZE := by
    have := hrow.length
    rw [List.length_append, List.length_singleton]
    omega
  unfold CsvSink.emitBlock CsvSink.write
  dsimp only
  rw [if_neg hshort]
  split_ifs with hfull
  · refine ⟨filed ++ pending, [], ⟨h.flush.file, ?_⟩, List.append_nil _⟩
    simp [CsvSink.flush]
  · refine ⟨filed, pending, ⟨h.file, ?_⟩, rfl⟩
    simp [h.buf]

theorem write_fits {file buf data : List Char} (h : buf.length + data.length < DEFAULT_BUF_SIZE) :
    (CsvSink.mk file buf).write data = ⟨file, buf ++ data⟩ := by
  unfold CsvSink.write
  dsimp only
  rw [if_neg (by omega), if_neg (by omega)]

theorem append_empty : SinkHolds (.append []) [] [BLOCK_STATS_HEADER] := by
  have hlen := header_length
  unfold CsvSink.append
  generalize BLOCK_STATS_HEADER = header at hlen ⊢
  have hempty : ([] : List Char).length = 0 := rfl
  have hheader : (CsvSink.mk [] []).write header = ⟨[], header⟩ :=
    write_fits (by rw [hempty]; omega)
  have hnewline : (CsvSink.mk [] header).write ['\n'] = ⟨[], header ++ ['\n']⟩ :=
    write_fits (by rw [List.length_singleton]; exact hlen)
  rw [if_pos hempty, hheader, hnewline]
  exact ⟨rfl, (unlines_singleton _).symm⟩

theorem append_lines {filed : List (List Char)} (h : filed ≠ []) :
    SinkHolds (.append (unlines filed)) filed [] := by
  have hlen : (unlines filed).length ≠ 0 := by
    obtain ⟨line, rest, rfl⟩ := List.exists_cons_of_ne_nil h
    simp [unlines_cons]
  unfold CsvSink.append
  rw [if_neg hlen]
  exact ⟨rfl, rfl⟩

/-! ## Rollback -/

theorem rollback_of_lines {content first : List Char} {rest : List (List Char)} (height : ℕ)
    (h : lines content = first :: rest) :
    rollbackCsvToHeight content height =
      unlines (first :: rest.filter fun line => (rowHeight line).any (· ≤ height)) := by
  have hrest : ∀ (ls : List (List Char)) (k : ℕ), 0 < k →
      ((ls.zipIdx k).filterMap fun p =>
        if p.2 = 0 then some p.1
        else if (rowHeight p.1).any (· ≤ height) then some p.1
        else none) = ls.filter fun line => (rowHeight line).any (· ≤ height) := by
    intro ls
    induction ls with
    | nil => exact fun k _ => rfl
    | cons line ls ih =>
      intro k hk
      rw [List.zipIdx_cons, List.filterMap_cons, List.filter_cons]
      have hne : k ≠ 0 := by omega
      dsimp only
      rw [if_neg hne]
      by_cases hkeep : (rowHeight line).any (· ≤ height) = true
      · rw [if_pos hkeep, if_pos hkeep, ih (k + 1) (by omega)]
      · rw [if_neg hkeep, if_neg hkeep, ih (k + 1) (by omega)]
  rw [rollbackCsvToHeight, h, List.zipIdx_cons, List.filterMap_cons]
  simp only [if_true]
  rw [hrest rest 1 (by omega)]

theorem rollback_lines {first : List Char} {rest : List (List Char)} (height : ℕ)
    (h : ∀ line ∈ first :: rest, CleanLine line) :
    rollbackCsvToHeight (unlines (first :: rest)) height =
      unlines (first :: rest.filter fun line => (rowHeight line).any (· ≤ height)) :=
  rollback_of_lines height (lines_unlines h)

theorem SinkHolds.rollback {sink : CsvSink} {filed pending rest : List (List Char)}
    (h : SinkHolds sink filed pending) (height : ℕ)
    (hlines : filed ++ pending = BLOCK_STATS_HEADER :: rest)
    (hclean : ∀ line ∈ BLOCK_STATS_HEADER :: rest, CleanLine line) :
    SinkHolds (sink.rollbackToHeight height)
      (BLOCK_STATS_HEADER :: rest.filter fun line => (rowHeight line).any (· ≤ height)) [] := by
  refine ⟨?_, rfl⟩
  rw [CsvSink.rollbackToHeight]
  dsimp only
  rw [h.flush.file, hlines, rollback_lines height hclean]

/-- The lines of a file of this sink: nothing, or the header and rows. -/
structure CsvFile (file : List Char) (rows : List (List Char)) : Prop where
  text : file = [] ∧ rows = [] ∨ file = unlines (BLOCK_STATS_HEADER :: rows)
  clean : ∀ line ∈ rows, CleanLine line

theorem CsvFile.all_clean {file : List Char} {rows : List (List Char)} (h : CsvFile file rows) :
    ∀ line ∈ BLOCK_STATS_HEADER :: rows, CleanLine line := by
  intro line hline
  rcases List.mem_cons.mp hline with rfl | hline
  · exact header_clean
  · exact h.clean line hline

theorem CsvFile.opened {file : List Char} {rows : List (List Char)} (h : CsvFile file rows) :
    ∃ filed pending, SinkHolds (.append file) filed pending ∧
      filed ++ pending = BLOCK_STATS_HEADER :: rows := by
  rcases h.text with ⟨rfl, rfl⟩ | rfl
  · exact ⟨[], [BLOCK_STATS_HEADER], append_empty, rfl⟩
  · exact ⟨_, [], append_lines (List.cons_ne_nil _ _), List.append_nil _⟩

end BitcoinData.Stats
