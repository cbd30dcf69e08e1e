import BitcoinData.Sanity.Stats.Sample
import BitcoinData.Sanity.Stats.Totals
import BitcoinData.Sanity.Stats.Trace

/-! The totals of a run are the sums over its rows, however often it was interrupted. -/

namespace BitcoinData.Stats

section
variable [Sha256]

/-- The totals in a state are the sums over the rows, and the rows are balanced. -/
structure Tallied (rows : List BlockStats) (state : StatsScannerState) : Prop where
  counters : ∀ c, state.stats.counter c = (rows.map fun row => row.counter c).sum
  balanced : ∀ row ∈ rows, Balanced row.counter

omit [Sha256] in
theorem tallied_new (window : ℕ) : Tallied [] (.new window) := by
  refine ⟨?_, fun row hrow => absurd hrow List.not_mem_nil⟩
  intro c
  cases c with
  | scriptOutputs t => exact TypeCounts.get_default t
  | scriptInputs t => exact TypeCounts.get_default t
  | sortedSpentIds c => cases c <;> rfl
  | sortedP2trSpentIds c => cases c <;> rfl
  | _ => rfl

theorem Tallied.processBlock {rows : List BlockStats} {window : ℕ} {state state' : StatsScannerState}
    {frame : PreparedBlockFrame} {row : BlockStats} (h : Tallied rows state)
    (hblock : processBlock window state frame = .ok (state', row)) : Tallied (rows ++ [row]) state' := by
  obtain ⟨hcount, hrow⟩ := processBlock_counter hblock
  refine ⟨?_, ?_⟩
  · intro c
    rw [hcount, h.counters, List.map_append, List.sum_append]
    simp
  · intro r hr
    rcases List.mem_append.mp hr with hr | hr
    · exact h.balanced r hr
    · rw [List.mem_singleton] at hr
      exact hr ▸ hrow

theorem ScanPath.tallied {cfg : ScanConfig} {start state : StatsScannerState}
    {frames : List PreparedBlockFrame} {effects : List ScanEffect} {rows : List BlockStats}
    (h : ScanPath cfg start frames effects state) (hstart : Tallied rows start) :
    Tallied (rows ++ emittedRows effects) state := by
  induction h with
  | nil => simpa [emittedRows] using hstart
  | block _ hblock ih =>
    rw [emittedRows_append, ← List.append_assoc]
    exact ih.processBlock hblock
  | save _ ih => simpa [emittedRows] using ih
  | rollback _ _ ih => simpa [emittedRows] using ih
  | remove _ _ ih => simpa [emittedRows] using ih
  | emitRun _ _ ih => simpa [emittedRows] using ih
  | flush _ ih => simpa [emittedRows] using ih

theorem Checkpointed.tallied {Run : BlockSource → ScanConfig → Prop} {rows : List BlockStats}
    {restored : Option StatsCheckpoint} (h : Checkpointed Run rows restored) (cfg : ScanConfig) :
    Tallied rows (startState cfg restored) := by
  induction h generalizing cfg with
  | none => exact tallied_new cfg.utxoHashWindow
  | @saved rows restored source cfg' dir before checkpoint hrows hrun hresume hsaved ih =>
    obtain ⟨frames, state, hpath, -⟩ := scan_path hresume
    obtain ⟨frames', state', -, hpath'⟩ := hpath.take hsaved
    obtain ⟨_, _, _, hbefore, rfl⟩ := hpath'.save_inv
    exact hbefore.tallied (ih cfg')

/-- Run totals: every counter of the final `RunStats` is the sum of that counter over the rows of
this scan and of the interrupted scans before it, and rows and totals are balanced. -/
theorem run_totals {source : BlockSource} {cfg : ScanConfig} {dir : CheckpointDir}
    {rows : List BlockStats} {restored : Option StatsCheckpoint} {state : StatsScannerState}
    (hrows : Checkpointed (fun _ _ => True) rows restored)
    (hresume : resumedFrom source cfg dir = .ok restored)
    (hscan : (scan source cfg dir).result = .ok state) :
    (∀ c, state.stats.counter c =
      ((rows ++ emittedRows (scan source cfg dir).effects).map fun row => row.counter c).sum) ∧
    (∀ row ∈ rows ++ emittedRows (scan source cfg dir).effects, Balanced row.counter) ∧
    Balanced state.stats.counter := by
  obtain ⟨frames, last, hpath, hlast⟩ := scan_path hresume
  rw [hlast state hscan]
  have htallied := hpath.tallied (hrows.tallied cfg)
  refine ⟨htallied.counters, htallied.balanced, ?_⟩
  have hsum := balanced_sum htallied.balanced
  rwa [← funext htallied.counters] at hsum

end

section
attribute [local instance] sampleSha256

/-- Three blocks with one P2TR output each, of which two are spent. -/
theorem run_totals_sample :
    ∃ state, (scan (sampleChain.source 10) (sampleConfig 0 3 0) []).result = .ok state ∧
      Balanced state.stats.counter ∧ state.stats.counter .p2trOutputs = 3 ∧
      state.stats.counter .p2trKeypathSpends = 2 := by
  have hok : (scan (sampleChain.source 10) (sampleConfig 0 3 0) []).result.isOk = true := by
    decide +kernel
  have hrows : ((emittedRows (scan (sampleChain.source 10) (sampleConfig 0 3 0) []).effects).map fun row =>
        row.counter .p2trOutputs).sum = 3 ∧
      ((emittedRows (scan (sampleChain.source 10) (sampleConfig 0 3 0) []).effects).map fun row =>
        row.counter .p2trKeypathSpends).sum = 2 := by
    decide +kernel
  obtain ⟨state, hstate⟩ := Lib.exists_of_isOk hok
  obtain ⟨hcounters, -, hbalanced⟩ := run_totals .none (resumedFrom_nil rfl) hstate
  exact ⟨state, hstate, hbalanced, (hcounters .p2trOutputs).trans hrows.1,
    (hcounters .p2trKeypathSpends).trans hrows.2⟩

end

end BitcoinData.Stats
