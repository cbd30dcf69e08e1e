import BitcoinData.Sanity.Stats.Sample
import BitcoinData.Sanity.Stats.Serving

/-! Resuming from a checkpoint cannot be told from never having stopped. -/

namespace BitcoinData.Stats

section
variable [Sha256]

/-- The scans of one chain with one configuration, whose node is not ahead of height `best`. -/
def SameScan (chain : Chain) (cfg : ScanConfig) (best : ℕ) (source : BlockSource) (c : ScanConfig) :
    Prop :=
  c = cfg ∧ ∃ b ≤ best, Serves source chain b

omit [Sha256] in
theorem maxEnd_mono (cfg : ScanConfig) {a b : ℕ} (h : a ≤ b) : cfg.maxEnd a ≤ cfg.maxEnd b := by
  unfold ScanConfig.maxEnd ScanConfig.safeHeight
  omega

theorem Checkpointed.caughtUp {chain : Chain} {cfg : ScanConfig} {best : ℕ} {rows : List BlockStats}
    {restored : Option StatsCheckpoint} (h : Checkpointed (SameScan chain cfg best) rows restored) :
    CaughtUp chain cfg cfg.start rows restored ∧
      ∀ checkpoint, restored = some checkpoint → checkpoint.height ≤ cfg.maxEnd best := by
  induction h with
  | none => exact ⟨⟨rfl, rfl⟩, fun _ h => absurd h (by simp)⟩
  | saved hrows hrun hresume hsaved ih =>
    obtain ⟨rfl, b, hb, hserves⟩ := hrun
    obtain ⟨hcaught, hheight, -⟩ := hserves.caught ih.1 hresume hsaved
    refine ⟨hcaught, fun checkpoint hcheckpoint => ?_⟩
    rw [Option.some.injEq] at hcheckpoint
    rw [← hcheckpoint]
    exact hheight.trans (maxEnd_mono _ hb)

theorem Caught.filter_rows {chain : Chain} {start window : ℕ} {rows : List BlockStats}
    {checkpoint : StatsCheckpoint} (h : Caught chain start window rows checkpoint) (count : ℕ)
    (state : StatsScannerState) :
    let more := (runBlocks window state (chain.prepared (checkpoint.height + 1) count)).1
    (rows ++ more).filter (fun row => checkpoint.height < row.height) = more := by
  have hlow : ∀ row ∈ rows, row.height ≤ checkpoint.height := by
    intro row hrow
    have hshort := @runBlocks_heights _ window (.new window)
      (chain.prepared start (checkpoint.height + 1 - start))
    rw [h.run, Chain.heights_prepared] at hshort
    have hmem := hshort.subset (List.mem_map_of_mem hrow)
    have := List.mem_range'_1.mp hmem
    have := h.start_le
    omega
  have hhigh : ∀ row ∈ (runBlocks window state (chain.prepared (checkpoint.height + 1) count)).1,
      checkpoint.height < row.height := by
    intro row hrow
    have hshort := @runBlocks_heights _ window state (chain.prepared (checkpoint.height + 1) count)
    rw [Chain.heights_prepared] at hshort
    have hmem := hshort.subset (List.mem_map_of_mem hrow)
    have := List.mem_range'_1.mp hmem
    omega
  dsimp only
  rw [List.filter_append, List.filter_eq_nil_iff.mpr, List.nil_append, List.filter_eq_self]
  · intro row hrow
    exact decide_eq_true (hhigh row hrow)
  · intro row hrow
    have := hlow row hrow
    simp only [decide_eq_true_eq]
    omega

/-- Resume is invisible: after any number of interruptions, a scan that resumes from a
checkpoint at height `H` emits the rows that the uninterrupted scan emits above `H`, and
ends in the same state. -/
theorem resume_invisible {chain : Chain} {cfg : ScanConfig} {best : ℕ} {source : BlockSource}
    {dir fresh : CheckpointDir} {rows : List BlockStats} {checkpoint : StatsCheckpoint}
    (hserves : Serves source chain best)
    (hleft : Checkpointed (SameScan chain cfg best) rows (some checkpoint))
    (hresume : resumedFrom source cfg dir = .ok (some checkpoint))
    (hfresh : resumedFrom source cfg fresh = .ok none) :
    emittedRows (scan source cfg dir).effects =
        (emittedRows (scan source cfg fresh).effects).filter
          (fun row => checkpoint.height < row.height) ∧
      rows ++ emittedRows (scan source cfg dir).effects =
        emittedRows (scan source cfg fresh).effects ∧
      (scan source cfg dir).result = (scan source cfg fresh).result := by
  obtain ⟨hcaughtUp, hheight⟩ := hleft.caughtUp
  have hcaught : Caught chain cfg.start cfg.utxoHashWindow rows checkpoint := hcaughtUp
  have htop := hheight checkpoint rfl
  have hlow := hcaught.start_le
  have hmax := maxEnd_le cfg best
  rcases hserves.scan_eq hresume with ⟨-, hnone, -⟩ | ⟨hsafe, hscan⟩
  · exact absurd hnone (by simp)
  rcases hserves.scan_eq hfresh with ⟨hlowTip, -, -⟩ | ⟨-, hscanFresh⟩
  · omega
  have hrunResumed := @Serves.scanFrom_run _ _ _ _ cfg hserves _ hmax dir (some checkpoint)
  have hrunFresh := @Serves.scanFrom_run _ _ _ _ cfg hserves _ hmax fresh none
  rw [← hscan] at hrunResumed
  rw [← hscanFresh] at hrunFresh
  -- the fresh scan passes through the state of the checkpoint
  have hsplit : cfg.maxEnd best + 1 - cfg.start =
      (checkpoint.height + 1 - cfg.start) + (cfg.maxEnd best + 1 - (checkpoint.height + 1)) := by
    omega
  have hmid : cfg.start + (checkpoint.height + 1 - cfg.start) = checkpoint.height + 1 := by omega
  simp only [scanStart, startState, hcaught.next_eq] at hrunResumed hrunFresh
  rw [hsplit, ← Chain.prepared_append, hmid, runBlocks_append, hcaught.run] at hrunFresh
  dsimp only at hrunFresh
  rw [← hrunResumed, Prod.mk.injEq] at hrunFresh
  have hfilter := hcaught.filter_rows (cfg.maxEnd best + 1 - (checkpoint.height + 1))
    checkpoint.scannerState
  rw [← hrunResumed] at hfilter
  refine ⟨?_, hrunFresh.1.symm, hrunFresh.2.symm⟩
  rw [hrunFresh.1]
  exact hfilter.symm

end

section
attribute [local instance] sampleSha256

/-- A scan of the heights 0 to 2 that saves a checkpoint, and the scan that resumes from it. -/
theorem resume_invisible_sample :
    ∃ rows checkpoint dir,
      Checkpointed (SameScan sampleChain (sampleConfig 0 3 2) 10) rows (some checkpoint) ∧
      resumedFrom (sampleChain.source 10) (sampleConfig 0 3 2) dir = .ok (some checkpoint) ∧
      (scan (sampleChain.source 10) (sampleConfig 0 3 2) dir).result =
        (scan (sampleChain.source 10) (sampleConfig 0 3 2) []).result := by
  have hserves := sampleChain.serves_source 10
  have hfresh : resumedFrom (sampleChain.source 10) (sampleConfig 0 3 2) [] = .ok none :=
    resumedFrom_nil rfl
  have hany : ((scan (sampleChain.source 10) (sampleConfig 0 3 2) []).effects.any
      (·.checkpoint?.isSome)) = true := by decide +kernel
  obtain ⟨before, checkpoint, hsaved⟩ := exists_saved hany
  have hleft : Checkpointed (SameScan sampleChain (sampleConfig 0 3 2) 10)
      ([] ++ emittedRows before) (some checkpoint) :=
    .saved .none ⟨rfl, 10, le_rfl, hserves⟩ hfresh hsaved
  have hcaught : Caught sampleChain 0 0 _ checkpoint := hleft.caughtUp.1
  have hheight := hleft.caughtUp.2 checkpoint rfl
  have hresume : resumedFrom (sampleChain.source 10) (sampleConfig 0 3 2)
      (CheckpointDir.save [] checkpoint) = .ok (some checkpoint) := by
    apply hserves.resumedFrom_save hcaught rfl rfl
    · exact hheight.trans (maxEnd_le _ _)
    · decide
  exact ⟨_, checkpoint, _, hleft, hresume, (resume_invisible hserves hleft hresume hfresh).2.2⟩

end

end BitcoinData.Stats
