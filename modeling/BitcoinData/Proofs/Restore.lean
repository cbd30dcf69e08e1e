import BitcoinData.Sanity.Stats.Sample
import BitcoinData.Sanity.Stats.Directory

/-! Which checkpoints are restored. The test compares the hash window but not the start
height, on which the whole scanner state depends. -/

namespace BitcoinData.Stats

open Lib

section
variable [Sha256] {chain : Chain} {cfg : ScanConfig}

/-! ## Output IDs -/

def outputTotal (frames : List PreparedBlockFrame) : ℕ :=
  (frames.map fun frame => (frame.txs.map fun tx =>
    (tx.outputScriptTypes.zip tx.outputXonlyKeys).length).sum).sum

theorem processInput_lastId (start txStart : ℕ) (loop : InputLoop) (input : PreparedInput) :
    (processInput start txStart loop input).state.lastId = loop.state.lastId := by
  cases hentry : loop.state.utxo.lookup input.previousOutput with
  | none => simp only [processInput, hentry]
  | some entry =>
    simp only [processInput, hentry]
    split_ifs <;> rfl

theorem processTx_lastId (start : ℕ) (acc : StatsScannerState × PerBlock) (tx : PreparedTx) :
    (processTx start acc tx).1.lastId =
      acc.1.lastId + (tx.outputScriptTypes.zip tx.outputXonlyKeys).length := by
  have hinputs : ∀ (txStart : ℕ) (inputs : List PreparedInput) (loop : InputLoop),
      (inputs.foldl (processInput start txStart) loop).state.lastId = loop.state.lastId := by
    intro txStart inputs
    induction inputs with
    | nil => exact fun loop => rfl
    | cons input inputs ih =>
      intro loop
      rw [List.foldl_cons, ih, processInput_lastId]
  have houtputs : ∀ (txIsNonsp : Bool) (l : List ((ScriptType × Option XOnlyKey) × ℕ))
      (acc : StatsScannerState × PerBlock),
      (l.foldl (processOutput tx.txid txIsNonsp) acc).1.lastId = acc.1.lastId + l.length := by
    intro txIsNonsp l
    induction l with
    | nil => exact fun acc => rfl
    | cons output l ih =>
      intro acc
      rw [List.foldl_cons, ih, List.length_cons]
      change acc.1.lastId + 1 + l.length = _
      omega
  simp only [processTx]
  rw [houtputs, List.length_zipIdx]
  congr 1
  split_ifs <;> first | rfl | exact hinputs _ _ _

theorem processBlock_lastId {window : ℕ} {state state' : StatsScannerState}
    {frame : PreparedBlockFrame} {row : BlockStats}
    (h : processBlock window state frame = .ok (state', row)) :
    state'.lastId = state.lastId + outputTotal [frame] := by
  have htxs : ∀ (txs : List PreparedTx) (acc : StatsScannerState × PerBlock),
      (txs.foldl (processTx state.lastId) acc).1.lastId = acc.1.lastId +
        (txs.map fun tx => (tx.outputScriptTypes.zip tx.outputXonlyKeys).length).sum := by
    intro txs
    induction txs with
    | nil => exact fun acc => rfl
    | cons tx txs ih =>
      intro acc
      rw [List.foldl_cons, ih, processTx_lastId, List.map_cons, List.sum_cons, Nat.add_assoc]
  unfold processBlock PerBlock.measureSortedUidEncoding at h
  simp only [bind_eq_ok, pure_eq_ok, Except.ok.injEq] at h
  obtain ⟨_, ⟨_, _, ⟨_, _, rfl⟩⟩, heq⟩ := h
  rw [Prod.mk.injEq] at heq
  obtain ⟨rfl, _⟩ := heq
  simpa [outputTotal] using htxs frame.txs (state, .default)

theorem runBlocks_lastId {window : ℕ} {state state' : StatsScannerState}
    {frames : List PreparedBlockFrame} {rows : List BlockStats}
    (h : runBlocks window state frames = (rows, .ok state')) :
    state'.lastId = state.lastId + outputTotal frames := by
  induction frames generalizing state rows with
  | nil =>
    rw [runBlocks, Prod.mk.injEq, Except.ok.injEq] at h
    rw [h.2]
    rfl
  | cons frame frames ih =>
    rw [runBlocks] at h
    cases hblock : processBlock window state frame with
    | error e =>
      rw [hblock] at h
      cases h
    | ok out =>
      rw [hblock, Prod.mk.injEq] at h
      have hrest := ih (Prod.ext rfl h.2)
      rw [hrest, processBlock_lastId hblock]
      simp [outputTotal, Nat.add_assoc]

omit [Sha256] in
theorem outputTotal_append (xs ys : List PreparedBlockFrame) :
    outputTotal (xs ++ ys) = outputTotal xs + outputTotal ys := by
  simp [outputTotal]

omit [Sha256] in
theorem Chain.outputTotal_pos (chain : Chain) (start n : ℕ) (hn : 0 < n) :
    0 < outputTotal (chain.prepared start n) := by
  obtain ⟨n, rfl⟩ : ∃ k, n = k + 1 := ⟨n - 1, by omega⟩
  obtain ⟨tx, htx, hne⟩ := chain.hasOutput start
  have hlen : 0 < ((prepareTx tx).outputScriptTypes.zip (prepareTx tx).outputXonlyKeys).length := by
    simp only [prepareTx, List.length_zip, List.length_map, min_self]
    exact List.length_pos_iff.mpr hne
  have hblock : 0 < outputTotal [prepareDecodedBlock (chain.frame start)] := by
    simp only [outputTotal, List.map_cons, List.map_nil, List.sum_cons, List.sum_nil, Nat.add_zero]
    refine lt_of_lt_of_le hlen (List.single_le_sum (fun _ _ => Nat.zero_le _) _ ?_)
    exact List.mem_map.mpr ⟨prepareTx tx, List.mem_map_of_mem htx, rfl⟩
  have hcons : chain.prepared start (n + 1) =
      [prepareDecodedBlock (chain.frame start)] ++ chain.prepared (start + 1) n := by
    simp [Chain.prepared, List.range'_succ]
  rw [hcons, outputTotal_append]
  omega

theorem freshState_iff {start : ℕ} {rows : List BlockStats} {checkpoint : StatsCheckpoint}
    (h : Caught chain start cfg.utxoHashWindow rows checkpoint) :
    freshState chain cfg checkpoint.height = .ok checkpoint.scannerState ↔ cfg.start = start := by
  constructor
  · intro hfresh
    have hlast := runBlocks_lastId h.run
    have hlast' := runBlocks_lastId (Prod.ext rfl hfresh)
    rw [hlast] at hlast'
    have hlow := h.start_le
    by_contra hne
    rcases Nat.lt_or_gt_of_ne hne with hlt | hgt
    · -- the fresh scan has the blocks before `start` too
      have hsplit : checkpoint.height + 1 - cfg.start =
          (start - cfg.start) + (checkpoint.height + 1 - start) := by omega
      have hmid : cfg.start + (start - cfg.start) = start := by omega
      have hpos := chain.outputTotal_pos cfg.start (start - cfg.start) (by omega)
      rw [hsplit, ← Chain.prepared_append, hmid, outputTotal_append] at hlast'
      omega
    · -- the blocks before `cfg.start` are missing from the fresh scan
      rcases Nat.lt_or_ge checkpoint.height cfg.start with hend | hend
      · have hzero : checkpoint.height + 1 - cfg.start = 0 := by omega
        have hpos := chain.outputTotal_pos start (checkpoint.height + 1 - start) (by omega)
        rw [hzero] at hlast'
        simp only [Chain.prepared, List.range'_zero, List.map_nil, outputTotal, List.sum_nil] at hlast' hpos
        omega
      · have hsplit : checkpoint.height + 1 - start =
            (cfg.start - start) + (checkpoint.height + 1 - cfg.start) := by omega
        have hmid : start + (cfg.start - start) = cfg.start := by omega
        have hpos := chain.outputTotal_pos start (cfg.start - start) (by omega)
        rw [hsplit, ← Chain.prepared_append, hmid, outputTotal_append] at hlast'
        omega
  · intro hstart
    rw [freshState, hstart, h.run]

/-- The restored state is that of a fresh scan exactly when the scans behind the checkpoint
began at the configured start height. -/
theorem restored_state_iff {source : BlockSource} {dir : CheckpointDir} {checkpoint : StatsCheckpoint}
    (hfilled : Filled chain dir)
    (hrestore : restoreNewestValidCheckpoint source cfg dir = .ok (some checkpoint)) :
    (∃ start, BeganAt chain start checkpoint) ∧
      ∀ start, BeganAt chain start checkpoint →
        (freshState chain cfg checkpoint.height = .ok checkpoint.scannerState ↔ cfg.start = start) := by
  obtain ⟨file, hmem, hcontent, hwindow⟩ := restore_mem hrestore
  refine ⟨hfilled.beganAt file hmem checkpoint hcontent, fun start hstart => ?_⟩
  obtain ⟨rows, hcaught⟩ := hstart.caught
  rw [hwindow] at hcaught
  exact freshState_iff hcaught

end

section
attribute [local instance] sampleSha256

/-- The directory after a scan of height 1 alone. -/
def sampleDir : CheckpointDir :=
  (scan (sampleChain.source 10) (sampleConfig 1 1 1) []).effects.foldl CheckpointDir.apply []

theorem filled_sampleDir : Filled sampleChain sampleDir :=
  .scan .empty (sampleChain.serves_source 10) (List.prefix_refl _)

theorem exists_restored {cfg : ScanConfig} (hcfg : cfg = sampleConfig 0 3 1 ∨ cfg = sampleConfig 1 2 1) :
    ∃ checkpoint, restoreNewestValidCheckpoint (sampleChain.source 10) cfg sampleDir = .ok (some checkpoint) := by
  have hsome : ((restoreNewestValidCheckpoint (sampleChain.source 10) cfg sampleDir).toOption.join).isSome = true := by
    rcases hcfg with rfl | rfl
    · decide +kernel
    · decide +kernel
  obtain ⟨checkpoint, hcheckpoint⟩ := Option.isSome_iff_exists.mp hsome
  exact ⟨checkpoint, toOption_eq_some.mp (Option.join_eq_some_iff.mp hcheckpoint)⟩

theorem exists_beganAt {cfg : ScanConfig} {checkpoint : StatsCheckpoint}
    (h : restoreNewestValidCheckpoint (sampleChain.source 10) cfg sampleDir = .ok (some checkpoint)) :
    BeganAt sampleChain 1 checkpoint := by
  obtain ⟨file, hmem, hcontent, -⟩ := restore_mem h
  rcases mem_apply hmem with hold | ⟨before, saved, hbefore, hsaved⟩
  · exact absurd hold List.not_mem_nil
  · subst hsaved
    obtain rfl := Option.some.inj hcontent
    exact .fresh rfl (sampleChain.serves_source 10) (resumedFrom_nil rfl) hbefore

/-- The checkpoint of the scan from height 1, restored by a scan from height 1 and by one from
height 0. -/
theorem restored_state_iff_sample :
    (∃ checkpoint, restoreNewestValidCheckpoint (sampleChain.source 10) (sampleConfig 1 2 1) sampleDir =
        .ok (some checkpoint) ∧
      freshState sampleChain (sampleConfig 1 2 1) checkpoint.height = .ok checkpoint.scannerState) ∧
    ∃ checkpoint, restoreNewestValidCheckpoint (sampleChain.source 10) (sampleConfig 0 3 1) sampleDir =
        .ok (some checkpoint) ∧
      (freshState sampleChain (sampleConfig 0 3 1) checkpoint.height = .ok checkpoint.scannerState ↔ (0 : ℕ) = 1) := by
  obtain ⟨checkpoint, hrestore⟩ := exists_restored (.inr rfl)
  obtain ⟨foreign, hforeign⟩ := exists_restored (.inl rfl)
  exact ⟨⟨checkpoint, hrestore, ((restored_state_iff filled_sampleDir hrestore).2 1 (exists_beganAt hrestore)).mpr rfl⟩,
    foreign, hforeign, (restored_state_iff filled_sampleDir hforeign).2 1 (exists_beganAt hforeign)⟩

/-- A scan from height 0 restores the checkpoint of the scan from height 1. -/
theorem foreign_start_restored : ∃ checkpoint,
    Filled sampleChain sampleDir ∧
    restoreNewestValidCheckpoint (sampleChain.source 10) (sampleConfig 0 3 1) sampleDir =
      .ok (some checkpoint) ∧
    freshState sampleChain (sampleConfig 0 3 1) checkpoint.height ≠ .ok checkpoint.scannerState := by
  obtain ⟨checkpoint, hrestore⟩ := exists_restored (.inl rfl)
  refine ⟨checkpoint, filled_sampleDir, hrestore, ?_⟩
  obtain ⟨rows, hcaught⟩ := (exists_beganAt hrestore).caught
  obtain ⟨-, -, -, hwindow⟩ := restore_mem hrestore
  rw [hwindow] at hcaught
  intro hfresh
  exact absurd ((freshState_iff hcaught).mp hfresh) (by decide)

end

end BitcoinData.Stats
