import BitcoinData.Spec.Stats.Totals

/-! Every event of a block is recorded twice, in the totals of the run and in the
accumulator of the block. The totals grow by what the row of the block shows, and the
row is balanced. -/

namespace BitcoinData.Stats

open Lib

/-! ## Balanced counters -/

theorem balanced_zero : Balanced fun _ => 0 := ⟨rfl, rfl, rfl, rfl⟩

theorem Balanced.add {f g : Counter → ℕ} (hf : Balanced f) (hg : Balanced g) :
    Balanced fun c => f c + g c := by
  have hsum (count : ScriptType → Counter) :
      (ScriptType.all.map fun t => f (count t) + g (count t)).sum =
        (ScriptType.all.map fun t => f (count t)).sum +
          (ScriptType.all.map fun t => g (count t)).sum :=
    List.sum_map_add
  refine ⟨?_, ?_, ?_, ?_⟩
  · have := hf.paths
    have := hg.paths
    omega
  · have := hf.eligibility
    have := hg.eligibility
    omega
  · rw [hsum, ← hf.outputs, ← hg.outputs]
  · rw [hsum, ← hf.inputs, ← hg.inputs]

theorem balanced_sum {rows : List BlockStats} (h : ∀ row ∈ rows, Balanced row.counter) :
    Balanced fun c => (rows.map fun row => row.counter c).sum := by
  induction rows with
  | nil => exact balanced_zero
  | cons row rows ih =>
    have hrest := ih fun r hr => h r (List.mem_cons_of_mem _ hr)
    have hrow := h row List.mem_cons_self
    simpa only [List.map_cons, List.sum_cons] using hrow.add hrest

/-! ## The sorted stream -/

/-- What a stream adds to the totals is what it reports for the block. -/
structure StreamTally (base : SortedUidCodecStats) (stats : SortedUidCodecStats)
    (block : CodecEstimate) : Prop where
  values : stats.combined.values = base.combined.values + block.values
  leb128Bytes : stats.combined.leb128Bytes = base.combined.leb128Bytes + block.leb128Bytes
  eliasDeltaBits : stats.combined.eliasDeltaBits = base.combined.eliasDeltaBits + block.eliasDeltaBits
  efBits : stats.efBitsWith64bitBase = base.efBitsWith64bitBase

theorem StreamTally.measureDelta {base : SortedUidCodecStats} {loop loop' : MeasureLoop} {uid : ℕ}
    (h : StreamTally base loop.stats loop.blockCombined) (hstep : measureDelta loop uid = .ok loop') :
    StreamTally base loop'.stats loop'.blockCombined := by
  have h₁ := h.values
  have h₂ := h.leb128Bytes
  have h₃ := h.eliasDeltaBits
  simp only [Stats.measureDelta, bind_eq_ok, pure_eq_ok, Except.ok.injEq] at hstep
  obtain ⟨costs, -, rfl⟩ := hstep
  refine ⟨?_, ?_, ?_, h.efBits⟩
  all_goals
    simp only [CodecEstimate.addCosts, CodecEstimate.addCostsNoHist]
    omega

theorem streamTally_start {firstUid anchor : ℕ} {stats : SortedUidCodecStats} {loop : MeasureLoop}
    (h : measureStart firstUid anchor stats = .ok loop) : StreamTally stats loop.stats loop.blockCombined := by
  simp only [measureStart, bind_eq_ok, pure_eq_ok, Except.ok.injEq] at h
  obtain ⟨costs, -, rfl⟩ := h
  refine ⟨?_, ?_, ?_, rfl⟩
  all_goals
    simp only [CodecEstimate.addCosts, CodecEstimate.addCostsNoHist, CodecEstimate.default, Nat.zero_add]

theorem measureSortedUidStream_counter {uids : List ℕ} {anchor : ℕ}
    {stats stats' : SortedUidCodecStats} {estimate : SortedUidBlockEstimate}
    (h : measureSortedUidStream uids anchor stats = .ok (estimate, stats')) (c : StreamCounter) :
    stats'.counter c = stats.counter c + estimate.counter c := by
  unfold measureSortedUidStream at h
  split at h
  · rw [Except.ok.injEq, Prod.mk.injEq] at h
    obtain ⟨rfl, rfl⟩ := h
    cases c <;> rfl
  · rename_i firstUid rest _
    simp only [bind_eq_ok, ensure_eq_ok, pure_eq_ok, Except.ok.injEq, Prod.mk.injEq] at h
    obtain ⟨_, _, _, _, start, hstart, loop, hloop, _, _, rfl, rfl⟩ := h
    have htally : StreamTally stats loop.stats loop.blockCombined :=
      foldlM_invariant (P := fun loop : MeasureLoop => StreamTally stats loop.stats loop.blockCombined)
        (fun _ _ _ _ h hstep => h.measureDelta hstep) (streamTally_start hstart) hloop
    cases c with
    | values =>
      have := htally.values
      simp only [SortedUidCodecStats.counter, SortedUidBlockEstimate.counter]
      split_ifs <;> exact this
    | leb128Bytes =>
      have := htally.leb128Bytes
      simp only [SortedUidCodecStats.counter, SortedUidBlockEstimate.counter]
      split_ifs <;> exact this
    | eliasDeltaBits =>
      have := htally.eliasDeltaBits
      simp only [SortedUidCodecStats.counter, SortedUidBlockEstimate.counter]
      split_ifs <;> exact this
    | efBitsWith64bitBase =>
      have := htally.efBits
      simp only [SortedUidCodecStats.counter, SortedUidBlockEstimate.counter]
      split_ifs <;> simp [this]

/-! ## One block -/

def PerBlock.counter (self : PerBlock) : Counter → ℕ
  | .outputs => self.outputCount
  | .p2trOutputs => self.p2trOutputCount
  | .p2trReused => self.p2trReusedCount
  | .spends => self.spends
  | .p2trSpends => self.p2trSpends
  | .p2trKeypathSpends => self.p2trKeypathSpends
  | .p2trScriptpathSpends => self.p2trScriptpathSpends
  | .p2trNumsSpends => self.p2trNumsSpends
  | .p2trSpEligibleSpends => self.p2trSpEligibleSpends
  | .p2trInscriptionSpends => self.p2trInscriptionSpends
  | .p2trNumsAndInscriptionSpends => self.p2trNumsAndInscriptionSpends
  | .nonspTxs => self.nonspTxs
  | .nonspTxOutputs => self.nonspTxOutputs
  | .scriptOutputs t => self.scriptOutputs.get t
  | .scriptInputs t => self.scriptInputs.get t
  | .sortedSpentIds _ => 0
  | .sortedP2trSpentIds _ => 0

/-- What one spent output of type `t` adds. -/
def spendDelta (t : ScriptType) : Counter → ℕ
  | .spends => 1
  | .scriptInputs u => if u = t then 1 else 0
  | _ => 0

/-- What the class of a P2TR spend adds. -/
def p2trSpendDelta (cls : SpendClass) : Counter → ℕ
  | .p2trSpends => 1
  | .p2trKeypathSpends => if cls.path = .key then 1 else 0
  | .p2trScriptpathSpends => if cls.path = .key then 0 else 1
  | .p2trNumsSpends => if cls.path = .scriptNums then 1 else 0
  | .p2trSpEligibleSpends => if cls.path = .scriptNums then 0 else 1
  | .p2trInscriptionSpends => if cls.inscription then 1 else 0
  | .p2trNumsAndInscriptionSpends => if cls.inscription ∧ cls.path = .scriptNums then 1 else 0
  | _ => 0

def outputDelta (t : ScriptType) (reused txIsNonsp : Bool) : Counter → ℕ
  | .outputs => 1
  | .p2trOutputs => if t = .p2tr then 1 else 0
  | .p2trReused => if t = .p2tr ∧ reused then 1 else 0
  | .nonspTxOutputs => if txIsNonsp then 1 else 0
  | .scriptOutputs u => if u = t then 1 else 0
  | _ => 0

theorem balanced_spendDelta (t : ScriptType) : Balanced (spendDelta t) := by
  refine ⟨rfl, rfl, rfl, ?_⟩
  cases t <;> decide

theorem balanced_p2trSpendDelta (cls : SpendClass) : Balanced (p2trSpendDelta cls) := by
  obtain ⟨path, inscription⟩ := cls
  refine ⟨?_, ?_, rfl, rfl⟩
  · cases path <;> rfl
  · cases path <;> rfl

theorem balanced_outputDelta (t : ScriptType) (reused txIsNonsp : Bool) :
    Balanced (outputDelta t reused txIsNonsp) := by
  refine ⟨rfl, rfl, ?_, rfl⟩
  cases t <;> rfl

theorem RunStats.counter_recordSpend (self : RunStats) (ctx : SpendContext) (t : ScriptType) (c : Counter) :
    ((self.recordSpend ctx).recordInputScript t).counter c = self.counter c + spendDelta t c := by
  cases ctx <;> cases c <;> first | rfl | exact TypeCounts.get_record _ _ _

theorem PerBlock.counter_recordSpendUid (self : PerBlock) (uid : ℕ) (isP2tr : Bool)
    (t : ScriptType) (c : Counter) :
    ((self.recordSpendUid uid isP2tr).recordInputScript t).counter c =
      self.counter c + spendDelta t c := by
  cases isP2tr <;> cases c <;> first | rfl | exact TypeCounts.get_record _ _ _

theorem RunStats.counter_recordP2trSpend (self : RunStats) (cls : SpendClass) (ctx : SpendContext)
    (c : Counter) : (self.recordP2trSpend cls ctx).counter c = self.counter c + p2trSpendDelta cls c := by
  obtain ⟨path, inscription⟩ := cls
  cases path <;> cases inscription <;> cases ctx <;> cases c <;> rfl

theorem PerBlock.counter_recordP2trSpend (self : PerBlock) (cls : SpendClass) (c : Counter) :
    (self.recordP2trSpend cls).counter c = self.counter c + p2trSpendDelta cls c := by
  obtain ⟨path, inscription⟩ := cls
  cases path <;> cases inscription <;> cases c <;> rfl

theorem RunStats.counter_accountOutput (self : RunStats) (t : ScriptType) (reused txIsNonsp : Bool)
    (c : Counter) :
    (self.accountOutput t reused txIsNonsp).counter c =
      self.counter c + outputDelta t reused txIsNonsp c := by
  by_cases ht : t = .p2tr
  · subst ht
    cases reused <;> cases txIsNonsp <;> cases c <;> first | rfl | exact TypeCounts.get_record _ _ _
  · simp only [RunStats.accountOutput, if_neg ht]
    cases txIsNonsp <;> cases c <;>
      first | rfl | exact TypeCounts.get_record _ _ _ | simp [outputDelta, ht, RunStats.counter, recordOutputScript]

theorem PerBlock.counter_accountOutput (self : PerBlock) (t : ScriptType) (reused txIsNonsp : Bool)
    (c : Counter) :
    (self.accountOutput t reused txIsNonsp).counter c =
      self.counter c + outputDelta t reused txIsNonsp c := by
  by_cases ht : t = .p2tr
  · subst ht
    cases reused <;> cases txIsNonsp <;> cases c <;> first | rfl | exact TypeCounts.get_record _ _ _
  · simp only [PerBlock.accountOutput, decide_eq_false ht]
    cases txIsNonsp <;> cases c <;>
      first | rfl | exact TypeCounts.get_record _ _ _ |
        simp [outputDelta, ht, PerBlock.counter, recordOutputScript, recordOutput]

/-- The two accumulators in the middle of a block that began with the totals `base` and
the last ID `lastIdAtBlockStart`. -/
structure BlockTally (base : Counter → ℕ) (lastIdAtBlockStart : ℕ) (state : StatsScannerState)
    (perBlock : PerBlock) : Prop where
  counters : ∀ c, state.stats.counter c = base c + perBlock.counter c
  lastId : state.lastId = lastIdAtBlockStart + perBlock.outputCount
  balanced : Balanced perBlock.counter

section
variable [Sha256] {base : Counter → ℕ} {n : ℕ}

omit [Sha256] in
/-- Both accumulators move by the same balanced amount. -/
theorem BlockTally.add {state state' : StatsScannerState} {perBlock perBlock' : PerBlock}
    (h : BlockTally base n state perBlock) {delta : Counter → ℕ} (hdelta : Balanced delta)
    (hstats : ∀ c, state'.stats.counter c = state.stats.counter c + delta c)
    (hblock : ∀ c, perBlock'.counter c = perBlock.counter c + delta c)
    (hlast : state'.lastId = state.lastId + delta .outputs) :
    BlockTally base n state' perBlock' := by
  refine ⟨?_, ?_, ?_⟩
  · intro c
    rw [hstats, hblock, h.counters]
    omega
  · have : perBlock'.outputCount = perBlock.outputCount + delta .outputs := hblock .outputs
    rw [hlast, h.lastId, this]
    omega
  · have hsum : perBlock'.counter = fun c => perBlock.counter c + delta c := funext hblock
    rw [hsum]
    exact h.balanced.add hdelta

theorem BlockTally.processInput {loop : InputLoop} (h : BlockTally base n loop.state loop.perBlock)
    (start txStart : ℕ) (input : PreparedInput) :
    BlockTally base n (processInput start txStart loop input).state
      (processInput start txStart loop input).perBlock := by
  cases hentry : loop.state.utxo.lookup input.previousOutput with
  | none =>
    simp only [Stats.processInput, hentry]
    exact ⟨h.counters, h.lastId, h.balanced⟩
  | some entry =>
    simp only [Stats.processInput, hentry]
    split_ifs with hp2tr
    · apply h.add ((balanced_spendDelta entry.scriptType).add
        (balanced_p2trSpendDelta input.p2trSpendClass))
      · intro c
        rw [RunStats.counter_recordP2trSpend, RunStats.counter_recordSpend]
        omega
      · intro c
        rw [PerBlock.counter_recordP2trSpend, PerBlock.counter_recordSpendUid]
        omega
      · rfl
    · apply h.add (balanced_spendDelta entry.scriptType)
      · intro c
        exact RunStats.counter_recordSpend _ _ _ _
      · intro c
        exact PerBlock.counter_recordSpendUid _ _ _ _ _
      · rfl

theorem BlockTally.processOutput {acc : StatsScannerState × PerBlock}
    (h : BlockTally base n acc.1 acc.2) (txid : TxidBytes) (txIsNonsp : Bool)
    (output : (ScriptType × Option XOnlyKey) × ℕ) :
    BlockTally base n (processOutput txid txIsNonsp acc output).1
      (processOutput txid txIsNonsp acc output).2 := by
  apply h.add (balanced_outputDelta output.1.1 (output.1.2.any fun k => k ∈ acc.1.seenKeys) txIsNonsp)
  · intro c
    exact RunStats.counter_accountOutput _ _ _ _ _
  · intro c
    exact PerBlock.counter_accountOutput _ _ _ _ _
  · rfl

theorem BlockTally.processTx {acc : StatsScannerState × PerBlock}
    (h : BlockTally base n acc.1 acc.2) (start : ℕ) (tx : PreparedTx) :
    BlockTally base n (processTx start acc tx).1 (processTx start acc tx).2 := by
  obtain ⟨state, perBlock⟩ := acc
  simp only [Stats.processTx]
  refine List.foldlRecOn (motive := fun acc : StatsScannerState × PerBlock =>
    BlockTally base n acc.1 acc.2) _ _ ?_ fun acc hacc output _ => hacc.processOutput tx.txid _ output
  have hloop : BlockTally base n
      (if tx.isCoinbase then (⟨state, perBlock, false, false, false⟩ : InputLoop)
        else tx.inputs.foldl (Stats.processInput start state.lastId)
          ⟨state, perBlock, false, false, false⟩).state
      (if tx.isCoinbase then (⟨state, perBlock, false, false, false⟩ : InputLoop)
        else tx.inputs.foldl (Stats.processInput start state.lastId)
          ⟨state, perBlock, false, false, false⟩).perBlock := by
    split_ifs
    · exact h
    · exact List.foldlRecOn (motive := fun loop : InputLoop =>
        BlockTally base n loop.state loop.perBlock) _ _ h fun loop hloop input _ =>
          hloop.processInput start state.lastId input
  generalize (if tx.isCoinbase then (⟨state, perBlock, false, false, false⟩ : InputLoop)
        else tx.inputs.foldl (Stats.processInput start state.lastId)
          ⟨state, perBlock, false, false, false⟩) = loop at hloop ⊢
  split_ifs
  · have hdelta : Balanced fun c => if c = .nonspTxs then 1 else 0 := ⟨rfl, rfl, rfl, rfl⟩
    apply hloop.add hdelta
    · intro c
      cases c <;> rfl
    · intro c
      cases c <;> rfl
    · rfl
  · exact hloop

/-- The totals of the run grow by the row of the block. -/
theorem processBlock_counter {window : ℕ} {state state' : StatsScannerState}
    {frame : PreparedBlockFrame} {row : BlockStats}
    (h : processBlock window state frame = .ok (state', row)) :
    (∀ c, state'.stats.counter c = state.stats.counter c + row.counter c) ∧
      Balanced row.counter := by
  have hempty : BlockTally state.stats.counter state.lastId state .default :=
    ⟨fun c => by cases c <;> simp [PerBlock.counter, PerBlock.default], rfl, rfl, rfl, rfl, rfl⟩
  have htally := List.foldlRecOn (b := (state, PerBlock.default))
    (motive := fun acc : StatsScannerState × PerBlock =>
      BlockTally state.stats.counter state.lastId acc.1 acc.2)
    frame.txs (Stats.processTx state.lastId) hempty
    fun acc hacc tx _ => hacc.processTx state.lastId tx
  unfold processBlock PerBlock.measureSortedUidEncoding at h
  simp only [bind_eq_ok, pure_eq_ok, Except.ok.injEq] at h
  generalize frame.txs.foldl (Stats.processTx state.lastId) (state, .default) = acc at h htally
  obtain ⟨_, ⟨⟨all, allStats⟩, hall, ⟨⟨p2tr, p2trStats⟩, hp2tr, rfl⟩⟩, heq⟩ := h
  rw [Prod.mk.injEq] at heq
  obtain ⟨rfl, rfl⟩ := heq
  have hcount : acc.1.lastId - state.lastId = acc.2.outputCount := by
    have := htally.lastId
    omega
  constructor
  · intro c
    have hc := htally.counters c
    cases c with
    | outputs =>
      refine hc.trans ?_
      simp only [PerBlock.counter, BlockStats.counter, BlockStats.refreshClasses, hcount]
    | sortedSpentIds c =>
      have := measureSortedUidStream_counter hall c
      simp only [PerBlock.counter] at hc
      simp only [RunStats.counter] at hc ⊢
      rw [this, hc]
      rfl
    | sortedP2trSpentIds c =>
      have := measureSortedUidStream_counter hp2tr c
      simp only [PerBlock.counter] at hc
      simp only [RunStats.counter] at hc ⊢
      rw [this, hc]
      rfl
    | _ => exact hc
  · refine ⟨htally.balanced.paths, htally.balanced.eligibility, ?_, htally.balanced.inputs⟩
    exact hcount.trans htally.balanced.outputs

end

end BitcoinData.Stats
