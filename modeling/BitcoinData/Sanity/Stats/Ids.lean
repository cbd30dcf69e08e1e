import BitcoinData.Lib.Ids
import BitcoinData.Spec.Stats.Origins

/-! The output IDs of the stats scanner. Each output takes the next ID, so live IDs are distinct and
an ID above the last one before a block belongs to an output of that block; a spent ID never comes
back. The argument needs nothing of the blocks. -/

namespace BitcoinData.Stats

open Lib

/-! ## Packed entries -/

theorem UtxoEntry.new_eq {id : ℕ} (h : id < 2 ^ 60) (t : ScriptType) :
    (UtxoEntry.new id t).packed = id * 2 ^ 4 + t.toU8 := by
  have hmod : (id <<< 4) % 2 ^ 64 = id <<< 4 := by
    rw [Nat.shiftLeft_eq]
    exact Nat.mod_eq_of_lt (by omega)
  rw [UtxoEntry.new, hmod, ← Nat.shiftLeft_add_eq_or_of_lt t.toU8_lt, Nat.shiftLeft_eq]

theorem UtxoEntry.id_new {id : ℕ} (h : id < 2 ^ 60) (t : ScriptType) :
    (UtxoEntry.new id t).id = id := by
  have ht := t.toU8_lt
  rw [UtxoEntry.id, UtxoEntry.new_eq h, Nat.shiftRight_eq_div_pow]
  omega

theorem UtxoEntry.scriptType_new {id : ℕ} (h : id < 2 ^ 60) (t : ScriptType) :
    (UtxoEntry.new id t).scriptType = t := by
  have ht := t.toU8_lt
  have hmod : (id * 2 ^ 4 + t.toU8) % 2 ^ 4 = t.toU8 := by omega
  rw [UtxoEntry.scriptType, UtxoEntry.new_eq h, Nat.and_two_pow_sub_one_eq_mod, hmod,
    ScriptType.fromU8_toU8]

/-! ## The counters of spend contexts -/

/-- Between two totals, `n` spends in the block of the output, `p` of them P2TR, and none in its
transaction. -/
structure ContextStep (stats stats' : RunStats) (n p : ℕ) : Prop where
  sameTx : stats'.sameTxSpends = stats.sameTxSpends
  p2trSameTx : stats'.p2trSameTxSpends = stats.p2trSameTxSpends
  sameBlock : stats'.sameBlockSpends = stats.sameBlockSpends + n
  p2trSameBlock : stats'.p2trSameBlockSpends = stats.p2trSameBlockSpends + p

theorem ContextStep.trans {s₁ s₂ s₃ : RunStats} {n p n' p' : ℕ} (h : ContextStep s₁ s₂ n p)
    (h' : ContextStep s₂ s₃ n' p') : ContextStep s₁ s₃ (n + n') (p + p') :=
  ⟨h'.sameTx.trans h.sameTx, h'.p2trSameTx.trans h.p2trSameTx,
    by rw [h'.sameBlock, h.sameBlock, Nat.add_assoc],
    by rw [h'.p2trSameBlock, h.p2trSameBlock, Nat.add_assoc]⟩

theorem contextStep_recordSpend (stats : RunStats) {ctx : SpendContext} (hctx : ctx ≠ .sameTx)
    (t : ScriptType) :
    ContextStep stats ((stats.recordSpend ctx).recordInputScript t) (if ctx = .sameBlock then 1 else 0) 0 := by
  cases ctx with
  | sameTx => exact absurd rfl hctx
  | sameBlock => exact ⟨rfl, rfl, rfl, rfl⟩
  | earlier => exact ⟨rfl, rfl, rfl, rfl⟩

theorem contextStep_recordP2trSpend (stats : RunStats) (cls : SpendClass) {ctx : SpendContext}
    (hctx : ctx ≠ .sameTx) :
    ContextStep stats (stats.recordP2trSpend cls ctx) 0 (if ctx = .sameBlock then 1 else 0) := by
  obtain ⟨path, inscription⟩ := cls
  cases ctx with
  | sameTx => exact absurd rfl hctx
  | sameBlock => cases path <;> cases inscription <;> exact ⟨rfl, rfl, rfl, rfl⟩
  | earlier => cases path <;> cases inscription <;> exact ⟨rfl, rfl, rfl, rfl⟩

theorem contextStep_accountOutput (stats : RunStats) (t : ScriptType) (reused txIsNonsp : Bool) :
    ContextStep stats (stats.accountOutput t reused txIsNonsp) 0 0 := by
  cases t <;> cases reused <;> cases txIsNonsp <;> exact ⟨rfl, rfl, rfl, rfl⟩

/-! ## The invariant -/

/-- In the middle of block `b`, which began after the ID `n`. -/
structure IdInv (b n : ℕ) (origins : Origins) (perBlock : PerBlock) (state : StatsScannerState) :
    Prop where
  bound : state.lastId < 2 ^ 60
  start_le : n ≤ state.lastId
  alloc : Allocated UtxoEntry.id state.utxo state.lastId perBlock.spentUids
  p2tr : perBlock.p2trSpentUids.Sublist perBlock.spentUids
  live : ∀ o e, state.utxo.lookup o = some e →
    ∃ c ≤ b, origins.lookup o = some (c, e.scriptType) ∧ (n < e.id ↔ c = b)
  gone : ∀ o, state.utxo.lookup o = none → origins.lookup o = none
  sameTx : state.stats.sameTxSpends = 0
  p2trSameTx : state.stats.p2trSameTxSpends = 0

theorem IdInv.idsSafe {b n : ℕ} {origins : Origins} {perBlock : PerBlock} {state : StatsScannerState}
    (h : IdInv b n origins perBlock state) : IdsSafe state where
  bound := h.bound
  packing _ hid t :=
    ⟨UtxoEntry.id_new (lt_of_le_of_lt hid h.bound) t, UtxoEntry.scriptType_new (lt_of_le_of_lt hid h.bound) t⟩
  le_last := h.alloc.le_last
  distinct := h.alloc.distinct
  sameTx := h.sameTx
  p2trSameTx := h.p2trSameTx

section
variable [Sha256] {b n txStart : ℕ} {origins : Origins} {loop : InputLoop} {input : PreparedInput}

/-! ## Inputs -/

theorem processInput_none (h : loop.state.utxo.lookup input.previousOutput = none) :
    (processInput n txStart loop input).state =
    { loop.state with missing := loop.state.missing + 1 } ∧
      (processInput n txStart loop input).perBlock = loop.perBlock := by
  unfold processInput
  simp only [h, and_self]

/-- A spend as far as IDs are concerned. -/
structure SpendStep (e : UtxoEntry) (o : OutPointKey) (ctx : SpendContext) (loop loop' : InputLoop) :
    Prop where
  utxo : loop'.state.utxo = loop.state.utxo.erase o
  lastId : loop'.state.lastId = loop.state.lastId
  spent : loop'.perBlock.spentUids = loop.perBlock.spentUids ++ [e.id]
  p2trSpent : loop'.perBlock.p2trSpentUids =
    loop.perBlock.p2trSpentUids ++ if e.scriptType = .p2tr then [e.id] else []
  context : ctx ≠ .sameTx → ContextStep loop.state.stats loop'.state.stats
    (if ctx = .sameBlock then 1 else 0) (if ctx = .sameBlock ∧ e.scriptType = .p2tr then 1 else 0)

omit [Sha256] in
theorem PerBlock.recordP2trSpend_uids (self : PerBlock) (cls : SpendClass) :
    (self.recordP2trSpend cls).spentUids = self.spentUids ∧
      (self.recordP2trSpend cls).p2trSpentUids = self.p2trSpentUids := by
  obtain ⟨path, inscription⟩ := cls
  cases path <;> cases inscription <;> exact ⟨rfl, rfl⟩

theorem processInput_some {e : UtxoEntry} (h : loop.state.utxo.lookup input.previousOutput = some e) :
    SpendStep e input.previousOutput (spendContext e.id txStart n) loop (processInput n txStart loop input) := by
  unfold processInput
  by_cases hp : e.scriptType = .p2tr
  · simp only [h, hp, decide_true, if_true]
    obtain ⟨hspent, hp2tr⟩ := PerBlock.recordP2trSpend_uids
      ((loop.perBlock.recordSpendUid e.id true).recordInputScript .p2tr) input.p2trSpendClass
    refine ⟨rfl, rfl, hspent, by rw [if_pos hp]; exact hp2tr, fun hctx => ?_⟩
    have hstep := (contextStep_recordSpend loop.state.stats hctx .p2tr).trans
      (contextStep_recordP2trSpend _ input.p2trSpendClass hctx)
    simpa [hp] using hstep
  · simp only [h, hp, decide_false, Bool.false_eq_true, if_false]
    refine ⟨rfl, rfl, rfl, by rw [if_neg hp, List.append_nil]; rfl, fun hctx => ?_⟩
    have hstep := contextStep_recordSpend loop.state.stats hctx e.scriptType
    simpa [hp] using hstep

omit [Sha256] in
/-- An input spends in both maps or in neither. -/
theorem IdInv.live_spend {perBlock : PerBlock} {state : StatsScannerState}
    (h : IdInv b n origins perBlock state) (input : PreparedInput) :
    (∀ o e, (state.utxo.erase input.previousOutput).lookup o = some e →
      ∃ c ≤ b, (origins.spend input).lookup o = some (c, e.scriptType) ∧ (n < e.id ↔ c = b)) ∧
    ∀ o, (state.utxo.erase input.previousOutput).lookup o = none → (origins.spend input).lookup o = none := by
  refine ⟨fun o e he => ?_, fun o ho => ?_⟩
  · rw [lookup_erase_ite] at he
    split_ifs at he with heq
    rw [Origins.spend, lookup_erase_ite, if_neg heq]
    exact h.live o e he
  · rw [Origins.spend, lookup_erase_ite]
    rw [lookup_erase_ite] at ho
    split_ifs at ho ⊢
    · rfl
    · exact h.gone o ho

/-- What an input leaves: the spent output is gone, its ID is recorded, and the context counters
move with its block. -/
theorem IdInv.processInput (h : IdInv b n origins loop.perBlock loop.state)
    (htx : txStart = loop.state.lastId) (input : PreparedInput) :
    IdInv b n (origins.spend input) (processInput n txStart loop input).perBlock
        (processInput n txStart loop input).state ∧
      (Stats.processInput n txStart loop input).state.lastId = loop.state.lastId ∧
      CountsSpend b (origins.lookup input.previousOutput) loop.state.stats
        (Stats.processInput n txStart loop input).state.stats := by
  obtain ⟨hlive, hgone⟩ := h.live_spend input
  cases hlook : loop.state.utxo.lookup input.previousOutput with
  | none =>
    obtain ⟨hstate, hblock⟩ := processInput_none hlook
    have herase : loop.state.utxo.erase input.previousOutput = loop.state.utxo :=
      Finmap.ext_lookup fun o => by
        rw [lookup_erase_ite]
        split_ifs with heq
        · rw [heq, hlook]
        · rfl
    rw [herase] at hlive hgone
    rw [hstate, hblock, h.gone _ hlook]
    exact ⟨{ h with live := hlive, gone := hgone }, rfl, rfl, rfl⟩
  | some e =>
    have hstep : SpendStep e input.previousOutput (spendContext e.id txStart n) loop
        (Stats.processInput n txStart loop input) := processInput_some hlook
    obtain ⟨c, hc, horigin, hid⟩ := h.live _ e hlook
    -- the entry is no newer than the transaction
    have hctx : spendContext e.id txStart n = if c = b then .sameBlock else .earlier := by
      rw [spendContext, if_neg (by rw [htx]; exact not_lt.mpr (h.alloc.le_last _ e hlook))]
      simp only [gt_iff_lt, hid]
    have hcontext := hstep.context (by rw [hctx]; split_ifs <;> decide)
    have hblock : spendContext e.id txStart n = .sameBlock ↔ c = b := by
      rw [hctx]
      by_cases hcb : c = b
      · simp [hcb]
      · simp [hcb]
    refine ⟨?_, hstep.lastId, ?_⟩
    · refine ⟨?_, ?_, ?_, ?_, ?_, ?_, ?_, ?_⟩
      · rw [hstep.lastId]
        exact h.bound
      · rw [hstep.lastId]
        exact h.start_le
      · rw [hstep.utxo, hstep.lastId, hstep.spent]
        exact h.alloc.free hlook
      · rw [hstep.spent, hstep.p2trSpent]
        refine h.p2tr.append ?_
        split_ifs
        · exact List.Sublist.refl _
        · exact List.nil_sublist _
      · rw [hstep.utxo]
        exact hlive
      · rw [hstep.utxo]
        exact hgone
      · rw [hcontext.sameTx]
        exact h.sameTx
      · rw [hcontext.p2trSameTx]
        exact h.p2trSameTx
    · rw [horigin]
      refine ⟨?_, ?_⟩
      · rw [hcontext.sameBlock]
        simp [hblock]
      · rw [hcontext.p2trSameBlock]
        simp [hblock]

theorem IdInv.processInputs (h : IdInv b n origins loop.perBlock loop.state)
    (htx : txStart = loop.state.lastId) (inputs : List PreparedInput) :
    IdInv b n (inputs.foldl Origins.spend origins) (inputs.foldl (Stats.processInput n txStart) loop).perBlock
        (inputs.foldl (Stats.processInput n txStart) loop).state ∧
      (inputs.foldl (Stats.processInput n txStart) loop).state.lastId = txStart := by
  induction inputs generalizing loop origins with
  | nil => exact ⟨h, htx.symm⟩
  | cons input inputs ih =>
    obtain ⟨hinv, hlast, -⟩ := h.processInput htx input
    exact ih hinv (htx.trans hlast.symm)

/-! ## Outputs -/

omit [Sha256] in
theorem PerBlock.accountOutput_uids (self : PerBlock) (t : ScriptType) (reused txIsNonsp : Bool) :
    (self.accountOutput t reused txIsNonsp).spentUids = self.spentUids ∧
      (self.accountOutput t reused txIsNonsp).p2trSpentUids = self.p2trSpentUids := by
  cases t <;> cases reused <;> cases txIsNonsp <;> exact ⟨rfl, rfl⟩

/-- An output takes the next ID, which is above every ID before the block. -/
theorem IdInv.processOutput {acc : StatsScannerState × PerBlock} (h : IdInv b n origins acc.2 acc.1)
    (hroom : acc.1.lastId + 1 < 2 ^ 60) (txid : TxidBytes) (txIsNonsp : Bool)
    (output : (ScriptType × Option XOnlyKey) × ℕ) :
    IdInv b n (origins.create b txid output) (Stats.processOutput txid txIsNonsp acc output).2
        (Stats.processOutput txid txIsNonsp acc output).1 ∧
      (Stats.processOutput txid txIsNonsp acc output).1.lastId = acc.1.lastId + 1 := by
  obtain ⟨state, perBlock⟩ := acc
  obtain ⟨⟨t, key⟩, vout⟩ := output
  simp only at h hroom
  unfold Stats.processOutput
  dsimp only
  set reused : Bool := key.any fun k => k ∈ state.seenKeys with hreused
  obtain ⟨hspent, hp2tr⟩ := PerBlock.accountOutput_uids perBlock t reused txIsNonsp
  have hctx := contextStep_accountOutput state.stats t reused txIsNonsp
  have hid := UtxoEntry.id_new hroom t
  refine ⟨⟨hroom, le_trans h.start_le (Nat.le_succ _), ?_, ?_, fun o e he => ?_, fun o ho => ?_, ?_, ?_⟩, rfl⟩
  · rw [hspent]
    exact h.alloc.alloc _ hid
  · rw [hspent, hp2tr]
    exact h.p2tr
  · rw [Origins.create, lookup_insert_ite]
    rw [lookup_insert_ite] at he
    split_ifs at he ⊢ with heq
    · rw [Option.some.injEq] at he
      subst he
      refine ⟨b, le_refl b, by rw [UtxoEntry.scriptType_new hroom], ?_⟩
      rw [hid]
      have := h.start_le
      simp only [iff_true]
      omega
    · exact h.live o e he
  · rw [Origins.create, lookup_insert_ite]
    rw [lookup_insert_ite] at ho
    split_ifs at ho ⊢
    exact h.gone o ho
  · rw [hctx.sameTx]
    exact h.sameTx
  · rw [hctx.p2trSameTx]
    exact h.p2trSameTx

theorem IdInv.processOutputs (txid : TxidBytes) (txIsNonsp : Bool)
    (outputs : List ((ScriptType × Option XOnlyKey) × ℕ)) {acc : StatsScannerState × PerBlock}
    (h : IdInv b n origins acc.2 acc.1) (hroom : acc.1.lastId + outputs.length < 2 ^ 60) :
    IdInv b n (outputs.foldl (Origins.create b txid) origins)
        (outputs.foldl (Stats.processOutput txid txIsNonsp) acc).2
        (outputs.foldl (Stats.processOutput txid txIsNonsp) acc).1 ∧
      (outputs.foldl (Stats.processOutput txid txIsNonsp) acc).1.lastId = acc.1.lastId + outputs.length := by
  induction outputs generalizing acc origins with
  | nil => exact ⟨h, rfl⟩
  | cons output outputs ih =>
    rw [List.length_cons] at hroom ⊢
    obtain ⟨hinv, hlast⟩ := h.processOutput (by omega) txid txIsNonsp output
    obtain ⟨hinv', hlast'⟩ := ih hinv (by omega)
    refine ⟨hinv', ?_⟩
    rw [List.foldl_cons, hlast', hlast]
    omega

/-! ## Transactions and blocks -/

def PreparedTx.outputCount (tx : PreparedTx) : ℕ :=
  (tx.outputScriptTypes.zip tx.outputXonlyKeys).length

theorem IdInv.processTx {acc : StatsScannerState × PerBlock} (h : IdInv b n origins acc.2 acc.1)
    (tx : PreparedTx) (hroom : acc.1.lastId + tx.outputCount < 2 ^ 60) :
    IdInv b n (origins.tx b tx) (Stats.processTx n acc tx).2 (Stats.processTx n acc tx).1 ∧
      (Stats.processTx n acc tx).1.lastId = acc.1.lastId + tx.outputCount := by
  obtain ⟨state, perBlock⟩ := acc
  simp only at h hroom
  unfold Stats.processTx
  dsimp only
  -- the loop over the inputs, which a coinbase skips
  set loop : InputLoop := if tx.isCoinbase then ⟨state, perBlock, false, false, false⟩
    else tx.inputs.foldl (Stats.processInput n state.lastId) ⟨state, perBlock, false, false,
      false⟩ with hloop
  have hinputs : IdInv b n (if tx.isCoinbase then origins else tx.inputs.foldl Origins.spend origins)
      loop.perBlock loop.state ∧ loop.state.lastId = state.lastId := by
    rw [hloop]
    cases tx.isCoinbase with
    | true => exact ⟨h, rfl⟩
    | false =>
      have hstart : IdInv b n origins (⟨state, perBlock, false, false, false⟩ : InputLoop).perBlock
        (⟨state, perBlock, false, false, false⟩ : InputLoop).state := h
      exact hstart.processInputs rfl tx.inputs
  obtain ⟨hinv, hlast⟩ := hinputs
  set txIsNonsp := !tx.isCoinbase && loop.p2trInputSeen && !loop.anySpEligibleInput &&
    !loop.hasNonP2trInput with hnonsp
  set acc : StatsScannerState × PerBlock := if txIsNonsp then
      ({ loop.state with stats := { loop.state.stats with nonspTxs := loop.state.stats.nonspTxs + 1 } },
        { loop.perBlock with nonspTxs := loop.perBlock.nonspTxs + 1 })
    else (loop.state, loop.perBlock) with hacc
  have hstart : IdInv b n (if tx.isCoinbase then origins else tx.inputs.foldl Origins.spend origins)
      acc.2 acc.1 ∧ acc.1.lastId = state.lastId := by
    rw [hacc]
    cases txIsNonsp with
    | true => exact ⟨⟨hinv.bound, hinv.start_le, hinv.alloc, hinv.p2tr, hinv.live, hinv.gone, hinv.sameTx,
        hinv.p2trSameTx⟩, hlast⟩
    | false => exact ⟨hinv, hlast⟩
  obtain ⟨hinv', hlast'⟩ := hstart
  have hlen : (tx.outputScriptTypes.zip tx.outputXonlyKeys).zipIdx.length = tx.outputCount :=
    List.length_zipIdx
  have hroom' : acc.1.lastId + (tx.outputScriptTypes.zip tx.outputXonlyKeys).zipIdx.length < 2 ^ 60 := by
    rw [hlen, hlast']
    exact hroom
  obtain ⟨hdone, hcount⟩ := hinv'.processOutputs tx.txid txIsNonsp _ hroom'
  refine ⟨hdone, ?_⟩
  rw [hcount, hlen, hlast']

theorem IdInv.processTxs (txs : List PreparedTx) {acc : StatsScannerState × PerBlock}
    (h : IdInv b n origins acc.2 acc.1)
    (hroom : acc.1.lastId + (txs.map PreparedTx.outputCount).sum < 2 ^ 60) :
    IdInv b n (txs.foldl (Origins.tx b) origins) (txs.foldl (Stats.processTx n) acc).2
        (txs.foldl (Stats.processTx n) acc).1 ∧
      (txs.foldl (Stats.processTx n) acc).1.lastId =
        acc.1.lastId + (txs.map PreparedTx.outputCount).sum := by
  induction txs generalizing acc origins with
  | nil => exact ⟨h, rfl⟩
  | cons tx txs ih =>
    rw [List.map_cons, List.sum_cons] at hroom ⊢
    obtain ⟨hinv, hlast⟩ := h.processTx tx (by omega)
    obtain ⟨hinv', hlast'⟩ := ih hinv (by omega)
    refine ⟨hinv', ?_⟩
    rw [List.foldl_cons, hlast', hlast]
    omega

end

end BitcoinData.Stats
