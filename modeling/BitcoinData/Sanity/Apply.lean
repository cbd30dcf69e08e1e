import BitcoinData.Lib.Ledger
import BitcoinData.Spec.Slots

/-! What `apply_block_with_stats` does to its accumulator, one loop body at a time,
and what a successful call therefore returns. Every later proof about a block reads
`AppliedSpec` and none unfolds the loops again. -/

namespace BitcoinData

open Lib

theorem skippedSlots_append (slots : List P2trSlot) (slot : P2trSlot) :
    skippedSlots (slots ++ [slot]) =
      skippedSlots slots ++ if slot.skipped then [(slot, slots.length)] else [] := by
  unfold skippedSlots
  rw [List.zipIdx_append, List.filter_append]
  cases h : slot.skipped <;> simp [h]

theorem keptSlots_append (slots : List P2trSlot) (slot : P2trSlot) :
    keptSlots (slots ++ [slot]) =
      keptSlots slots ++ if slot.skipped then [] else [(slot, slots.length)] := by
  unfold keptSlots
  rw [List.zipIdx_append, List.filter_append]
  cases h : slot.skipped <;> simp [h]

/-- The accumulator after the native P2TR outputs `slots`, for a state whose map was
`start`. -/
structure AccInv (start : SpendMap) (nextUid : UInt64) (block : BlockScanInput)
    (firstUid : UInt64) (slots : List P2trSlot) (acc : ApplyAcc) : Prop where
  nextUid : acc.self.nextUid = nextUid
  slotCount : acc.stats.p2trOutputCount = slots.length
  slotBound : slots.length ≤ 2 ^ 16
  skipped : acc.storageSkippedOutputs.map (·.toNat) = (skippedSlots slots).map (·.2)
  created : acc.createdUtxos.map (fun c => (c.entry.outpoint, c.entry.uid.toNat)) =
    (keptSlots slots).map fun p => (p.1.outpoint, firstUid.toNat + p.2)
  keys : acc.createdUtxos.map (fun c => some c.entry.p2trXonlyKey) =
    (keptSlots slots).map fun p => p.1.output.p2trXonlyKey
  createdHeight : ∀ c ∈ acc.createdUtxos, c.entry.createdHeight = block.height
  index : acc.createdUtxos.map (·.entry.outputIndex.toNat) = List.range acc.createdUtxos.length
  outputs : acc.storageOutputEntries = acc.createdUtxos.map storedEntry
  spends : acc.storageSpends.map (fun s => (s.spentUid, s.creationHeight.toNat)) =
    acc.spentUtxos.map fun s => (s.uid, s.creationHeight)
  spentHeight : ∀ s ∈ acc.spentUtxos, s.spentHeight = block.height
  inputs : ∀ s ∈ acc.spentUtxos, s.outpoint ∈ block.inputOutpoints
  ledger : ∃ log, Exec start log acc.self.outpointToSpend ∧
    puts log = acc.createdUtxos.map createdPair ∧ takes log = acc.spentUtxos.map spentPair

variable {start : SpendMap} {nextUid firstUid : UInt64} {block : BlockScanInput}
  {slots : List P2trSlot} {acc acc' : ApplyAcc} {tx : TxScanInput}

theorem AccInv.applyInput {input : TxInputScan} (hi : AccInv start nextUid block firstUid slots acc)
    (hin : input.previousOutput ∈ block.inputOutpoints)
    (h : applyInput block tx acc input = .ok acc') :
    AccInv start nextUid block firstUid slots acc' := by
  unfold BitcoinData.applyInput at h
  split at h
  · cases h
    exact hi
  · rename_i spendRef hlook
    simp only [bind_eq_ok, tryU32_eq_ok, pure_eq_ok, Except.ok.injEq] at h
    obtain ⟨creationHeight, hc, rfl⟩ := h
    obtain ⟨log, hexec, hputs, htakes⟩ := hi.ledger
    exact {
      nextUid := hi.nextUid
      slotCount := hi.slotCount
      slotBound := hi.slotBound
      skipped := hi.skipped
      created := hi.created
      keys := hi.keys
      createdHeight := hi.createdHeight
      index := hi.index
      outputs := hi.outputs
      spends := by simp [hi.spends, hc]
      spentHeight := by
        intro s hs
        rcases List.mem_append.mp hs with hs | hs
        · exact hi.spentHeight s hs
        · rw [List.mem_singleton.mp hs]
      inputs := by
        intro s hs
        rcases List.mem_append.mp hs with hs | hs
        · exact hi.inputs s hs
        · rw [List.mem_singleton.mp hs]
          exact hin
      ledger := by
        refine ⟨log ++ [.take input.previousOutput spendRef], ?_, ?_, ?_⟩
        · exact exec_append.mpr ⟨_, hexec, hlook, rfl⟩
        · simpa [puts_append, puts] using hputs
        · simp [takes_append, takes, htakes, spentPair, spentLookup] }

/-- A stored output: it takes the next slot, the next dense index and the UID of
its slot, and enters the map under its outpoint. -/
theorem AccInv.storeOutput {output : TxOutputScan} {key : XOnlyKey} {reused : Bool}
    (hi : AccInv start nextUid block firstUid slots acc) (hlt : slots.length < 2 ^ 16)
    (hkey : output.p2trXonlyKey = some key) (hkept : (⟨tx, output⟩ : P2trSlot).skipped = false)
    {acc₁ : ApplyAcc} (h₁ : acc₁ = { (takeP2trSlot output key acc).1 with
      stats := acc₁.stats }) (hcount : acc₁.stats.p2trOutputCount = slots.length + 1)
    (h : storeOutput block firstUid tx output key slots.length reused acc₁ = .ok acc') :
    AccInv start nextUid block firstUid (slots ++ [⟨tx, output⟩]) acc' := by
  unfold BitcoinData.storeOutput at h
  simp only [bind_eq_ok, okOr_eq_ok, checkedAdd16_eq_some, checkedAdd64_eq_some, tryU32_eq_ok,
    pure_eq_ok, Except.ok.injEq] at h
  obtain ⟨count, -, uid, huid, outputIndex, hidx, rfl⟩ := h
  obtain ⟨log, hexec, hputs, htakes⟩ := hi.ledger
  have hslot : (UInt64.ofNat slots.length).toNat = slots.length :=
    UInt64.toNat_ofNat_of_lt' (lt_trans hlt (by decide))
  rw [hslot] at huid
  have hself : acc₁.self.outpointToSpend = acc.self.outpointToSpend := by rw [h₁]; rfl
  have hcreated : acc₁.createdUtxos = acc.createdUtxos := by rw [h₁]; rfl
  have hspent : acc₁.spentUtxos = acc.spentUtxos := by rw [h₁]; rfl
  have hout : acc₁.storageOutputEntries = acc.storageOutputEntries := by rw [h₁]; rfl
  rw [hout, hi.outputs, List.length_map] at hidx
  exact {
    nextUid := by rw [h₁]; exact hi.nextUid
    slotCount := by simpa using hcount
    slotBound := by simpa using hlt
    skipped := by
      rw [h₁, skippedSlots_append, hkept]
      simpa [takeP2trSlot] using hi.skipped
    created := by
      rw [keptSlots_append, hkept]
      simp [hcreated, hi.created, huid, P2trSlot.outpoint]
    keys := by
      rw [keptSlots_append, hkept]
      simp [hcreated, hi.keys, hkey]
    createdHeight := by
      intro c hc
      rcases List.mem_append.mp hc with hc | hc
      · exact hi.createdHeight c (hcreated ▸ hc)
      · rw [List.mem_singleton.mp hc]
    index := by
      simp only [hcreated, List.map_append, hi.index, List.map_cons, List.map_nil, hidx,
        List.length_append, List.length_singleton, List.range_succ]
    outputs := by
      simp only [hout, hi.outputs, hcreated, List.map_append, List.map_cons, List.map_nil,
        storedEntry]
    spends := by rw [h₁]; exact hi.spends
    spentHeight := by
      intro s hs
      exact hi.spentHeight s (hspent ▸ hs)
    inputs := by
      intro s hs
      exact hi.inputs s (hspent ▸ hs)
    ledger := by
      refine ⟨log ++ [.put ⟨tx.txid, output.vout⟩
        ⟨uid, block.height, outputIndex, if reused then STORAGE_OUTPUT_FLAG_REUSED else 0⟩], ?_, ?_, ?_⟩
      · exact exec_append.mpr ⟨_, hexec, by rw [← hself]; rfl⟩
      · simp [puts_append, puts, hputs, hcreated, createdPair, RocksIndexStore.createdLookup]
      · simp [takes_append, takes, htakes, hspent] }

theorem AccInv.applyOutput {output : TxOutputScan}
    (hi : AccInv start nextUid block firstUid slots acc)
    (h : applyOutput block firstUid tx acc output = .ok acc') :
    AccInv start nextUid block firstUid (slots ++ tx.slotsOf [output]) acc' := by
  unfold BitcoinData.applyOutput at h
  cases hp : output.isP2tr with
  | false =>
    rw [hp] at h
    cases h
    simpa [TxScanInput.slotsOf, hp] using { hi with }
  | true =>
    simp only [hp, Bool.not_true, Bool.false_eq_true, if_false, bind_eq_ok, tryU16_eq_ok] at h
    obtain ⟨slotU16, hslot, key, hkey, h⟩ := h
    have hslots : tx.slotsOf [output] = [⟨tx, output⟩] := by simp [TxScanInput.slotsOf, hp]
    rw [hslots]
    rw [hi.slotCount] at hslot
    have hlt : slots.length < 2 ^ 16 := hslot ▸ slotU16.toNat_lt
    have hkey' : output.p2trXonlyKey = some key := by
      simpa [p2trOutputIdentity] using hkey
    split at h
    · rename_i hskip
      -- a skipped slot only extends the list of skipped slot numbers
      have hskipped : (⟨tx, output⟩ : P2trSlot).skipped = true := hskip
      simp only [pure_eq_ok, Except.ok.injEq] at h
      subst h
      exact { hi with
        slotCount := by simp [takeP2trSlot, hi.slotCount]
        slotBound := by simpa using hlt
        skipped := by
          rw [skippedSlots_append, hskipped]
          simp [takeP2trSlot, hi.skipped, hslot]
        created := by
          rw [keptSlots_append, hskipped]
          simpa [takeP2trSlot] using hi.created
        keys := by
          rw [keptSlots_append, hskipped]
          simpa [takeP2trSlot] using hi.keys }
    · rename_i hskip
      have hkept : (⟨tx, output⟩ : P2trSlot).skipped = false := by
        rwa [← Bool.not_eq_true]
      simp only [hi.slotCount] at h
      exact hi.storeOutput hlt hkey' hkept rfl (by simp [takeP2trSlot]) h

/-- The end of a transaction changes its tweak entry or its bit, and counters that no
other field depends on. -/
theorem finishTx_frame {txCount : UInt16} (h : finishTx txCount tx acc = .ok acc') :
    ∃ stats tweaks bitmap, acc' =
      { acc with stats := stats, storageTxTweaks := tweaks, skippedTxsForTweaks := bitmap } ∧
      stats.p2trOutputCount = acc.stats.p2trOutputCount := by
  unfold BitcoinData.finishTx at h
  -- the first counter only renames the accumulator
  obtain ⟨stats, hacc, hstats⟩ : ∃ stats, (if acc.txHasP2trOutput then
      { acc with stats := { acc.stats with
        txWithP2trOutputCount := acc.stats.txWithP2trOutputCount + 1 } } else acc) =
      { acc with stats := stats } ∧ stats.p2trOutputCount = acc.stats.p2trOutputCount := by
    split_ifs
    · exact ⟨_, rfl, rfl⟩
    · exact ⟨_, rfl, rfl⟩
  simp only [hacc] at h
  split at h
  · cases htweak : tx.silentPaymentTweak with
    | some tweak =>
      simp only [htweak, Except.ok.injEq] at h
      exact ⟨_, _, _, h.symm, hstats⟩
    | none =>
      simp only [htweak, Except.ok.injEq] at h
      exact ⟨_, _, _, h.symm, hstats⟩
  · simp only [bind_eq_ok, pure_eq_ok, Except.ok.injEq] at h
    obtain ⟨bitmap, -, h⟩ := h
    exact ⟨_, _, _, h.symm, hstats⟩

theorem AccInv.finishTx {txCount : UInt16} (hi : AccInv start nextUid block firstUid slots acc)
    (h : finishTx txCount tx acc = .ok acc') : AccInv start nextUid block firstUid slots acc' := by
  obtain ⟨stats, tweaks, bitmap, rfl, hstats⟩ := finishTx_frame h
  exact { hi with slotCount := by rw [← hi.slotCount, ← hstats] }

theorem AccInv.applyTx {txCount : UInt16} (hi : AccInv start nextUid block firstUid slots acc)
    (htx : tx ∈ block.txs) (h : applyTx block firstUid txCount acc tx = .ok acc') :
    AccInv start nextUid block firstUid (slots ++ tx.p2trSlots) acc' := by
  unfold BitcoinData.applyTx at h
  simp only [bind_eq_ok] at h
  obtain ⟨acc₁, h₁, acc₂, h₂, h₃⟩ := h
  have hi₀ : AccInv start nextUid block firstUid slots
      { acc with txHasP2trOutput := false, txIndexedOutputCount := 0 } := { hi with }
  have hin : ∀ input ∈ tx.inputs, input.previousOutput ∈ block.inputOutpoints := fun input hmem =>
    List.mem_flatMap.mpr ⟨tx, htx, List.mem_map_of_mem hmem⟩
  have hi₁ := foldlM_invariant
    (fun input hmem _ _ hs hstep => AccInv.applyInput hs (hin input hmem) hstep) hi₀ h₁
  have hi₂ := foldlM_prefix_invariant
    (fun pre acc => AccInv start nextUid block firstUid (slots ++ tx.slotsOf pre) acc)
    tx.outputs [] acc₁ acc₂
    (fun output _ pre s s' hs hstep => by
      have := AccInv.applyOutput hs hstep
      rwa [List.append_assoc, ← show tx.slotsOf (pre ++ [output]) = tx.slotsOf pre ++
        tx.slotsOf [output] by simp [TxScanInput.slotsOf]] at this)
    (by simpa [TxScanInput.slotsOf] using hi₁) h₂
  exact hi₂.finishTx h₃

theorem AccInv.init (self : P2trIndexerState) (txCount : UInt16) :
    AccInv self.outpointToSpend self.nextUid block firstUid [] (ApplyAcc.init self txCount) where
  nextUid := rfl
  slotCount := rfl
  slotBound := by simp
  skipped := rfl
  created := rfl
  keys := rfl
  createdHeight := by simp [ApplyAcc.init]
  index := rfl
  outputs := rfl
  spends := rfl
  spentHeight := by simp [ApplyAcc.init]
  inputs := by simp [ApplyAcc.init]
  ledger := ⟨[], rfl, rfl, rfl⟩

/-! ## A successful call -/

theorem applyTxs_accInv {self : P2trIndexerState} {txCount : UInt16}
    (h : block.txs.foldlM (applyTx block firstUid txCount) (ApplyAcc.init self txCount) = .ok acc) :
    AccInv self.outpointToSpend self.nextUid block firstUid block.p2trSlots acc := by
  have := foldlM_prefix_invariant
    (fun pre acc => AccInv self.outpointToSpend self.nextUid block firstUid
      (pre.flatMap TxScanInput.p2trSlots) acc)
    block.txs [] _ acc
    (fun tx htx pre s s' hs hstep => by
      have := AccInv.applyTx hs htx hstep
      rwa [show pre.flatMap TxScanInput.p2trSlots ++ tx.p2trSlots =
        (pre ++ [tx]).flatMap TxScanInput.p2trSlots by simp] at this)
    (AccInv.init self txCount) h
  rw [List.nil_append] at this
  exact this

/-! ## Tweaks and outputs -/

/-- Inside a transaction, the tweaks so far and its own counter account for the outputs. -/
structure TweakAcc (tx : TxScanInput) (acc : ApplyAcc) : Prop where
  sum : tweakSum acc.storageTxTweaks + acc.txIndexedOutputCount.toNat =
    acc.storageOutputEntries.length
  none : tx.silentPaymentTweak = none → acc.txIndexedOutputCount = 0

theorem TweakAcc.applyInput {input : TxInputScan} (hi : TweakAcc tx acc)
    (h : applyInput block tx acc input = .ok acc') : TweakAcc tx acc' := by
  unfold BitcoinData.applyInput at h
  split at h
  · cases h
    exact hi
  · simp only [bind_eq_ok, pure_eq_ok, Except.ok.injEq] at h
    obtain ⟨_, -, rfl⟩ := h
    exact ⟨hi.sum, hi.none⟩

theorem TweakAcc.applyOutput {output : TxOutputScan} (hi : TweakAcc tx acc)
    (h : applyOutput block firstUid tx acc output = .ok acc') : TweakAcc tx acc' := by
  unfold BitcoinData.applyOutput at h
  split at h
  · cases h
    exact ⟨hi.sum, hi.none⟩
  · simp only [bind_eq_ok] at h
    obtain ⟨slot, -, key, -, h⟩ := h
    split at h
    · rw [pure_eq_ok, Except.ok.injEq] at h
      rw [← h]
      exact ⟨hi.sum, hi.none⟩
    · rename_i hkept
      unfold BitcoinData.storeOutput at h
      simp only [bind_eq_ok, okOr_eq_ok, checkedAdd16_eq_some, pure_eq_ok, Except.ok.injEq] at h
      obtain ⟨count, hcount, _, -, _, -, rfl⟩ := h
      have hsum := hi.sum
      refine ⟨?_, fun hnone => ?_⟩
      · change tweakSum acc.storageTxTweaks + count.toNat = (acc.storageOutputEntries ++ _).length
        rw [List.length_append, List.length_singleton, hcount, ← hsum]
        rfl
      · rw [hnone] at hkept
        simp at hkept

/-- What the end of a transaction adds to the tweaks. -/
theorem finishTx_tweaks {txCount : UInt16} (h : finishTx txCount tx acc = .ok acc') :
    acc'.storageOutputEntries = acc.storageOutputEntries ∧
      ((acc.txIndexedOutputCount.toNat = 0 ∨ tx.silentPaymentTweak = none) ∧
          acc'.storageTxTweaks = acc.storageTxTweaks ∨
        0 < acc.txIndexedOutputCount.toNat ∧ ∃ tweak, acc'.storageTxTweaks =
          acc.storageTxTweaks ++ [{ outputCount := acc.txIndexedOutputCount, tweak }]) := by
  unfold BitcoinData.finishTx at h
  cases hp : acc.txHasP2trOutput
  all_goals
    simp only [hp, if_true, Bool.false_eq_true, if_false] at h
    split at h
    · rename_i hpos
      cases htweak : tx.silentPaymentTweak with
      | some tweak =>
        simp only [htweak, Except.ok.injEq] at h
        rw [← h]
        exact ⟨rfl, .inr ⟨UInt16.lt_iff_toNat_lt.mp hpos, tweak, rfl⟩⟩
      | none =>
        simp only [htweak, Except.ok.injEq] at h
        rw [← h]
        exact ⟨rfl, .inl ⟨.inr rfl, rfl⟩⟩
    · rename_i hle
      simp only [bind_eq_ok, pure_eq_ok, Except.ok.injEq] at h
      obtain ⟨bitmap, -, rfl⟩ := h
      rw [gt_iff_lt, UInt16.lt_iff_toNat_lt, UInt16.toNat_zero] at hle
      exact ⟨rfl, .inl ⟨.inl (by omega), rfl⟩⟩

theorem applyTx_tweakSum {txCount : UInt16} (h : applyTx block firstUid txCount acc tx = .ok acc')
    (hacc : tweakSum acc.storageTxTweaks = acc.storageOutputEntries.length) :
    tweakSum acc'.storageTxTweaks = acc'.storageOutputEntries.length := by
  unfold BitcoinData.applyTx at h
  simp only [bind_eq_ok] at h
  obtain ⟨acc₁, h₁, acc₂, h₂, h₃⟩ := h
  have hi₀ : TweakAcc tx { acc with txHasP2trOutput := false, txIndexedOutputCount := 0 } :=
    ⟨hacc, fun _ => rfl⟩
  have hi₁ : TweakAcc tx acc₁ := foldlM_invariant (fun input _ a a' ha hstep =>
    ha.applyInput hstep) hi₀ h₁
  have hi₂ : TweakAcc tx acc₂ := foldlM_invariant (fun output _ a a' ha hstep =>
    ha.applyOutput hstep) hi₁ h₂
  have hsum := hi₂.sum
  obtain ⟨hout, ⟨hnone, htweaks⟩ | ⟨-, tweak, htweaks⟩⟩ := finishTx_tweaks h₃
  · have hzero : acc₂.txIndexedOutputCount.toNat = 0 := by
      rcases hnone with hzero | hnone
      · exact hzero
      · rw [hi₂.none hnone, UInt16.toNat_zero]
    rw [hout, htweaks]
    omega
  · rw [hout, htweaks, ← hsum]
    simp [tweakSum]

/-- No tweak entry is empty. -/
def CountsPositive (tweaks : List TweakEntryInput) : Prop :=
  ∀ entry ∈ tweaks, 0 < entry.outputCount.toNat

theorem applyInput_tweaks {input : TxInputScan} (h : applyInput block tx acc input = .ok acc') :
    acc'.storageTxTweaks = acc.storageTxTweaks := by
  unfold BitcoinData.applyInput at h
  split at h
  · cases h
    rfl
  · simp only [bind_eq_ok, pure_eq_ok, Except.ok.injEq] at h
    obtain ⟨_, -, rfl⟩ := h
    rfl

theorem applyOutput_tweaks {output : TxOutputScan}
    (h : applyOutput block firstUid tx acc output = .ok acc') :
    acc'.storageTxTweaks = acc.storageTxTweaks := by
  unfold BitcoinData.applyOutput at h
  split at h
  · cases h
    rfl
  · simp only [bind_eq_ok] at h
    obtain ⟨slot, -, key, -, h⟩ := h
    split at h
    · rw [pure_eq_ok, Except.ok.injEq] at h
      rw [← h]
      rfl
    · unfold BitcoinData.storeOutput at h
      simp only [bind_eq_ok, pure_eq_ok, Except.ok.injEq] at h
      obtain ⟨_, -, _, -, _, -, rfl⟩ := h
      rfl

theorem finishTx_counts {txCount : UInt16} (h : finishTx txCount tx acc = .ok acc')
    (hacc : CountsPositive acc.storageTxTweaks) : CountsPositive acc'.storageTxTweaks := by
  obtain ⟨-, ⟨-, htweaks⟩ | ⟨hpos, tweak, htweaks⟩⟩ := finishTx_tweaks h
  · rwa [htweaks]
  · rw [htweaks]
    intro entry he
    rcases List.mem_append.mp he with he | he
    · exact hacc entry he
    · rw [List.mem_singleton.mp he]
      exact hpos

theorem applyTx_counts {txCount : UInt16} (h : applyTx block firstUid txCount acc tx = .ok acc')
    (hacc : CountsPositive acc.storageTxTweaks) : CountsPositive acc'.storageTxTweaks := by
  unfold BitcoinData.applyTx at h
  simp only [bind_eq_ok] at h
  obtain ⟨acc₁, h₁, acc₂, h₂, h₃⟩ := h
  have hi₁ : CountsPositive acc₁.storageTxTweaks := by
    refine foldlM_invariant (P := fun a : ApplyAcc => CountsPositive a.storageTxTweaks) ?_ ?_ h₁
    · intro input _ a a' ha hstep
      rwa [applyInput_tweaks hstep]
    · exact hacc
  have hi₂ : CountsPositive acc₂.storageTxTweaks := by
    refine foldlM_invariant (P := fun a : ApplyAcc => CountsPositive a.storageTxTweaks) ?_ hi₁ h₂
    intro output _ a a' ha hstep
    rwa [applyOutput_tweaks hstep]
  exact finishTx_counts h₃ hi₂

section
variable [Externals]

/-- What `apply_block_with_stats` guarantees of its result. -/
structure AppliedSpec (state : P2trIndexerState) (block : BlockScanInput) (state' : P2trIndexerState)
    (applied : AppliedBlock) : Prop where
  height : applied.storageBlock.height = block.height
  blockHash : applied.storageBlock.blockHash = block.blockHash
  previousBlockHash : applied.storageBlock.previousBlockHash = block.previousBlockHash
  firstUid : applied.storageBlock.firstUid = saturatingAdd64 state.nextUid 1
  txCount : applied.storageBlock.txCount.toNat = block.txs.length
  slotBound : block.p2trSlots.length ≤ 2 ^ 16
  skipped : applied.storageBlock.skippedOutputs.map (·.toNat) =
    (skippedSlots block.p2trSlots).map (·.2)
  created : applied.createdUtxos.map (fun c => (c.entry.outpoint, c.entry.uid.toNat)) =
    (keptSlots block.p2trSlots).map fun p =>
      (p.1.outpoint, applied.storageBlock.firstUid.toNat + p.2)
  keys : applied.createdUtxos.map (fun c => some c.entry.p2trXonlyKey) =
    (keptSlots block.p2trSlots).map fun p => p.1.output.p2trXonlyKey
  createdHeight : ∀ c ∈ applied.createdUtxos, c.entry.createdHeight = block.height
  index : applied.createdUtxos.map (·.entry.outputIndex.toNat) =
    List.range applied.createdUtxos.length
  outputs : applied.storageBlock.outputs = applied.createdUtxos.map storedEntry
  spends : applied.storageBlock.spends.map (fun s => (s.spentUid, s.creationHeight.toNat)) =
    applied.spentUtxos.map fun s => (s.uid, s.creationHeight)
  spentHeight : ∀ s ∈ applied.spentUtxos, s.spentHeight = block.height
  inputs : ∀ s ∈ applied.spentUtxos, s.outpoint ∈ block.inputOutpoints
  ledger : ∃ log, Exec state.outpointToSpend log state'.outpointToSpend ∧
    puts log = applied.createdUtxos.map createdPair ∧
    takes log = applied.spentUtxos.map spentPair
  nextUid : advanceNextUid state.nextUid applied.storageBlock.firstUid block.p2trSlots.length =
    .ok state'.nextUid
  tweaks : tweakSum applied.storageBlock.tweaks = applied.storageBlock.outputs.length
  counts : CountsPositive applied.storageBlock.tweaks
  twoLabels : applied.storageBlock.truncatedOutputHashForTwoLabels =
    buildStoredTruncatedOutputHashes applied.storageBlock.rawBlockBytes
      applied.storageBlock.outputs RESPONSE_LABEL_BUDGET_TWO
  hundredLabels : applied.storageBlock.truncatedOutputHashForHundredLabels =
    buildStoredTruncatedOutputHashes applied.storageBlock.rawBlockBytes
      applied.storageBlock.outputs RESPONSE_LABEL_BUDGET_HUNDRED
  response : applied.storageBlock.toResponseInputForLabels none = .ok applied.lightBlock

theorem applyBlockWithStats_spec {self self' : P2trIndexerState} {applied : AppliedBlock}
    (h : self.applyBlockWithStats block = .ok (self', applied)) :
    AppliedSpec self block self' applied := by
  unfold P2trIndexerState.applyBlockWithStats at h
  simp only [bind_eq_ok, tryU16_eq_ok, pure_eq_ok, Except.ok.injEq, Prod.mk.injEq] at h
  obtain ⟨txCount, htx, acc, hfold, nextUid, hnext, lightBlock, hlight, rfl, rfl⟩ := h
  have hi := applyTxs_accInv hfold
  rw [hi.nextUid, hi.slotCount] at hnext
  exact {
    height := rfl
    blockHash := rfl
    previousBlockHash := rfl
    firstUid := rfl
    txCount := htx
    slotBound := hi.slotBound
    skipped := hi.skipped
    created := hi.created
    keys := hi.keys
    createdHeight := hi.createdHeight
    index := hi.index
    outputs := hi.outputs
    spends := hi.spends
    spentHeight := hi.spentHeight
    inputs := hi.inputs
    ledger := hi.ledger
    nextUid := hnext
    tweaks := foldlM_invariant
      (P := fun acc : ApplyAcc => tweakSum acc.storageTxTweaks = acc.storageOutputEntries.length)
      (fun tx _ a a' ha hstep => applyTx_tweakSum hstep ha) rfl hfold
    counts := foldlM_invariant (P := fun acc : ApplyAcc => CountsPositive acc.storageTxTweaks)
      (fun tx _ a a' ha hstep => applyTx_counts hstep ha)
      (fun entry he => (List.not_mem_nil he).elim) hfold
    twoLabels := rfl
    hundredLabels := rfl
    response := hlight }

variable {state state' : P2trIndexerState} {applied : AppliedBlock}

theorem AppliedSpec.lookup_origin (hs : AppliedSpec state block state' applied)
    {outpoint : OutPointKey} {spend : SpendLookup}
    (h : state'.outpointToSpend.lookup outpoint = some spend) :
    state.outpointToSpend.lookup outpoint = some spend ∨
      ∃ created ∈ applied.createdUtxos, createdPair created = (outpoint, spend) := by
  obtain ⟨log, hexec, hputs, -⟩ := hs.ledger
  rcases lookup_of_exec hexec h with h | h
  · exact Or.inl h
  · rw [hputs] at h
    exact Or.inr (List.mem_map.mp h)

theorem AppliedSpec.spent_origin (hs : AppliedSpec state block state' applied)
    {spent : SpentScopedUtxo} (h : spent ∈ applied.spentUtxos) :
    state.outpointToSpend.lookup spent.outpoint = some (spentLookup spent) ∨
      ∃ created ∈ applied.createdUtxos, createdPair created = spentPair spent := by
  obtain ⟨log, hexec, hputs, htakes⟩ := hs.ledger
  have hmem : spentPair spent ∈ takes log := htakes ▸ List.mem_map_of_mem h
  rcases source_of_take hexec hmem with h | h
  · exact Or.inl h
  · rw [hputs] at h
    exact Or.inr (List.mem_map.mp h)

theorem AppliedSpec.created_creationHeight (hs : AppliedSpec state block state' applied)
    {created : CreatedScopedUtxo} (h : created ∈ applied.createdUtxos) :
    (createdPair created).2.creationHeight = block.height :=
  hs.createdHeight created h

theorem applyBlocks_cons_eq_ok {blocks : List BlockScanInput} {applied : List AppliedBlock} :
    state.applyBlocks (block :: blocks) = .ok (state', applied) ↔
      ∃ state₁ first rest, state.applyBlockWithStats block = .ok (state₁, first) ∧
        state₁.applyBlocks blocks = .ok (state', rest) ∧ applied = first :: rest := by
  simp only [P2trIndexerState.applyBlocks, bind_eq_ok, pure_eq_ok, Except.ok.injEq,
    Prod.mk.injEq, Prod.exists]
  constructor
  · rintro ⟨state₁, first, h₁, state₂, rest, h₂, rfl, rfl⟩
    exact ⟨state₁, first, rest, h₁, h₂, rfl⟩
  · rintro ⟨state₁, first, rest, h₁, h₂, rfl⟩
    exact ⟨state₁, first, h₁, state', rest, h₂, rfl, rfl⟩

end

end BitcoinData
