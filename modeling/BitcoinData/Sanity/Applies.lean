import BitcoinData.Sanity.Bitmap
import BitcoinData.Sanity.RoundTrip
import BitcoinData.Sanity.Slots
import BitcoinData.Sanity.SpentIds
import BitcoinData.Spec.Progress

/-! When a block applies. Every check of `apply_block_with_stats`, those of the response it
derives included, passes on a scanned block, as long as the rows of the state carry
distinct UIDs that were handed out before. -/

namespace BitcoinData

open Lib

theorem tryU16_of_le {n : ℕ} (h : n ≤ U16_MAX) : tryU16 n = .ok (UInt16.ofNat n) :=
  tryU16_eq_ok.mpr (UInt16.toNat_ofNat_of_lt' (lt_of_le_of_lt h (by decide)))

theorem tryU32_of_le {n : ℕ} (h : n ≤ U32_MAX) : tryU32 n = .ok (UInt32.ofNat n) :=
  tryU32_eq_ok.mpr (UInt32.toNat_ofNat_of_lt' (lt_of_le_of_lt h (by decide)))

/-- The rows that the blocks below `height` leave. -/
structure RowsBelow (state : P2trIndexerState) (height : ℕ) : Prop where
  uid : ∀ o e, state.outpointToSpend.lookup o = some e → e.uid.toNat ≤ state.nextUid.toNat
  distinct : ∀ o o' e e', state.outpointToSpend.lookup o = some e →
    state.outpointToSpend.lookup o' = some e' → e.uid = e'.uid → o = o'
  height : ∀ o e, state.outpointToSpend.lookup o = some e → e.creationHeight < height

variable {start : SpendMap} {nextUid firstUid : UInt64} {block : BlockScanInput}
  {slots : List P2trSlot} {acc acc' : ApplyAcc} {tx : TxScanInput} {n k : ℕ}

/-! ## The bitmap of skipped transactions -/

/-- After the first `done` of `n` transactions each of them has a tweak or a bit. -/
structure BitmapAcc (n done : ℕ) (acc : ApplyAcc) : Prop where
  ok : BitmapOk n acc.skippedTxsForTweaks
  clear : ∀ p, done ≤ p → txBit acc.skippedTxsForTweaks p = false
  count : skippedCount n acc.skippedTxsForTweaks + acc.storageTxTweaks.length = done

theorem BitmapAcc.congr (h : BitmapAcc n k acc)
    (hbits : acc'.skippedTxsForTweaks = acc.skippedTxsForTweaks)
    (htweaks : acc'.storageTxTweaks = acc.storageTxTweaks) : BitmapAcc n k acc' :=
  ⟨by rw [hbits]; exact h.ok, by rw [hbits]; exact h.clear, by rw [hbits, htweaks]; exact h.count⟩

theorem BitmapAcc.init (self : P2trIndexerState) (txCount : UInt16) :
    BitmapAcc txCount.toNat 0 (ApplyAcc.init self txCount) := by
  have hbit : ∀ p, txBit (emptySkippedTxsForTweaksBitmap txCount) p = false := by
    intro p
    rw [txBit, byteBit, emptySkippedTxsForTweaksBitmap, List.getD_eq_getElem?_getD,
      List.getElem?_replicate]
    split_ifs <;> simp
  refine ⟨⟨?_, fun p _ => hbit p⟩, fun p _ => hbit p, ?_⟩
  · simp [ApplyAcc.init, emptySkippedTxsForTweaksBitmap, skippedTxBitmapLen]
  · have hzero : skippedCount txCount.toNat (emptySkippedTxsForTweaksBitmap txCount) = 0 := by
      rw [skippedCount, List.countP_eq_zero]
      intro p _
      rw [hbit]
      exact Bool.false_ne_true
    simp only [ApplyAcc.init, hzero, List.length_nil]

/-- The end of a transaction at its own position succeeds, and gives it its tweak or its bit. -/
theorem BitmapAcc.finishTx {txCount : UInt16} (hb : BitmapAcc txCount.toNat k acc)
    (hi : TweakAcc tx acc) (htx : tx.txIndex.toNat = k) (hk : k < txCount.toNat) :
    ∃ acc', finishTx txCount tx acc = .ok acc' ∧ BitmapAcc txCount.toNat (k + 1) acc' := by
  obtain ⟨bitmap, hset, hok, hbits⟩ := setSkippedTx_eq hb.ok (htx ▸ hk)
  have hclear : ∀ p, k + 1 ≤ p → txBit bitmap p = false := by
    intro p hp
    rw [hbits, hb.clear p (by omega), htx, Bool.false_or, decide_eq_false (by omega)]
  have hcount := skippedCount_set hk (hb.clear k le_rfl) (by rw [← htx]; exact hbits)
  have hold := hb.count
  unfold BitcoinData.finishTx
  cases hp : acc.txHasP2trOutput
  all_goals
    simp only [if_true, Bool.false_eq_true, if_false]
    by_cases hpos : acc.txIndexedOutputCount > 0
    · rw [if_pos hpos]
      cases htweak : tx.silentPaymentTweak with
      | none =>
        rw [hi.none htweak] at hpos
        exact absurd hpos (by decide)
      | some tweak =>
        refine ⟨_, rfl, hb.ok, fun p hp => hb.clear p (by omega), ?_⟩
        simp only [List.length_append, List.length_singleton]
        omega
    · rw [if_neg hpos, hset, ok_bind]
      refine ⟨_, rfl, hok, hclear, ?_⟩
      simp only
      omega

/-! ## Inputs -/

/-- An input leaves tweaks and bits alone, and resolves at most one spend. -/
theorem applyInput_frame {input : TxInputScan} (h : applyInput block tx acc input = .ok acc') :
    acc'.skippedTxsForTweaks = acc.skippedTxsForTweaks ∧
      acc'.spentUtxos.length ≤ acc.spentUtxos.length + 1 := by
  unfold applyInput at h
  split at h
  · obtain rfl := Except.ok.inj h
    exact ⟨rfl, by omega⟩
  · simp only [bind_eq_ok, pure_eq_ok, Except.ok.injEq] at h
    obtain ⟨_, -, rfl⟩ := h
    exact ⟨rfl, by simp⟩

theorem AccInv.row_height (hi : AccInv start nextUid block firstUid slots acc) {o : OutPointKey}
    {e : SpendLookup} (h : acc.self.outpointToSpend.lookup o = some e) :
    start.lookup o = some e ∨ e.creationHeight = block.height := by
  obtain ⟨log, hexec, hputs, -⟩ := hi.ledger
  rcases lookup_of_exec hexec h with h | h
  · exact Or.inl h
  · rw [hputs] at h
    obtain ⟨created, hc, heq⟩ := List.mem_map.mp h
    obtain rfl : (createdPair created).2 = e := congrArg Prod.snd heq
    exact Or.inr (hi.createdHeight created hc)

theorem AccInv.applyInput_ok (hi : AccInv start nextUid block firstUid slots acc)
    (hstart : ∀ o e, start.lookup o = some e → e.creationHeight ≤ U32_MAX)
    (hheight : block.height ≤ U32_MAX) (input : TxInputScan) :
    ∃ acc', BitcoinData.applyInput block tx acc input = .ok acc' := by
  unfold BitcoinData.applyInput
  cases hl : acc.self.outpointToSpend.lookup input.previousOutput with
  | none => exact ⟨_, rfl⟩
  | some e =>
    have hle : e.creationHeight ≤ U32_MAX := by
      rcases hi.row_height hl with h | h
      · exact hstart _ _ h
      · rwa [h]
    simp only [tryU32_of_le hle, ok_bind]
    exact ⟨_, rfl⟩

/-! ## Outputs -/

theorem applyOutput_frame {output : TxOutputScan}
    (h : applyOutput block firstUid tx acc output = .ok acc') :
    acc'.skippedTxsForTweaks = acc.skippedTxsForTweaks ∧ acc'.spentUtxos = acc.spentUtxos := by
  unfold applyOutput at h
  split at h
  · obtain rfl := Except.ok.inj h
    exact ⟨rfl, rfl⟩
  · simp only [bind_eq_ok] at h
    obtain ⟨slot, -, key, -, h⟩ := h
    split at h
    · obtain rfl := Except.ok.inj h
      exact ⟨rfl, rfl⟩
    · unfold storeOutput at h
      simp only [bind_eq_ok, pure_eq_ok, Except.ok.injEq] at h
      obtain ⟨_, -, _, -, _, -, rfl⟩ := h
      exact ⟨rfl, rfl⟩

theorem storeOutput_ok {output : TxOutputScan} {key : XOnlyKey} {slot : ℕ} {reused : Bool}
    (hcount : acc.txIndexedOutputCount.toNat < U16_MAX)
    (hout : acc.storageOutputEntries.length ≤ U32_MAX) (hslot : slot ≤ U16_MAX)
    (huid : firstUid.toNat + slot ≤ U64_MAX) :
    ∃ acc', storeOutput block firstUid tx output key slot reused acc = .ok acc' := by
  have hcast : (UInt64.ofNat slot).toNat = slot :=
    UInt64.toNat_ofNat_of_lt' (lt_of_le_of_lt hslot (by decide))
  have h₁ : checkedAdd16 acc.txIndexedOutputCount 1 = some (acc.txIndexedOutputCount + 1) := by
    rw [U16_MAX] at hcount
    rw [checkedAdd16_eq_some, UInt16.toNat_add, UInt16.toNat_one]
    omega
  have h₂ : checkedAdd64 firstUid (UInt64.ofNat slot) = some (firstUid + UInt64.ofNat slot) := by
    rw [U64_MAX] at huid
    rw [checkedAdd64_eq_some, UInt64.toNat_add, hcast]
    omega
  unfold storeOutput
  simp only [h₁, h₂, tryU32_of_le hout, okOr_some, ok_bind]
  exact ⟨_, rfl⟩

theorem AccInv.entries_length (hi : AccInv start nextUid block firstUid slots acc) :
    acc.storageOutputEntries.length ≤ slots.length := by
  have hlen := congrArg List.length hi.created
  have := slots_length slots
  simp only [List.length_map] at hlen
  rw [hi.outputs, List.length_map]
  omega

theorem AccInv.applyOutput_ok {output : TxOutputScan}
    (hi : AccInv start nextUid block firstUid slots acc) (ht : TweakAcc tx acc)
    (hkey : output.isP2tr = true → ∃ key, output.p2trXonlyKey = some key)
    (hslots : (slots ++ tx.slotsOf [output]).length ≤ U16_MAX)
    (huid : firstUid.toNat + U16_MAX ≤ U64_MAX) :
    ∃ acc', BitcoinData.applyOutput block firstUid tx acc output = .ok acc' := by
  unfold BitcoinData.applyOutput
  cases hp : output.isP2tr with
  | false => exact ⟨_, rfl⟩
  | true =>
    obtain ⟨key, hkey⟩ := hkey hp
    have hlt : slots.length < U16_MAX := by
      have h1 : (tx.slotsOf [output]).length = 1 := by simp [TxScanInput.slotsOf, hp]
      rw [List.length_append, h1] at hslots
      omega
    have hentries := hi.entries_length
    have hsum := ht.sum
    have hid : p2trOutputIdentity output block.height tx.txIndex = .ok key := by
      simp [p2trOutputIdentity, hkey]
    simp only [Bool.not_true, Bool.false_eq_true, if_false, hi.slotCount, tryU16_of_le hlt.le, hid,
      ok_bind]
    split_ifs
    · exact ⟨_, rfl⟩
    · refine storeOutput_ok ?_ ?_ hlt.le (by omega)
      · change acc.txIndexedOutputCount.toNat < U16_MAX
        omega
      · change acc.storageOutputEntries.length ≤ U32_MAX
        have : U16_MAX ≤ U32_MAX := by decide
        omega

/-! ## Transactions -/

/-- The accumulator after the transactions `done`. -/
structure TxsAcc (start : SpendMap) (nextUid : UInt64) (block : BlockScanInput) (firstUid : UInt64)
    (txCount : UInt16) (done : List TxScanInput) (acc : ApplyAcc) : Prop where
  inv : AccInv start nextUid block firstUid (done.flatMap TxScanInput.p2trSlots) acc
  bitmap : BitmapAcc txCount.toNat done.length acc
  sum : tweakSum acc.storageTxTweaks = acc.storageOutputEntries.length
  spends : acc.spentUtxos.length ≤ (done.flatMap fun tx => tx.inputs).length

/-- What the inputs and the outputs of one transaction keep. -/
structure TxAcc (start : SpendMap) (nextUid : UInt64) (block : BlockScanInput) (firstUid : UInt64)
    (n k spends : ℕ) (tx : TxScanInput) (slots : List P2trSlot) (acc : ApplyAcc) : Prop where
  inv : AccInv start nextUid block firstUid slots acc
  tweaks : TweakAcc tx acc
  bitmap : BitmapAcc n k acc
  spends : acc.spentUtxos.length ≤ spends

theorem TxAcc.inputs_ok {spends : ℕ} {acc : ApplyAcc}
    (hi : TxAcc start nextUid block firstUid n k spends tx slots acc)
    (htx : tx ∈ block.txs) (hheight : block.height ≤ U32_MAX)
    (hstart : ∀ o e, start.lookup o = some e → e.creationHeight ≤ U32_MAX) :
    ∃ acc', tx.inputs.foldlM (applyInput block tx) acc = .ok acc' ∧
      TxAcc start nextUid block firstUid n k (spends + tx.inputs.length) tx slots acc' := by
  refine foldlM_progress (fun pre acc =>
    TxAcc start nextUid block firstUid n k (spends + pre.length) tx slots acc) ?_ hi
  intro pre input post acc hl hacc
  obtain ⟨acc', h⟩ := hacc.inv.applyInput_ok hstart hheight input
  obtain ⟨hbits, hlen⟩ := applyInput_frame h
  have hin : input.previousOutput ∈ block.inputOutpoints :=
    List.mem_flatMap.mpr ⟨tx, htx, List.mem_map_of_mem (by rw [hl]; simp)⟩
  have := hacc.spends
  refine ⟨acc', h, hacc.inv.applyInput hin h, hacc.tweaks.applyInput h,
    hacc.bitmap.congr hbits (applyInput_tweaks h), ?_⟩
  rw [List.length_append, List.length_singleton]
  omega

theorem TxAcc.outputs_ok {spends : ℕ} {acc : ApplyAcc}
    (hi : TxAcc start nextUid block firstUid n k spends tx slots acc)
    (hkeys : ∀ output ∈ tx.outputs, output.isP2tr = true → ∃ key, output.p2trXonlyKey = some key)
    (hslots : (slots ++ tx.p2trSlots).length ≤ U16_MAX)
    (huid : firstUid.toNat + U16_MAX ≤ U64_MAX) :
    ∃ acc', tx.outputs.foldlM (applyOutput block firstUid tx) acc = .ok acc' ∧
      TxAcc start nextUid block firstUid n k spends tx (slots ++ tx.p2trSlots) acc' := by
  refine foldlM_progress (fun pre acc =>
    TxAcc start nextUid block firstUid n k spends tx (slots ++ tx.slotsOf pre) acc) ?_
    (by simpa [TxScanInput.slotsOf] using hi)
  intro pre output post acc hl hacc
  have happ : ∀ xs ys, tx.slotsOf (xs ++ ys) = tx.slotsOf xs ++ tx.slotsOf ys := by
    intro xs ys
    simp [TxScanInput.slotsOf]
  have hle : (slots ++ tx.slotsOf pre ++ tx.slotsOf [output]).length ≤ U16_MAX := by
    refine le_trans ?_ hslots
    rw [TxScanInput.p2trSlots, hl, show output :: post = [output] ++ post from rfl, happ, happ]
    simp only [List.length_append]
    omega
  obtain ⟨acc', h⟩ := hacc.inv.applyOutput_ok hacc.tweaks
    (hkeys output (by rw [hl]; simp)) hle huid
  obtain ⟨hbits, hspent⟩ := applyOutput_frame h
  refine ⟨acc', h, ?_, hacc.tweaks.applyOutput h, hacc.bitmap.congr hbits (applyOutput_tweaks h),
    by rw [hspent]; exact hacc.spends⟩
  rw [happ, ← List.append_assoc]
  exact hacc.inv.applyOutput h

theorem TxsAcc.applyTx {txCount : UInt16} {done : List TxScanInput}
    (hi : TxsAcc start nextUid block firstUid txCount done acc) (htx : tx ∈ block.txs)
    (hpos : tx.txIndex.toNat = done.length) (hlt : done.length < txCount.toNat)
    (hheight : block.height ≤ U32_MAX)
    (hstart : ∀ o e, start.lookup o = some e → e.creationHeight ≤ U32_MAX)
    (hkeys : ∀ output ∈ tx.outputs, output.isP2tr = true → ∃ key, output.p2trXonlyKey = some key)
    (hslots : ((done ++ [tx]).flatMap TxScanInput.p2trSlots).length ≤ U16_MAX)
    (huid : firstUid.toNat + U16_MAX ≤ U64_MAX) :
    ∃ acc', BitcoinData.applyTx block firstUid txCount acc tx = .ok acc' ∧
      TxsAcc start nextUid block firstUid txCount (done ++ [tx]) acc' := by
  have h₀ : TxAcc start nextUid block firstUid txCount.toNat done.length acc.spentUtxos.length tx
      (done.flatMap TxScanInput.p2trSlots)
      { acc with txHasP2trOutput := false, txIndexedOutputCount := 0 } :=
    ⟨{ hi.inv with }, ⟨hi.sum, fun _ => rfl⟩, hi.bitmap.congr rfl rfl, le_rfl⟩
  obtain ⟨acc₁, h₁, hi₁⟩ := h₀.inputs_ok htx hheight hstart
  have hflat : (done ++ [tx]).flatMap TxScanInput.p2trSlots =
      done.flatMap TxScanInput.p2trSlots ++ tx.p2trSlots := by simp
  obtain ⟨acc₂, h₂, hi₂⟩ := hi₁.outputs_ok hkeys (hflat ▸ hslots) huid
  obtain ⟨acc', h₃, hb⟩ := hi₂.bitmap.finishTx hi₂.tweaks hpos hlt
  have h : BitcoinData.applyTx block firstUid txCount acc tx = .ok acc' := by
    unfold BitcoinData.applyTx
    simp only [h₁, h₂, ok_bind, h₃]
  obtain ⟨stats, tweaks, bitmap, hacc', -⟩ := finishTx_frame h₃
  refine ⟨acc', h, ?_, ?_, applyTx_tweakSum h hi.sum, ?_⟩
  · rw [hflat]
    exact hi₂.inv.finishTx h₃
  · rw [List.length_append, List.length_singleton]
    exact hb
  · have hspent : acc'.spentUtxos = acc₂.spentUtxos := by rw [hacc']
    have hle := hi₂.spends
    have hold := hi.spends
    rw [hspent, List.flatMap_append, List.flatMap_singleton, List.length_append]
    omega

theorem applyTxs_ok {self : P2trIndexerState} {txCount : UInt16} (hb : ScannedBlock block)
    (hcount : txCount.toNat = block.txs.length) (hheight : block.height ≤ U32_MAX)
    (hrows : ∀ o e, self.outpointToSpend.lookup o = some e → e.creationHeight ≤ U32_MAX)
    (huid : firstUid.toNat + U16_MAX ≤ U64_MAX) :
    ∃ acc, block.txs.foldlM (applyTx block firstUid txCount) (ApplyAcc.init self txCount) = .ok acc ∧
      TxsAcc self.outpointToSpend self.nextUid block firstUid txCount block.txs acc := by
  refine foldlM_progress
    (TxsAcc self.outpointToSpend self.nextUid block firstUid txCount) ?_
    ⟨AccInv.init self txCount, BitmapAcc.init self txCount, rfl, le_rfl⟩
  intro done tx post acc hl hacc
  have hget : block.txs[done.length]? = some tx := by rw [hl]; simp
  obtain ⟨hlt, -⟩ := List.getElem?_eq_some_iff.mp hget
  have htx := List.mem_of_getElem? hget
  refine hacc.applyTx htx (hb.positions _ _ hget) (hcount ▸ hlt) hheight hrows (hb.keys tx htx) ?_ huid
  refine le_trans ?_ hb.slots
  rw [BlockScanInput.p2trSlots, hl]
  simp only [List.flatMap_append, List.flatMap_cons, List.flatMap_nil, List.append_nil,
    List.length_append]
  omega

/-! ## UIDs of the spends -/

theorem created_uids {created : List CreatedScopedUtxo} {first : ℕ}
    (h : created.map (fun c => (c.entry.outpoint, c.entry.uid.toNat)) =
      (keptSlots slots).map fun p => (p.1.outpoint, first + p.2)) :
    (created.map (·.entry.uid.toNat)).Nodup ∧ ∀ c ∈ created,
      first ≤ c.entry.uid.toNat ∧ c.entry.uid.toNat < first + slots.length := by
  have huids := congrArg (List.map Prod.snd) h
  rw [List.map_map, List.map_map] at huids
  have hnum := keptSlots_numbers slots
  have heq : created.map (·.entry.uid.toNat) =
      ((keptSlots slots).map (·.2)).map (first + ·) := by
    rw [List.map_map]
    exact huids
  constructor
  · rw [heq, hnum]
    exact (List.nodup_range.filter _).map fun a b h => Nat.add_left_cancel h
  · intro c hc
    have hmem : c.entry.uid.toNat ∈ created.map (·.entry.uid.toNat) :=
      List.mem_map.mpr ⟨c, hc, rfl⟩
    rw [heq, hnum] at hmem
    obtain ⟨slot, hslot, hsum⟩ := List.mem_map.mp hmem
    have := List.mem_range.mp (List.mem_filter.mp hslot).1
    omega

theorem AccInv.spent_uids {state : P2trIndexerState} {height : ℕ}
    (hi : AccInv state.outpointToSpend state.nextUid block firstUid slots acc)
    (hs : RowsBelow state height) (hfirst : firstUid.toNat = state.nextUid.toNat + 1) :
    (acc.spentUtxos.map (·.uid)).Nodup ∧
      ∀ s ∈ acc.spentUtxos, s.uid.toNat < firstUid.toNat + slots.length := by
  obtain ⟨log, hexec, hputs, htakes⟩ := hi.ledger
  obtain ⟨hnd, hrange⟩ := created_uids hi.created
  have hputUids : (puts log).map (fun p => p.2.uid.toNat) =
      acc.createdUtxos.map (·.entry.uid.toNat) := by
    rw [hputs, List.map_map]
    rfl
  have hput : ∀ p ∈ puts log, firstUid.toNat ≤ p.2.uid.toNat ∧
      p.2.uid.toNat < firstUid.toNat + slots.length := by
    intro p hp
    rw [hputs] at hp
    obtain ⟨c, hc, rfl⟩ := List.mem_map.mp hp
    exact hrange c hc
  have hputNodup : ((puts log).map fun p => p.2.uid.toNat).Nodup := hputUids ▸ hnd
  have hfresh : ∀ o e, (o, e) ∈ puts log → state.outpointToSpend.lookup o ≠ some e := by
    intro o e hp hl
    have h₁ := hs.uid o e hl
    have h₂ := (hput _ hp).1
    simp only at h₂
    omega
  have htaken := (taken_is_gone hexec hputNodup.of_map hfresh).1
  have hpairs : acc.spentUtxos.map (·.uid) = (takes log).map fun p => p.2.uid := by
    rw [htakes, List.map_map]
    rfl
  have hmem : ∀ s ∈ acc.spentUtxos, spentPair s ∈ takes log := by
    intro s hs
    rw [htakes]
    exact List.mem_map_of_mem hs
  constructor
  · rw [hpairs]
    refine List.Nodup.map_on ?_ htaken
    rintro ⟨o, e⟩ hp ⟨o', e'⟩ hp' (heq : e.uid = e'.uid)
    rcases source_of_take hexec hp with h | h
    · rcases source_of_take hexec hp' with h' | h'
      · obtain rfl := hs.distinct o o' e e' h h' heq
        rw [h, Option.some.injEq] at h'
        rw [h']
      · have h₁ := hs.uid o e h
        have h₂ := (hput _ h').1
        simp only [← heq] at h₂
        omega
    · rcases source_of_take hexec hp' with h' | h'
      · have h₁ := hs.uid o' e' h'
        have h₂ := (hput _ h).1
        simp only [heq] at h₂
        omega
      · exact List.inj_on_of_nodup_map hputNodup h h' (congrArg UInt64.toNat heq)
  · intro s hsp
    rcases source_of_take hexec (hmem s hsp) with h | h
    · have : s.uid.toNat ≤ state.nextUid.toNat := hs.uid _ _ h
      omega
    · exact (hput _ h).2

/-! ## The block -/

theorem advanceNextUid_ok {uid : UInt64} {count : ℕ} (hcount : count ≤ U16_MAX)
    (hroom : firstUid.toNat + count ≤ U64_MAX) :
    ∃ next, advanceNextUid uid firstUid count = .ok next := by
  have hcast : (UInt64.ofNat count).toNat = count :=
    UInt64.toNat_ofNat_of_lt' (lt_of_le_of_lt hcount (by decide))
  rw [U64_MAX] at hroom
  unfold advanceNextUid
  split_ifs with hpos
  · have h₁ : checkedAdd64 firstUid (UInt64.ofNat count) = some (firstUid + UInt64.ofNat count) := by
      rw [checkedAdd64_eq_some, UInt64.toNat_add, hcast]
      omega
    have h₂ : checkedSub64 (firstUid + UInt64.ofNat count) 1 =
        some (firstUid + UInt64.ofNat count - 1) := by
      have hsum : (firstUid + UInt64.ofNat count).toNat = firstUid.toNat + count := by
        rw [UInt64.toNat_add, hcast]
        omega
      rw [checkedSub64_eq_some, UInt64.toNat_sub_of_le, hsum, UInt64.toNat_one]
      · omega
      · rw [UInt64.le_iff_toNat_le, hsum, UInt64.toNat_one]
        omega
    exact ⟨_, by rw [h₁, Option.bind_some, h₂, okOr_some]⟩
  · exact ⟨_, rfl⟩

theorem chooseBits_ne_zero {count : ℕ} {rawBlockBytes : UInt32} {budget : UInt16}
    (hcount : count ≠ 0) (hraw : rawBlockBytes ≠ 0) :
    chooseTruncatedOutputHashBits count rawBlockBytes budget ≠ 0 := by
  unfold chooseTruncatedOutputHashBits
  rw [if_neg (by simp [hcount, hraw])]
  rintro h
  have h' := congrArg UInt8.toNat h
  rw [UInt8.toNat_ofNat_of_lt' (by unfold UInt8.size; omega), UInt8.toNat_zero] at h'
  omega

theorem chooseBits_zero (rawBlockBytes : UInt32) (budget : UInt16) :
    chooseTruncatedOutputHashBits 0 rawBlockBytes budget = 0 := if_pos (Or.inl rfl)

section
variable [Externals]

theorem TxsAcc.response_ok {state : P2trIndexerState} {txCount : UInt16} {height : ℕ}
    (hi : TxsAcc state.outpointToSpend state.nextUid block firstUid txCount block.txs acc)
    (hb : ScannedBlock block) (hs : RowsBelow state height)
    (hcount : txCount.toNat = block.txs.length)
    (hfirst : firstUid.toNat = state.nextUid.toNat + 1)
    (hroom : firstUid.toNat + U16_MAX ≤ U64_MAX) :
    ∃ response, (storageBlockOf block firstUid txCount acc).toResponseInputForLabels none =
      .ok response := by
  obtain ⟨hnd, hlt⟩ := hi.inv.spent_uids hs hfirst
  have hslots : (block.txs.flatMap TxScanInput.p2trSlots).length ≤ U16_MAX := hb.slots
  have hids : acc.storageSpends.map (·.spentUid) = acc.spentUtxos.map (·.uid) := by
    have h := congrArg (List.map Prod.fst) hi.inv.spends
    rw [List.map_map, List.map_map] at h
    exact h
  have hinputs : (block.txs.flatMap fun tx => tx.inputs).length = block.inputOutpoints.length := by
    simp only [BlockScanInput.inputOutpoints, List.length_flatMap, List.length_map]
  have hlen : (acc.spentUtxos.map (·.uid)).length ≤ U32_MAX := by
    have := hi.spends
    have := hb.inputs
    rw [List.length_map]
    omega
  have hmax : acc.spentUtxos.map (·.uid) ≠ [18446744073709551615] := by
    intro h
    have hmem : (18446744073709551615 : UInt64) ∈ acc.spentUtxos.map (·.uid) := by
      rw [h]
      exact List.mem_singleton_self _
    obtain ⟨s, hsp, heq⟩ := List.mem_map.mp hmem
    have hle := hlt s hsp
    rw [heq, U64_MAX] at *
    simp only [UInt64.reduceToNat] at hle
    omega
  obtain ⟨count, bytes, henc, hlenc, hdec⟩ := encodeSpentIds_of_nodup hnd hmax hlen
  refine ⟨_, toResponse_eq_ok.mpr ⟨(count, bytes), ?_, rfl, ?_⟩⟩
  · change encodeSpentIdsEliasDeltaAscendingAbsolute (acc.storageSpends.map (·.spentUid)) = _
    rw [hids, henc]
  · have hsum : lightBlockOutputCount ((storageBlockOf block firstUid txCount acc).responseWith none
        (count, bytes)) = acc.storageOutputEntries.length := hi.sum
    refine ⟨bitmapValid_iff.mpr ⟨hi.bitmap.ok, ?_⟩, ?_, ?_, ?_⟩
    · have h₁ := length_tweakPositions txCount.toNat acc.skippedTxsForTweaks
      have h₂ := hi.bitmap.count
      change (tweakPositions txCount.toNat acc.skippedTxsForTweaks).length = acc.storageTxTweaks.length
      omega
    · rw [hsum]
      change packedTruncatedOutputHashLen acc.storageOutputEntries.length _ =
        (buildStoredTruncatedOutputHashes block.rawBlockBytes acc.storageOutputEntries
          RESPONSE_LABEL_BUDGET_HUNDRED).length
      rw [buildStoredTruncatedOutputHashes, packTruncatedOutputHashFromKeys_length, List.length_map]
      rfl
    · rw [hsum]
      change acc.storageOutputEntries.length = 0 ↔ chooseTruncatedOutputHashBits
        acc.storageOutputEntries.length block.rawBlockBytes RESPONSE_LABEL_BUDGET_HUNDRED = 0
      constructor
      · intro h0
        rw [h0, chooseBits_zero]
      · intro h0
        by_contra hne
        exact chooseBits_ne_zero hne hb.rawBytes h0
    · exact ⟨_, hdec, by rw [List.length_insertionSort]; exact hlenc.symm⟩

theorem applyBlockWithStats_ok {state : P2trIndexerState} (hb : ScannedBlock block)
    (hs : RowsBelow state block.height) (hheight : block.height ≤ U32_MAX)
    (hroom : state.nextUid.toNat + 1 + U16_MAX ≤ U64_MAX) :
    ∃ state' applied, state.applyBlockWithStats block = .ok (state', applied) := by
  have hfirst : (saturatingAdd64 state.nextUid 1).toNat = state.nextUid.toNat + 1 := by
    rw [saturatingAdd64_toNat, UInt64.toNat_one]
    rw [U64_MAX] at hroom
    omega
  have hcount := tryU16_eq_ok.mp (tryU16_of_le hb.txCount)
  obtain ⟨acc, hfold, hacc⟩ := applyTxs_ok hb hcount hheight
    (fun o e ho => le_trans (hs.height o e ho).le hheight) (by rw [hfirst]; exact hroom)
  obtain ⟨next, hnext⟩ : ∃ next, advanceNextUid acc.self.nextUid (saturatingAdd64 state.nextUid 1)
      block.p2trSlots.length = .ok next := advanceNextUid_ok hb.slots
    (by rw [hfirst]; have := hb.slots; omega)
  obtain ⟨response, hresponse⟩ := hacc.response_ok hb hs hcount hfirst (by rw [hfirst]; exact hroom)
  have hslots : acc.stats.p2trOutputCount = block.p2trSlots.length := hacc.inv.slotCount
  unfold P2trIndexerState.applyBlockWithStats
  simp only [tryU16_of_le hb.txCount, ok_bind, hfold, hslots, hnext, hresponse]
  exact ⟨_, _, rfl⟩

theorem RowsBelow.next {state state' : P2trIndexerState} {a : AppliedBlock}
    (hs : RowsBelow state block.height) (ha : AppliedSpec state block state' a)
    (hslots : block.p2trSlots.length ≤ U16_MAX)
    (hroom : state.nextUid.toNat + 1 + U16_MAX < U64_MAX) :
    RowsBelow state' (block.height + 1) ∧
      state'.nextUid.toNat = state.nextUid.toNat + block.p2trSlots.length := by
  have hfirst : a.storageBlock.firstUid.toNat = state.nextUid.toNat + 1 := by
    rw [ha.firstUid, saturatingAdd64_toNat, UInt64.toNat_one]
    rw [U64_MAX] at hroom
    omega
  have huid : state'.nextUid.toNat = state.nextUid.toNat + block.p2trSlots.length := by
    have h := ha.next_firstUid.1
    have hlt := state'.nextUid.toNat_lt
    rw [saturatingAdd64_toNat, UInt64.toNat_one, hfirst] at h
    rw [U64_MAX] at hroom
    omega
  obtain ⟨hnd, hrange⟩ := created_uids ha.created
  refine ⟨⟨fun o e ho => ?_, fun o o' e e' ho ho' heq => ?_, fun o e ho => ?_⟩, huid⟩
  · rcases ha.lookup_origin ho with h | ⟨c, hc, hpair⟩
    · have := hs.uid o e h
      omega
    · obtain rfl : (createdPair c).2 = e := congrArg Prod.snd hpair
      have : (createdPair c).2.uid.toNat < _ := (hrange c hc).2
      omega
  · rcases ha.lookup_origin ho with h | ⟨c, hc, hpair⟩
    · rcases ha.lookup_origin ho' with h' | ⟨c', hc', hpair'⟩
      · exact hs.distinct o o' e e' h h' heq
      · -- an old UID lies below the new ones
        have h₁ := hs.uid o e h
        have h₂ : _ ≤ (createdPair c').2.uid.toNat := (hrange c' hc').1
        rw [hpair', ← heq] at h₂
        omega
    · rcases ha.lookup_origin ho' with h' | ⟨c', hc', hpair'⟩
      · have h₁ := hs.uid o' e' h'
        have h₂ : _ ≤ (createdPair c).2.uid.toNat := (hrange c hc).1
        rw [hpair, heq] at h₂
        omega
      · have hsame : c = c' := by
          refine List.inj_on_of_nodup_map hnd hc hc' ?_
          change (createdPair c).2.uid.toNat = (createdPair c').2.uid.toNat
          rw [hpair, hpair']
          exact congrArg UInt64.toNat heq
        rw [hsame, hpair'] at hpair
        exact (Prod.mk.inj hpair).1.symm
  · rcases ha.lookup_origin ho with h | ⟨c, hc, hpair⟩
    · have := hs.height o e h
      omega
    · obtain rfl : (createdPair c).2 = e := congrArg Prod.snd hpair
      rw [ha.created_creationHeight hc]
      omega

end

end BitcoinData
