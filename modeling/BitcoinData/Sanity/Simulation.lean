import BitcoinData.Sanity.Reference

/-! The result of applying a block depends on the map only at the outpoints the block
spends. Two states that agree there, and in everything but the map, fail together or
succeed with the same block. -/

namespace BitcoinData

open Lib

/-- The same accumulator over another map. -/
def ApplyAcc.withMap (acc : ApplyAcc) (m : SpendMap) (live : ℕ) : ApplyAcc :=
  { acc with self := { acc.self with outpointToSpend := m, liveUidCount := live } }

/-- Equal up to the map, and the maps agree at the outpoints `os`. -/
def AccRel (os : List OutPointKey) (a b : ApplyAcc) : Prop :=
  ∃ m live, b = a.withMap m live ∧ ∀ o ∈ os, a.self.outpointToSpend.lookup o = m.lookup o

variable {os : List OutPointKey} {block : BlockScanInput} {firstUid : UInt64} {tx : TxScanInput}
  {a b : ApplyAcc}

theorem applyInput_agree {input : TxInputScan} (hin : input.previousOutput ∈ os)
    (h : AccRel os a b) : Agree (AccRel os) (applyInput block tx a input) (applyInput block tx b input) := by
  obtain ⟨m, live, rfl, hm⟩ := h
  have hlook : (a.withMap m live).self.outpointToSpend.lookup input.previousOutput =
      a.self.outpointToSpend.lookup input.previousOutput := (hm _ hin).symm
  unfold applyInput
  rw [hlook]
  cases hl : a.self.outpointToSpend.lookup input.previousOutput with
  | none => exact .ok ⟨m, live, rfl, hm⟩
  | some spendRef =>
    refine Agree.bind (Agree.refl (R := Eq) (fun _ => rfl) _) ?_
    rintro creationHeight _ rfl
    refine .ok ⟨m.erase input.previousOutput, live - 1, rfl, fun o ho => ?_⟩
    change (a.self.outpointToSpend.erase _).lookup o = _
    rw [lookup_erase_ite, lookup_erase_ite, hm o ho]

theorem storeOutput_agree {output : TxOutputScan} {key : XOnlyKey} {slot : ℕ} {reused : Bool}
    (h : AccRel os a b) :
    Agree (AccRel os) (storeOutput block firstUid tx output key slot reused a)
      (storeOutput block firstUid tx output key slot reused b) := by
  obtain ⟨m, live, rfl, hm⟩ := h
  unfold storeOutput
  refine Agree.bind (Agree.refl (R := Eq) (fun _ => rfl) _) ?_
  rintro count _ rfl
  refine Agree.bind (Agree.refl (R := Eq) (fun _ => rfl) _) ?_
  rintro uid _ rfl
  refine Agree.bind (Agree.refl (R := Eq) (fun _ => rfl) _) ?_
  rintro outputIndex _ rfl
  refine .ok ⟨m.insert ⟨tx.txid, output.vout⟩ ⟨uid, block.height, outputIndex,
    if reused then STORAGE_OUTPUT_FLAG_REUSED else 0⟩, live + 1, rfl, fun o ho => ?_⟩
  change (a.self.outpointToSpend.insert _ _).lookup o = _
  rw [lookup_insert_ite, lookup_insert_ite, hm o ho]

theorem applyOutput_agree {output : TxOutputScan} (h : AccRel os a b) :
    Agree (AccRel os) (applyOutput block firstUid tx a output)
      (applyOutput block firstUid tx b output) := by
  obtain ⟨m, live, rfl, hm⟩ := h
  unfold applyOutput
  cases hp : output.isP2tr with
  | false => exact .ok ⟨m, live, rfl, hm⟩
  | true =>
    refine Agree.bind (Agree.refl (R := Eq) (fun _ => rfl) _) ?_
    rintro slot _ rfl
    refine Agree.bind (Agree.refl (R := Eq) (fun _ => rfl) _) ?_
    rintro key _ rfl
    -- the slot and the seen keys do not depend on the map
    by_cases hskip : (output.isNums || tx.silentPaymentTweak.isNone) = true
    · simp only [hskip, if_true]
      exact .ok ⟨m, live, rfl, hm⟩
    · simp only [hskip]
      exact storeOutput_agree ⟨m, live, rfl, hm⟩

theorem finishTx_agree {txCount : UInt16} (h : AccRel os a b) :
    Agree (AccRel os) (finishTx txCount tx a) (finishTx txCount tx b) := by
  obtain ⟨m, live, rfl, hm⟩ := h
  unfold finishTx
  cases hp : a.txHasP2trOutput
  all_goals
    simp only [ApplyAcc.withMap, hp, if_true, Bool.false_eq_true, if_false]
    split_ifs
    · cases tx.silentPaymentTweak with
      | none => exact .ok ⟨m, live, rfl, hm⟩
      | some tweak => exact .ok ⟨m, live, rfl, hm⟩
    · refine Agree.bind (Agree.refl (R := Eq) (fun _ => rfl) _) ?_
      rintro bitmap _ rfl
      exact .ok ⟨m, live, rfl, hm⟩

theorem applyTx_agree {txCount : UInt16} (hin : ∀ input ∈ tx.inputs, input.previousOutput ∈ os)
    (h : AccRel os a b) :
    Agree (AccRel os) (applyTx block firstUid txCount a tx) (applyTx block firstUid txCount b tx) := by
  have h₀ : AccRel os { a with txHasP2trOutput := false, txIndexedOutputCount := 0 }
      { b with txHasP2trOutput := false, txIndexedOutputCount := 0 } := by
    obtain ⟨m, live, rfl, hm⟩ := h
    exact ⟨m, live, rfl, hm⟩
  unfold applyTx
  refine Agree.bind (foldlM_agree h₀ fun input hi _ _ hr => applyInput_agree (hin input hi) hr) ?_
  intro a₁ b₁ h₁
  refine Agree.bind (foldlM_agree h₁ fun output _ _ _ hr => applyOutput_agree hr) ?_
  intro a₂ b₂ h₂
  exact finishTx_agree h₂

section
variable [Externals]

/-- Equal up to the map. -/
structure SameBut (s t : P2trIndexerState) : Prop where
  nextUid : s.nextUid = t.nextUid
  seen : s.seenP2trKeys = t.seenP2trKeys

theorem applyBlockWithStats_agree {s t : P2trIndexerState} (hst : SameBut s t)
    (hm : ∀ o ∈ block.inputOutpoints, s.outpointToSpend.lookup o = t.outpointToSpend.lookup o) :
    Agree (fun x y : P2trIndexerState × AppliedBlock => SameBut x.1 y.1 ∧ x.2 = y.2)
      (s.applyBlockWithStats block) (t.applyBlockWithStats block) := by
  unfold P2trIndexerState.applyBlockWithStats
  rw [hst.nextUid]
  refine Agree.bind (Agree.refl (R := Eq) (fun _ => rfl) _) ?_
  rintro txCount _ rfl
  have h₀ : AccRel block.inputOutpoints (ApplyAcc.init s txCount) (ApplyAcc.init t txCount) := by
    refine ⟨t.outpointToSpend, t.liveUidCount, ?_, hm⟩
    obtain ⟨nextUid, m, live, seen⟩ := s
    obtain ⟨nextUid', m', live', seen'⟩ := t
    obtain ⟨hn, hs⟩ := hst
    simp only at hn hs
    subst hn hs
    rfl
  refine Agree.bind (foldlM_agree h₀ fun tx htx _ _ hr => applyTx_agree (fun input hi =>
    List.mem_flatMap.mpr ⟨tx, htx, List.mem_map_of_mem hi⟩) hr) ?_
  rintro acc _ ⟨m, live, rfl, -⟩
  refine Agree.bind (Agree.refl (R := Eq) (fun _ => rfl) _) ?_
  rintro nextUid _ rfl
  refine Agree.bind (Agree.refl (R := Eq) (fun _ => rfl) _) ?_
  rintro lightBlock _ rfl
  exact .ok ⟨⟨rfl, rfl⟩, rfl⟩

end

end BitcoinData
