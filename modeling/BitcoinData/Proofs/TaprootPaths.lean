import Mathlib.Tactic
import BitcoinData.Spec.SpTweak
import BitcoinData.Spec.Stats.Transaction

/-! The two readers of a Taproot witness. The stats scanner strips an annex and then
looks for a control block; the light indexer takes the last item as it is. They part
exactly on witnesses with an annex where one of the two items has the shape of a
control block for the NUMS point and the other has not. -/

namespace BitcoinData

open Stats

/-- A control block whose internal key is the NUMS point. -/
def NumsControlBlock (item : Bytes) : Prop :=
  isTaprootControlBlock item = true ∧ (item.drop 1).take 32 = NUMS_H_XONLY

/-- A script-path spend under the NUMS point, read off a stack without annex. -/
def NumsStack (stack : List Bytes) : Prop :=
  ∃ below control, stack = below ++ [control] ∧ below ≠ [] ∧ NumsControlBlock control

theorem numsStack_append (below : List Bytes) (control : Bytes) :
    NumsStack (below ++ [control]) ↔ below ≠ [] ∧ NumsControlBlock control := by
  constructor
  · rintro ⟨below', control', heq, hne, hnums⟩
    obtain ⟨rfl, hcontrol⟩ := List.append_inj' heq rfl
    rw [List.singleton_inj] at hcontrol
    exact ⟨hne, hcontrol ▸ hnums⟩
  · rintro ⟨hne, hnums⟩
    exact ⟨below, control, rfl, hne, hnums⟩

/-- The stack that the BIP341 rules look at. -/
def stripAnnex (witness : List Bytes) : List Bytes :=
  match witness.getLast? with
  | none => []
  | some last => if isTaprootAnnex last then witness.dropLast else witness

theorem stripAnnex_append (below : List Bytes) (last : Bytes) :
    stripAnnex (below ++ [last]) = if isTaprootAnnex last then below else below ++ [last] := by
  simp [stripAnnex]

theorem extractP2trInputPubkey_eq_none (witness : List Bytes) (xonlyKey : XOnlyKey) :
    extractP2trInputPubkey witness xonlyKey = .ok none ↔ NumsStack witness := by
  rcases List.eq_nil_or_concat witness with rfl | ⟨below, control, rfl⟩
  · simp [extractP2trInputPubkey, taprootScriptPathInternalKey, NumsStack]
  · rw [List.concat_eq_append, numsStack_append, ← List.length_pos_iff]
    have hkey : taprootScriptPathInternalKey (below ++ [control]) =
        if control.length < 33 ∨ (control.length - 33) % 32 ≠ 0 ∨ below.length + 1 < 2 then none
        else some ((control.drop 1).take 32) := by
      simp [taprootScriptPathInternalKey]
    have hshape : isTaprootControlBlock control = true ↔
        33 ≤ control.length ∧ (control.length - 33) % 32 = 0 := by
      simp [isTaprootControlBlock]
    unfold extractP2trInputPubkey NumsControlBlock
    rw [hkey, hshape]
    split_ifs with hnone
    · simp only [Except.ok.injEq, reduceCtorEq, false_iff]
      omega
    · dsimp only
      have hrest : 0 < below.length ∧ 33 ≤ control.length ∧ (control.length - 33) % 32 = 0 := by omega
      split_ifs with hnums
      · exact iff_of_true rfl ⟨hrest.1, hrest.2, hnums⟩
      · simp only [Except.ok.injEq, reduceCtorEq, false_iff]
        exact fun h => hnums h.2.2

theorem classifyStripped_eq_nums (stack rest : List Bytes) :
    (classifyStripped (stack ++ rest) stack.length).path = .scriptNums ↔ NumsStack stack := by
  rcases List.eq_nil_or_concat stack with rfl | ⟨below, control, rfl⟩
  · simp [classifyStripped, NumsStack]
  · rw [List.concat_eq_append, numsStack_append, ← List.length_pos_iff]
    have hlast : witnessItem (below ++ [control] ++ rest) (below.length + 1 - 1) = some control := by
      simp [witnessItem]
    unfold classifyStripped NumsControlBlock
    rw [List.length_append, List.length_singleton, hlast]
    dsimp only
    split_ifs with hlen hshape hnums
    · simp only [false_iff]
      omega
    · simp only [false_iff]
      rw [Bool.not_eq_true'] at hshape
      simp [hshape]
    · rw [Bool.not_eq_true, Bool.not_eq_false'] at hshape
      exact iff_of_true rfl ⟨by omega, hshape, hnums⟩
    · simp only [false_iff]
      exact fun h => hnums h.2.2

theorem classifyP2trSpend_eq_nums (witness : List Bytes) :
    (classifyP2trSpend witness).path = .scriptNums ↔ NumsStack (stripAnnex witness) := by
  rcases List.eq_nil_or_concat witness with rfl | ⟨below, last, rfl⟩
  · simp [classifyP2trSpend, stripAnnex, NumsStack]
  · rw [List.concat_eq_append, stripAnnex_append]
    have hlast : witnessItem (below ++ [last]) (below.length + 1 - 1) = some last := by
      simp [witnessItem]
    unfold classifyP2trSpend
    rw [List.length_append, List.length_singleton, if_neg (by omega), hlast]
    dsimp only
    split_ifs with hannex
    · exact classifyStripped_eq_nums below [last]
    · have h := classifyStripped_eq_nums (below ++ [last]) []
      rwa [List.append_nil, List.length_append, List.length_singleton] at h

/-- The light indexer leaves an input out exactly when the stats scanner counts it as a
script path under the NUMS point. -/
def PathsAgree (witness : List Bytes) : Prop :=
  ∀ xonlyKey, extractP2trInputPubkey witness xonlyKey = .ok none ↔
    (classifyP2trSpend witness).path = .scriptNums

theorem paths_agree_iff (witness : List Bytes) :
    PathsAgree witness ↔ ∀ below annex, witness = below ++ [annex] → isTaprootAnnex annex = true →
      (below ≠ [] ∧ NumsControlBlock annex ↔
        ∃ items control, below = items ++ [control] ∧ items ≠ [] ∧ NumsControlBlock control) := by
  have hagree : PathsAgree witness ↔ (NumsStack witness ↔ NumsStack (stripAnnex witness)) := by
    unfold PathsAgree
    simp only [extractP2trInputPubkey_eq_none, classifyP2trSpend_eq_nums]
    exact ⟨fun h => h (FixedBytes.fill 32 0), fun h _ => h⟩
  rw [hagree]
  constructor
  · rintro h below annex rfl hannex
    rw [numsStack_append, stripAnnex_append, if_pos hannex] at h
    exact h
  · intro h
    rcases List.eq_nil_or_concat witness with rfl | ⟨below, last, rfl⟩
    · rfl
    · rw [List.concat_eq_append] at h ⊢
      rw [stripAnnex_append]
      split_ifs with hannex
      · rw [numsStack_append]
        exact h below last rfl hannex
      · exact Iff.rfl

/-! A script path under the NUMS point with an annex. -/

def annexWitness : List Bytes := [[0xac], 0xc0 :: NUMS_H_XONLY, [0x50, 0x01]]

theorem annexWitness_disagrees : (classifyP2trSpend annexWitness).path = .scriptNums ∧
    extractP2trInputPubkey annexWitness (FixedBytes.fill 32 0) ≠ .ok none ∧
    ¬ PathsAgree annexWitness := by
  have hstats : (classifyP2trSpend annexWitness).path = .scriptNums := by decide +kernel
  have hlight : extractP2trInputPubkey annexWitness (FixedBytes.fill 32 0) ≠ .ok none := by
    decide +kernel
  exact ⟨hstats, hlight, fun h => hlight ((h _).mpr hstats)⟩

end BitcoinData
