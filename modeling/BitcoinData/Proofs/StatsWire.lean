import BitcoinData.Proofs.RestForms
import BitcoinData.Spec.Stats.Wire

/-! The message of a row: which fields of the schema it fills. The inscription counters and the two
breakdowns by script type are never set. -/

namespace BitcoinData.Stats

open Lib

/-- A row whose values for the fields that are not set are those that an unset field reads as. -/
structure UnsetZero (row : BlockStats) : Prop where
  inscription : row.p2trInscriptionSpends = 0
  numsAndInscription : row.p2trNumsAndInscriptionSpends = 0
  outputs : row.scriptOutputs = .default
  inputs : row.scriptInputs = .default

theorem ofCounts_eq_default {counts : TypeCounts} :
    ScriptCountsMessage.default = .ofCounts counts ↔ counts = .default := by
  refine ⟨?_, ?_⟩
  · intro h
    obtain ⟨⟩ := counts
    simp only [ScriptCountsMessage.default, ScriptCountsMessage.ofCounts, ScriptCountsMessage.mk.injEq] at h
    obtain ⟨rfl, rfl, rfl, rfl, rfl, rfl, rfl, rfl, rfl⟩ := h
    rfl
  · rintro rfl
    rfl

theorem encodeBlockStats_covers_iff [HexCrate] (row : BlockStats) :
    CoversSchema (encodeBlockStats row) row ↔ UnsetZero row := by
  refine ⟨?_, ?_⟩
  · intro h
    exact ⟨h.p2trInscriptionSpends.symm, h.p2trNumsAndInscriptionSpends.symm,
      ofCounts_eq_default.mp h.scriptOutputs, ofCounts_eq_default.mp h.scriptInputs⟩
  · intro h
    have hash : ∀ bytes, HexCrate.decode (asBytes (String.ofList row.utxoHash)) = .ok bytes →
        (encodeBlockStats row).utxoHash = bytes := by
      intro bytes hdecode
      change (HexCrate.decode (asBytes (String.ofList row.utxoHash))).toOption.getD [] = bytes
      rw [toOption_eq_some.mpr hdecode, Option.getD_some]
    exact {
      height := rfl, lastGlobalId := rfl, outputCount := rfl, p2trOutputCount := rfl
      p2trReusedCount := rfl, spends := rfl, p2trSpends := rfl, p2trKeypathSpends := rfl
      p2trScriptpathSpends := rfl, p2trNumsSpends := rfl, p2trSpEligibleSpends := rfl
      nonspTxs := rfl, nonspTxOutputs := rfl, utxoHash := hash, utxoHashWindow := rfl
      p2trInscriptionSpends := h.inscription.symm
      p2trNumsAndInscriptionSpends := h.numsAndInscription.symm
      scriptOutputs := ofCounts_eq_default.mpr h.outputs
      scriptInputs := ofCounts_eq_default.mpr h.inputs
      sortedSpent := ⟨rfl, rfl, rfl, rfl, rfl, rfl⟩
      sortedP2trSpent := ⟨rfl, rfl, rfl, rfl, rfl, rfl⟩ }

/-- The row of a block with one inscription. -/
def inscribedRow : BlockStats :=
  { BlockStats.new 800000 with
    spends := 1
    p2trSpends := 1
    p2trScriptpathSpends := 1
    p2trSpEligibleSpends := 1
    p2trInscriptionSpends := 1
    scriptInputs := { TypeCounts.default with p2tr := 1 } }

section
attribute [local instance] sampleHexCrate

theorem inscription_not_covered : ¬ ∀ row : BlockStats, CoversSchema (encodeBlockStats row) row := by
  intro h
  have hone : (encodeBlockStats inscribedRow).p2trInscriptionSpends = 1 :=
    (h inscribedRow).p2trInscriptionSpends
  cases hone

end

end BitcoinData.Stats
