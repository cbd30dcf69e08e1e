import BitcoinData.Proofs.Servable
import BitcoinData.Sanity.Reading

/-! A filtered response, read the way a client reads it, says what the filter kept of the stored
block: the bitmap, the tweaks, the output counts and the packed hashes stay aligned. -/

namespace BitcoinData

open Lib

section
variable [Externals]

/-- A client reads, for each transaction that keeps outputs under the filter, its stored tweak and
the truncated hashes of those outputs in order, and finds every other transaction skipped. -/
theorem filtered_response_reading (block : StoredLightBlockInput) (filter : StoredBlockResponseFilter)
    (response : LightBlockInput) (hvalid : validateStoredLightBlockInput block = .ok ())
    (hfilter : filter.filterReuse = true ∨ filter.cutthroughStart.isSome = true)
    (h : block.toFilteredResponseInput filter = .ok response) :
    (∃ k < 8, response.clientReading = some
      { txs := block.keptTxs filter response.truncatedOutputHashBits.toNat
        unusedTweaks := []
        padding := List.replicate k false
        spentUids := block.keptSpentUids filter }) ∧
    response.txCount = block.txCount ∧
    ∀ position, response.txCount.toNat ≤ position →
      skippedBit response.skippedTxsForTweaks position = false := by
  have hv := validateStoredLightBlockInput_eq_ok.mp hvalid
  have hslow := not_plain_of_set hfilter
  have hsum := tweakSum_of_filtered hslow h
  obtain ⟨hreading, hcount, -, hbitmap⟩ := toFilteredResponse_reading hv hsum hslow h
  refine ⟨hreading, hcount, ?_⟩
  rw [hcount]
  exact hbitmap.padding

end

section
attribute [local instance] sampleExternals

/-- Three transactions: one with a reused output, one skipped, and one with a reused output and
another. -/
def reusedBlock : StoredLightBlockInput :=
  { rawlessBlock with
    txCount := 3
    skippedTxsForTweaks := [2]
    tweaks := [⟨1, FixedBytes.fill 33 2⟩, ⟨2, FixedBytes.fill 33 3⟩]
    outputs := [⟨FixedBytes.fill 32 4, STORAGE_SPENT_HEIGHT_UNSPENT, 1⟩,
      ⟨FixedBytes.fill 32 5, STORAGE_SPENT_HEIGHT_UNSPENT, 1⟩,
      ⟨FixedBytes.fill 32 6, STORAGE_SPENT_HEIGHT_UNSPENT, 0⟩]
    spends := [⟨9, 90⟩, ⟨7, 80⟩]
    rawBlockBytes := 1
    truncatedOutputHashForTwoLabels := [0, 0]
    truncatedOutputHashForHundredLabels := [0, 0, 0, 0] }

theorem reusedBlock_reading :
    ∃ response k, reusedBlock.toFilteredResponseInput ⟨none, none, true, none⟩ =
      .ok response ∧ response.clientReading = some
        { txs := [none, none, some (FixedBytes.fill 33 3, [hashTop 9 (FixedBytes.fill 32 6)])]
          unusedTweaks := []
          padding := List.replicate k false
          spentUids := [7, 9] } := by
  have hrun : ((reusedBlock.toFilteredResponseInput ⟨none, none, true, none⟩).toOption.any fun r =>
      decide (r.truncatedOutputHashBits = 9)) = true := by decide +kernel
  obtain ⟨response, hr, hbits⟩ := (Option.any_eq_true _ _).mp hrun
  have hr := toOption_eq_some.mp hr
  obtain ⟨⟨k, -, hread⟩, -, -⟩ := filtered_response_reading reusedBlock ⟨none, none, true,
    none⟩ response
    (by decide +kernel) (Or.inl rfl) hr
  refine ⟨response, k, hr, hread.trans ?_⟩
  rw [of_decide_eq_true hbits]
  have htxs : reusedBlock.keptTxs ⟨none, none, true, none⟩ 9 =
      [none, none, some (FixedBytes.fill 33 3, [hashTop 9 (FixedBytes.fill 32 6)])] := by decide +kernel
  have hspent : reusedBlock.keptSpentUids ⟨none, none, true, none⟩ = [7, 9] := by decide +kernel
  rw [hspent]
  exact congrArg _ (congrArg (ClientReading.mk · _ _ _) htxs)

end

end BitcoinData
