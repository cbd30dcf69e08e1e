import BitcoinData.Sanity.SpentTxOuts

/-! The spent-outputs payload: the decoder accepts exactly the documented encoding, and it panics
exactly when a count in the payload does not fit a `Vec`. -/

namespace BitcoinData

/-- Whatever the payload holds is read back, and nothing but an encoding is accepted. -/
theorem spentPayload_exact :
    (∀ block : BlockSpentTxOuts, block.Held → decodeSpentTxoutsPayload block.encoded = .ok block) ∧
    ∀ (bytes : Bytes) (block : BlockSpentTxOuts), decodeSpentTxoutsPayload bytes = .ok block →
      bytes = block.encoded := by
  refine ⟨?_, ?_⟩
  · intro block hheld
    exact decodeSpentTxouts_eq_ok.mpr ⟨hheld, rfl⟩
  · intro bytes block h
    exact (decodeSpentTxouts_eq_ok.mp h).2

/-- Two transactions, of which the second spends an output of 1309258 satoshis. -/
def sampleSpentTxouts : BlockSpentTxOuts := ⟨[[], [⟨1309258, [0x51, 0x20]⟩]]⟩

example : sampleSpentTxouts.encoded = [2, 0, 1, 0x4a, 0xfa, 0x13, 0, 0, 0, 0, 0, 2, 0x51, 0x20] := by
  decide

theorem sampleSpentTxouts_decoded :
    decodeSpentTxoutsPayload sampleSpentTxouts.encoded = .ok sampleSpentTxouts ∧
      ∀ block, decodeSpentTxoutsPayload (sampleSpentTxouts.encoded ++ [0]) = .ok block →
        sampleSpentTxouts.encoded ++ [0] = block.encoded := by
  refine ⟨spentPayload_exact.1 _ ⟨?_, by decide⟩, spentPayload_exact.2 _⟩
  intro inputs hinputs
  refine ⟨fun output ho => ?_, ?_⟩
  · have hheld : ∀ inputs ∈ sampleSpentTxouts.txs, ∀ output ∈ inputs,
        output.valueSat.toNat ≤ I64_MAX ∧ output.scriptPubkey.length ≤ U64_MAX := by decide
    exact ⟨(hheld inputs hinputs output ho).1, (hheld inputs hinputs output ho).2⟩
  · have hcap : ∀ inputs ∈ sampleSpentTxouts.txs, inputs.length * SPENT_TXOUT_SIZE ≤ ISIZE_MAX := by decide
    exact hcap inputs hinputs

/-- The decoder ends with a result or an error, and with no panic, exactly on the payloads whose
counts fit. -/
theorem spentPayload_returns_iff (bytes : Bytes) :
    (decodeSpentTxoutsPayload bytes ≠ .error .capacityOverflow ∧
      decodeSpentTxoutsPayload bytes ≠ .error .sliceOutOfRange) ↔ CountsFit bytes := by
  rw [← noPanic_decodeSpentTxouts]
  exact ⟨fun h => ⟨h.1, h.2⟩, fun h => ⟨h.capacity, h.slice⟩⟩

/-- Nine bytes announce 2^64 - 1 transactions. -/
theorem huge_count_panics : ¬ ∀ bytes : Bytes,
    decodeSpentTxoutsPayload bytes ≠ .error .capacityOverflow ∧
      decodeSpentTxoutsPayload bytes ≠ .error .sliceOutOfRange := by
  intro h
  have hpanic : decodeSpentTxoutsPayload (List.replicate 9 0xff) = .error .capacityOverflow := by
    decide +kernel
  exact (h _).1 hpanic

end BitcoinData
