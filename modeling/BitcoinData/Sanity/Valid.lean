import BitcoinData.Spec.Wire

/-! The two validators as conditions. Both look at counts, lengths and the spent-ID
stream only, so nothing a rewrite of spent heights or a lost tweak parity changes. -/

namespace BitcoinData

open Lib

@[simp] theorem txTweakPayloadBytes_length (tweak : TxTweak) :
    (txTweakPayloadBytes tweak).length = 32 := by
  simp [txTweakPayloadBytes, tweak.length_eq]

section
variable [Externals]

omit [Externals] in
theorem packHashBit_length (digest : FixedBytes 32) (acc : Bytes × ℕ) (bits : List ℕ) :
    (bits.foldl (packHashBit digest) acc).1.length = acc.1.length := by
  induction bits generalizing acc with
  | nil => rfl
  | cons bit bits ih =>
    rw [List.foldl_cons, ih]
    simp only [packHashBit]
    split_ifs
    · exact List.length_modify _ _ _
    · rfl

theorem packTruncatedOutputHashFromKeys_length (keys : List XOnlyKey) (bits : UInt8) :
    (packTruncatedOutputHashFromKeys keys bits).length =
      packedTruncatedOutputHashLen keys.length bits := by
  unfold packTruncatedOutputHashFromKeys
  split_ifs with h0
  · simp [h0, packedTruncatedOutputHashLen]
  · have hkeys : ∀ (ks : List XOnlyKey) (acc : Bytes × ℕ), (ks.foldl (fun acc key =>
        (List.range bits.toNat).foldl (packHashBit (Externals.digest32 key)) acc) acc).1.length =
        acc.1.length := by
      intro ks
      induction ks with
      | nil => exact fun _ => rfl
      | cons key ks ih =>
        intro acc
        rw [List.foldl_cons, ih, packHashBit_length]
    rw [hkeys, List.length_replicate]

end

/-- The skipped bitmap leaves exactly `tweakCount` transactions. -/
structure BitmapValid (txCount : UInt16) (bitmap : Bytes) (tweakCount : ℕ) : Prop where
  padding : validateSkippedTxsForTweaks txCount bitmap = .ok ()
  count : ∃ skipped, skippedTxsForTweaksCount txCount bitmap = .ok skipped ∧
    txCount.toNat = skipped.toNat + tweakCount
  tweaks : tweakCount ≤ MAX_U16_SECTION_COUNT

/-- What `validate_light_block_input` accepts. -/
structure LightValid (input : LightBlockInput) : Prop where
  bitmap : BitmapValid input.txCount input.skippedTxsForTweaks input.tweaks.length
  hashLen : packedTruncatedOutputHashLen (lightBlockOutputCount input)
    input.truncatedOutputHashBits = input.truncatedOutputHashes.length
  hashBits : lightBlockOutputCount input = 0 ↔ input.truncatedOutputHashBits = 0
  spends : ∃ ids, decodeLightBlockSpentIds input = .ok ids ∧ ids.length = input.spentCount.toNat

theorem validateLightBlockInput_eq_ok {input : LightBlockInput} {u : Unit} :
    validateLightBlockInput input = .ok u ↔ LightValid input := by
  unfold validateLightBlockInput ensureU16Len
  by_cases h0 : lightBlockOutputCount input = 0
  · simp only [h0, if_true, bind_eq_ok, ensure_eq_ok, txTweakPayloadBytes_length, implies_true]
    constructor
    · rintro ⟨_, hpad, skipped, hcount, _, htweaks, _, htx, _, hlen, _, hbits, _, -, ids, hids, hspent⟩
      exact ⟨⟨hpad, ⟨skipped, hcount, htx⟩, htweaks⟩, by rw [h0, hlen], by simp [h0, hbits],
        ids, hids, hspent⟩
    · rintro ⟨⟨hpad, ⟨skipped, hcount, htx⟩, htweaks⟩, hlen, hbits, ids, hids, hspent⟩
      rw [h0] at hlen
      exact ⟨(), hpad, skipped, hcount, (), htweaks, (), htx, (), hlen, (), hbits.mp h0, (),
        trivial, ids, hids, hspent⟩
  · simp only [h0, if_false, bind_eq_ok, ensure_eq_ok, txTweakPayloadBytes_length, implies_true]
    have hpos : input.truncatedOutputHashBits > 0 ↔ input.truncatedOutputHashBits ≠ 0 := by
      rw [gt_iff_lt, UInt8.lt_iff_toNat_lt, ← UInt8.toNat_inj.ne]
      exact Nat.pos_iff_ne_zero
    constructor
    · rintro ⟨_, hpad, skipped, hcount, _, htweaks, _, htx, _, hlen, _, hbits, _, -, ids, hids, hspent⟩
      exact ⟨⟨hpad, ⟨skipped, hcount, htx⟩, htweaks⟩, hlen, by simp [h0, hpos.mp hbits],
        ids, hids, hspent⟩
    · rintro ⟨⟨hpad, ⟨skipped, hcount, htx⟩, htweaks⟩, hlen, hbits, ids, hids, hspent⟩
      exact ⟨(), hpad, skipped, hcount, (), htweaks, (), htx, (), hlen, (),
        hpos.mpr fun h => h0 (hbits.mpr h), (), trivial, ids, hids, hspent⟩

/-- What `validate_stored_light_block_input` accepts. -/
structure StoredValid (input : StoredLightBlockInput) : Prop where
  height : input.height ≤ U32_MAX
  bitmap : BitmapValid input.txCount input.skippedTxsForTweaks input.tweaks.length
  skippedLen : input.skippedOutputs.length ≤ MAX_U16_SECTION_COUNT
  outputsLen : input.outputs.length ≤ MAX_U16_SECTION_COUNT
  sorted : input.skippedOutputs.IsChain (· < ·)
  domain : input.outputs.length + input.skippedOutputs.length ≤ U16_MAX + 1
  slots : ∀ slot ∈ input.skippedOutputs,
    slot.toNat < input.outputs.length + input.skippedOutputs.length
  twoLabels : input.truncatedOutputHashForTwoLabels.length =
    packedTruncatedOutputHashLen input.outputs.length (chooseTruncatedOutputHashBits
      input.outputs.length input.rawBlockBytes RESPONSE_LABEL_BUDGET_TWO)
  hundredLabels : input.truncatedOutputHashForHundredLabels.length =
    packedTruncatedOutputHashLen input.outputs.length (chooseTruncatedOutputHashBits
      input.outputs.length input.rawBlockBytes RESPONSE_LABEL_BUDGET_HUNDRED)
  response : ∃ response, input.toResponseInputForLabels none = .ok response
  spends : ∀ spend ∈ input.spends, spend.creationHeight.toNat ≤ input.height

theorem toResponse_valid {self : StoredLightBlockInput} {labels : Option UInt16}
    {response : LightBlockInput} (h : self.toResponseInputForLabels labels = .ok response) :
    LightValid response := by
  unfold StoredLightBlockInput.toResponseInputForLabels at h
  simp only [bind_eq_ok, pure_eq_ok, Except.ok.injEq] at h
  obtain ⟨ids, -, _, hvalid, rfl⟩ := h
  exact validateLightBlockInput_eq_ok.mp hvalid

theorem validateStoredLightBlockInput_eq_ok {input : StoredLightBlockInput} {u : Unit} :
    validateStoredLightBlockInput input = .ok u ↔ StoredValid input := by
  unfold validateStoredLightBlockInput ensureU16Len validateSortedUniqueU16
    validateStoredP2trUidDomain validateStoredTruncatedOutputHashes
    validateStoredTruncatedOutputHash
  simp only [bind_eq_ok, ensure_eq_ok, forM_eq_ok]
  constructor
  · rintro ⟨_, hheight, _, hpad, skipped, hcount, _, htweaks, _, htx, _, hskip, _, hout, _, hsort,
      _, ⟨_, hdom, hslots⟩, _, ⟨_, htwo, hhun⟩, response, hresp, _, -, hspends⟩
    exact ⟨hheight, ⟨hpad, ⟨skipped, hcount, htx⟩, htweaks⟩, hskip, hout, hsort, hdom, hslots,
      htwo, hhun, ⟨response, hresp⟩, hspends⟩
  · rintro ⟨hheight, ⟨hpad, ⟨skipped, hcount, htx⟩, htweaks⟩, hskip, hout, hsort, hdom, hslots,
      htwo, hhun, ⟨response, hresp⟩, hspends⟩
    exact ⟨(), hheight, (), hpad, skipped, hcount, (), htweaks, (), htx, (), hskip, (), hout, (),
      hsort, (), ⟨(), hdom, hslots⟩, (), ⟨(), htwo, hhun⟩, response, hresp, (),
      validateLightBlockInput_eq_ok.mpr (toResponse_valid hresp), hspends⟩

end BitcoinData
