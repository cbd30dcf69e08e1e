import BitcoinData.Sanity.RoundTrip

/-! A served block read back by a client is the response that the server built. -/

namespace BitcoinData

open Lib

/-! ## Little-endian integers -/

theorem u16FromLeBytes_toLeBytes (v : UInt16) :
    u16FromLeBytes v.toUInt8 (v >>> 8).toUInt8 = v := by
  apply UInt16.eq_of_toBitVec_eq
  apply BitVec.eq_of_getLsbD_eq
  intro i hi
  simp only [u16FromLeBytes, UInt16.toBitVec_or, UInt16.toBitVec_shiftLeft,
    UInt16.toBitVec_shiftRight, UInt8.toBitVec_toUInt16, UInt16.toBitVec_toUInt8, BitVec.getLsbD_or]
  -- each bit comes from one of the two bytes
  by_cases h : i < 8
  · simp [h, hi]
  · have h₁ : i - 8 < 8 := by omega
    have h₂ : i - 8 < 16 := by omega
    have h₃ : 8 + (i - 8) = i := by omega
    simp [h, hi, h₁, h₂, h₃]

/-! ## Tweaks -/

theorem normalizeTweak_idem (tweak : TxTweak) : normalizeTweak (normalizeTweak tweak) = normalizeTweak tweak := by
  simp [normalizeTweak, txTweakPayloadBytes]

theorem decodeFlatTweaksFrom_encode (tweaks : List TweakEntryInput) :
    decodeFlatTweaksFrom tweaks.length (encodeFlatTweaks tweaks).1 (encodeFlatTweaks tweaks).2 =
      .ok (tweaks.map fun entry => { entry with tweak := normalizeTweak entry.tweak }) := by
  induction tweaks with
  | nil => rfl
  | cons entry tweaks ih =>
    have hcounts : (encodeFlatTweaks (entry :: tweaks)).1 =
        entry.outputCount.toUInt8 :: (entry.outputCount >>> 8).toUInt8 ::
          (encodeFlatTweaks tweaks).1 := rfl
    have htweaks : (encodeFlatTweaks (entry :: tweaks)).2 =
        txTweakPayloadBytes entry.tweak ++ (encodeFlatTweaks tweaks).2 := rfl
    have hlen := txTweakPayloadBytes_length entry.tweak
    rw [hcounts, htweaks, List.length_cons, decodeFlatTweaksFrom, List.take_left' hlen,
      List.drop_left' hlen, txTweakFromPayloadBytes_payload, ok_bind]
    simp only [List.getD_cons_zero, List.getD_cons_succ, List.drop_succ_cons, List.drop_zero]
    rw [ih, ok_bind, u16FromLeBytes_toLeBytes]
    rfl

theorem encodeFlatTweaks_length (tweaks : List TweakEntryInput) :
    (encodeFlatTweaks tweaks).1.length = tweaks.length * 2 ∧
      (encodeFlatTweaks tweaks).2.length = tweaks.length * 32 := by
  induction tweaks with
  | nil => exact ⟨rfl, rfl⟩
  | cons entry tweaks ih =>
    obtain ⟨hcounts, htweaks⟩ := ih
    have hlen := txTweakPayloadBytes_length entry.tweak
    simp only [encodeFlatTweaks, List.flatMap_cons, List.length_append, List.length_cons, u16ToLeBytes,
      List.length_nil, hlen] at hcounts htweaks ⊢
    omega

theorem decodeFlatTweaks_encode {tweaks : List TweakEntryInput} (h : tweaks.length ≤ U16_MAX) :
    decodeFlatTweaks (UInt32.ofNat tweaks.length) (encodeFlatTweaks tweaks).1
      (encodeFlatTweaks tweaks).2 = .ok (tweaks.map fun entry => { entry with tweak := normalizeTweak entry.tweak }) := by
  obtain ⟨hcounts, htweaks⟩ := encodeFlatTweaks_length tweaks
  have hcount : (UInt32.ofNat tweaks.length).toNat = tweaks.length :=
    UInt32.toNat_ofNat_of_lt' (lt_of_le_of_lt h (by decide))
  unfold decodeFlatTweaks
  simp only [hcount]
  rw [ensure_of hcounts, ok_bind, ensure_of htweaks, ok_bind, decodeFlatTweaksFrom_encode]

/-! ## Blocks -/

section
variable [Externals] {input : LightBlockInput}

omit [Externals] in
theorem encodeLightBlock_isOk :
    (∃ message, encodeLightBlock input = .ok message) ↔ LightValid input := by
  constructor
  · rintro ⟨message, h⟩
    simp only [encodeLightBlock, bind_eq_ok] at h
    obtain ⟨_, hvalid, -⟩ := h
    exact validateLightBlockInput_eq_ok.mp hvalid
  · intro h
    have hvalid : validateLightBlockInput input = .ok () := validateLightBlockInput_eq_ok.mpr h
    rw [encodeLightBlock, hvalid, ok_bind]
    exact ⟨_, rfl⟩

theorem LightValid.roundTrip (h : LightValid input) :
    ∃ bytes, lightBlockBytes input = .ok bytes ∧ decodeLightBlock bytes = .ok input.normalised := by
  have hvalid : validateLightBlockInput input = .ok () := validateLightBlockInput_eq_ok.mpr h
  have hnormal : validateLightBlockInput input.normalised = .ok () :=
    validateLightBlockInput_eq_ok.mpr (h.congr (by simp [Function.comp_def]))
  refine ⟨_, by rw [lightBlockBytes, encodeLightBlock, hvalid, ok_bind]; rfl, ?_⟩
  have htweaks := decodeFlatTweaks_encode h.bitmap.tweaks
  simp only [encodeFlatTweaks] at htweaks
  unfold decodeLightBlock
  rw [Externals.readLight_writeLight, ok_bind, ensure_of rfl, ok_bind]
  dsimp only
  rw [htweaks, ok_bind]
  have hcodec : spentIdCodecFromCapnp (spentIdCodecToCapnp input.spentIdCodec) =
      .ok input.spentIdCodec := by
    cases input.spentIdCodec
    rfl
  rw [hcodec, ok_bind, read32_bytes, ok_bind, read32_bytes, ok_bind]
  change (validateLightBlockInput input.normalised >>= fun _ => .ok input.normalised) = _
  rw [hnormal, ok_bind]

end

end BitcoinData
