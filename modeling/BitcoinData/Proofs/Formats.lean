import BitcoinData.Sanity.Light

/-! The two formats: what passes its validator can be encoded, what was encoded decodes
to the same block up to tweak parity, and a stored block that was read is written back
as the message it was read from. -/

namespace BitcoinData

open Lib

theorem txTweakFromPayloadBytes_payloadBytes {bytes : Bytes} {tweak : TxTweak}
    (h : txTweakFromPayloadBytes bytes = .ok tweak) : txTweakPayloadBytes tweak = bytes := by
  unfold txTweakFromPayloadBytes at h
  split_ifs at h
  rw [Except.ok.injEq] at h
  rw [← h]
  rfl

theorem read32_eq_ok {bytes : Bytes} {label : String} {value : FixedBytes 32}
    (h : read32 bytes label = .ok value) : value.bytes = bytes := by
  unfold read32 at h
  split_ifs at h
  rw [Except.ok.injEq] at h
  rw [← h]

theorem decodeStoredTweaks_back {entries : List StoredTweakEntryMessage} {i : ℕ}
    {tweaks : List TweakEntryInput} (h : decodeStoredTweaks i entries = .ok tweaks) :
    (tweaks.map fun entry =>
      (⟨entry.outputCount, txTweakPayloadBytes entry.tweak⟩ : StoredTweakEntryMessage)) = entries := by
  induction entries generalizing i tweaks with
  | nil =>
    rw [decodeStoredTweaks, Except.ok.injEq] at h
    rw [← h]
    rfl
  | cons entry entries ih =>
    simp only [decodeStoredTweaks, bind_eq_ok, pure_eq_ok, Except.ok.injEq] at h
    obtain ⟨_, -, tweak, htweak, rest, hrest, rfl⟩ := h
    rw [List.map_cons, ih hrest, txTweakFromPayloadBytes_payloadBytes htweak]

theorem decodeStoredOutputs_back {entries : List StoredOutputEntryMessage} {i : ℕ}
    {outputs : List StoredOutputEntryInput} (h : decodeStoredOutputs i entries = .ok outputs) :
    (outputs.map fun entry =>
      (⟨entry.key.bytes, entry.spentHeight, entry.flags⟩ : StoredOutputEntryMessage)) = entries := by
  induction entries generalizing i outputs with
  | nil =>
    rw [decodeStoredOutputs, Except.ok.injEq] at h
    rw [← h]
    rfl
  | cons entry entries ih =>
    simp only [decodeStoredOutputs, bind_eq_ok, pure_eq_ok, Except.ok.injEq] at h
    obtain ⟨_, -, key, hkey, rest, hrest, rfl⟩ := h
    rw [List.map_cons, ih hrest, read32_eq_ok hkey]

theorem encodeStoredLightBlock_isOk {block : StoredLightBlockInput} :
    (∃ message, encodeStoredLightBlock block = .ok message) ↔
      validateStoredLightBlockInput block = .ok () := by
  constructor
  · rintro ⟨message, h⟩
    simp only [encodeStoredLightBlock, bind_eq_ok] at h
    obtain ⟨_, hvalid, -⟩ := h
    exact hvalid
  · intro hvalid
    have hheight := (validateStoredLightBlockInput_eq_ok.mp hvalid).height
    have hcast : tryU32 block.height = .ok (UInt32.ofNat block.height) := by
      rw [tryU32_eq_ok, UInt32.toNat_ofNat_of_lt' (lt_of_le_of_lt hheight (by decide))]
    rw [encodeStoredLightBlock, hvalid, ok_bind, hcast, ok_bind]
    exact ⟨_, rfl⟩

section
variable [Externals]

theorem encodeStoredLightBlock_of_decode {bytes : Bytes} {block : StoredLightBlockInput}
    {message : StoredLightBlockMessage} (hread : Externals.readStored bytes = .ok message)
    (h : decodeStoredLightBlock bytes = .ok block) :
    encodeStoredLightBlock block = .ok message := by
  simp only [decodeStoredLightBlock, bind_eq_ok, pure_eq_ok, Except.ok.injEq] at h
  obtain ⟨m, hm, _, hversion, tweaks, htweaks, outputs, houtputs, blockHash, hhash,
    previousBlockHash, hprevious, _, hvalid, rfl⟩ := h
  rw [hread, Except.ok.injEq] at hm
  subst hm
  rw [ensure_eq_ok] at hversion
  have hcast : tryU32 message.height.toNat = .ok message.height := tryU32_eq_ok.mpr rfl
  have hspends : (message.spends.map fun entry =>
      (⟨entry.spentUid, entry.creationHeight⟩ : StoredSpendEntryInput)).map (fun entry =>
      (⟨entry.spentUid, entry.creationHeight⟩ : StoredSpendEntryMessage)) = message.spends := by
    rw [List.map_map]
    exact List.map_id' message.spends
  rw [encodeStoredLightBlock, hvalid, ok_bind]
  dsimp only
  rw [hcast, ok_bind, decodeStoredTweaks_back htweaks, decodeStoredOutputs_back houtputs, hspends,
    read32_eq_ok hhash, read32_eq_ok hprevious, ← hversion]
  rfl

theorem formats_round_trip :
    (∀ block : LightBlockInput,
      ((∃ message, encodeLightBlock block = .ok message) ↔
        validateLightBlockInput block = .ok ()) ∧
      ∀ message, encodeLightBlock block = .ok message →
        decodeLightBlock (Externals.writeLight message) = .ok block.normalised) ∧
    (∀ block : StoredLightBlockInput,
      ((∃ message, encodeStoredLightBlock block = .ok message) ↔
        validateStoredLightBlockInput block = .ok ()) ∧
      ∀ message, encodeStoredLightBlock block = .ok message →
        decodeStoredLightBlock (Externals.writeStored message) = .ok block.normalised) ∧
    ∀ bytes message block, Externals.readStored bytes = .ok message →
      decodeStoredLightBlock bytes = .ok block → encodeStoredLightBlock block = .ok message := by
  refine ⟨fun block => ⟨?_, fun message hm => ?_⟩, fun block => ⟨encodeStoredLightBlock_isOk,
    fun message hm => ?_⟩, fun bytes message block => encodeStoredLightBlock_of_decode⟩
  · rw [encodeLightBlock_isOk, validateLightBlockInput_eq_ok]
  · obtain ⟨bytes, hbytes, hdec⟩ := (encodeLightBlock_isOk.mp ⟨message, hm⟩).roundTrip
    rw [lightBlockBytes, hm, ok_bind, pure_eq_ok, Except.ok.injEq] at hbytes
    rwa [hbytes]
  · exact decode_storedBlockBytes (by rw [storedBlockBytes, hm, ok_bind]; rfl)

end

end BitcoinData
