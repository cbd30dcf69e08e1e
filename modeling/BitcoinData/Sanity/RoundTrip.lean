import BitcoinData.Sanity.Valid
import BitcoinData.Spec.Archive

/-! A stored block read back is the block that was written, up to tweak parity. -/

namespace BitcoinData

open Lib

/-! ## What validity depends on -/

theorem lightBlockOutputCount_eq (input : LightBlockInput) :
    lightBlockOutputCount input = ((input.tweaks.map (·.outputCount)).map UInt16.toNat).sum := by
  rw [lightBlockOutputCount, List.map_map]
  rfl

theorem LightValid.congr {a : LightBlockInput} {tweaks : List TweakEntryInput} (h : LightValid a)
    (ht : tweaks.map (·.outputCount) = a.tweaks.map (·.outputCount)) :
    LightValid { a with tweaks := tweaks } := by
  have hlen : tweaks.length = a.tweaks.length := by simpa using congrArg List.length ht
  have hcount : lightBlockOutputCount { a with tweaks := tweaks } = lightBlockOutputCount a := by
    rw [lightBlockOutputCount_eq, lightBlockOutputCount_eq, ht]
  exact ⟨by rw [hlen]; exact h.bitmap, by rw [hcount]; exact h.hashLen,
    by rw [hcount]; exact h.hashBits, h.spends⟩

/-- The response derived for a label budget, given the encoded spent IDs. -/
def StoredLightBlockInput.responseWith (self : StoredLightBlockInput) (labels : Option UInt16)
    (ids : UInt32 × Bytes) : LightBlockInput :=
  { height := self.height
    blockHash := self.blockHash
    previousBlockHash := self.previousBlockHash
    firstUid := self.firstUid
    txCount := self.txCount
    skippedTxsForTweaks := self.skippedTxsForTweaks
    tweaks := self.tweaks
    truncatedOutputHashBits := chooseTruncatedOutputHashBits self.outputs.length
      self.rawBlockBytes (responseLabelBudget labels)
    truncatedOutputHashes :=
      if responseLabelBudget labels = RESPONSE_LABEL_BUDGET_TWO then
        self.truncatedOutputHashForTwoLabels
      else self.truncatedOutputHashForHundredLabels
    spentIdCodec := .eliasDeltaAscendingAbsolute
    spentCount := ids.1
    spentIds := ids.2 }

theorem toResponse_eq_ok {self : StoredLightBlockInput} {labels : Option UInt16}
    {response : LightBlockInput} :
    self.toResponseInputForLabels labels = .ok response ↔
      ∃ ids, encodeSpentIdsEliasDeltaAscendingAbsolute (self.spends.map (·.spentUid)) = .ok ids ∧
        response = self.responseWith labels ids ∧ LightValid response := by
  unfold StoredLightBlockInput.toResponseInputForLabels
  simp only [bind_eq_ok, pure_eq_ok, Except.ok.injEq, validateLightBlockInput_eq_ok]
  constructor
  · rintro ⟨ids, hids, _, hvalid, rfl⟩
    exact ⟨ids, hids, rfl, hvalid⟩
  · rintro ⟨ids, hids, rfl, hvalid⟩
    exact ⟨ids, hids, (), hvalid, rfl⟩

theorem StoredValid.congr {a : StoredLightBlockInput} {tweaks : List TweakEntryInput}
    {outputs : List StoredOutputEntryInput} (h : StoredValid a)
    (ht : tweaks.map (·.outputCount) = a.tweaks.map (·.outputCount))
    (ho : outputs.length = a.outputs.length) :
    StoredValid { a with tweaks := tweaks, outputs := outputs } := by
  have hlen : tweaks.length = a.tweaks.length := by simpa using congrArg List.length ht
  have hresponse : ∃ response, StoredLightBlockInput.toResponseInputForLabels
      { a with tweaks := tweaks, outputs := outputs } none = .ok response := by
    obtain ⟨_, hr⟩ := h.response
    obtain ⟨ids, hids, rfl, hvalid⟩ := toResponse_eq_ok.mp hr
    refine ⟨_, toResponse_eq_ok.mpr ⟨ids, hids, rfl, ?_⟩⟩
    have := LightValid.congr hvalid ht
    simpa only [StoredLightBlockInput.responseWith, ho] using this
  exact {
    height := h.height
    bitmap := by rw [hlen]; exact h.bitmap
    skippedLen := h.skippedLen
    outputsLen := by rw [ho]; exact h.outputsLen
    sorted := h.sorted
    domain := by rw [ho]; exact h.domain
    slots := by rw [ho]; exact h.slots
    twoLabels := by rw [ho]; exact h.twoLabels
    hundredLabels := by rw [ho]; exact h.hundredLabels
    response := hresponse
    spends := h.spends }

theorem StoredValid.normalised {a : StoredLightBlockInput} (h : StoredValid a) :
    StoredValid a.normalised :=
  h.congr (by simp [Function.comp_def]) rfl

/-! ## Reading back -/

theorem read32_bytes (key : FixedBytes 32) (label : String) : read32 key.bytes label = .ok key := by
  rw [read32, dif_pos key.length_eq]

theorem txTweakFromPayloadBytes_payload (tweak : TxTweak) :
    txTweakFromPayloadBytes (txTweakPayloadBytes tweak) = .ok (normalizeTweak tweak) := by
  rw [txTweakFromPayloadBytes, dif_pos (txTweakPayloadBytes_length tweak)]
  rfl

theorem decodeStoredTweaks_map (tweaks : List TweakEntryInput) (i : ℕ) :
    decodeStoredTweaks i (tweaks.map fun entry =>
      { outputCount := entry.outputCount, tweak := txTweakPayloadBytes entry.tweak }) =
      .ok (tweaks.map fun entry => { entry with tweak := normalizeTweak entry.tweak }) := by
  induction tweaks generalizing i with
  | nil => rfl
  | cons entry tweaks ih =>
    rw [List.map_cons, decodeStoredTweaks, ensure_of (txTweakPayloadBytes_length _), ok_bind,
      txTweakFromPayloadBytes_payload, ok_bind, ih, ok_bind]
    rfl

theorem decodeStoredOutputs_map (outputs : List StoredOutputEntryInput) (i : ℕ) :
    decodeStoredOutputs i (outputs.map fun entry =>
      { key := entry.key.bytes, spentHeight := entry.spentHeight, flags := entry.flags }) =
      .ok outputs := by
  induction outputs generalizing i with
  | nil => rfl
  | cons entry outputs ih =>
    rw [List.map_cons, decodeStoredOutputs, ensure_of entry.key.length_eq, ok_bind,
      read32_bytes, ok_bind, ih, ok_bind]
    rfl

theorem txTweakFromPayloadBytes_normal {bytes : Bytes} {tweak : TxTweak}
    (h : txTweakFromPayloadBytes bytes = .ok tweak) : normalizeTweak tweak = tweak := by
  unfold txTweakFromPayloadBytes at h
  split_ifs at h
  rw [Except.ok.injEq] at h
  subst h
  rfl

theorem decodeStoredTweaks_normal {entries : List StoredTweakEntryMessage} {i : ℕ}
    {tweaks : List TweakEntryInput} (h : decodeStoredTweaks i entries = .ok tweaks) :
    (tweaks.map fun entry => { entry with tweak := normalizeTweak entry.tweak }) = tweaks := by
  induction entries generalizing i tweaks with
  | nil =>
    rw [decodeStoredTweaks, Except.ok.injEq] at h
    subst h
    rfl
  | cons entry entries ih =>
    simp only [decodeStoredTweaks, bind_eq_ok, pure_eq_ok, Except.ok.injEq] at h
    obtain ⟨_, -, tweak, htweak, rest, hrest, rfl⟩ := h
    rw [List.map_cons, ih hrest, txTweakFromPayloadBytes_normal htweak]

section
variable [Externals] {block : StoredLightBlockInput} {bytes : Bytes}

theorem storedBlockBytes_eq_ok : storedBlockBytes block = .ok bytes ↔
    ∃ message, encodeStoredLightBlock block = .ok message ∧
      bytes = Externals.writeStored message := by
  simp only [storedBlockBytes, bind_eq_ok, pure_eq_ok, Except.ok.injEq]
  exact exists_congr fun message => and_congr_right fun _ => eq_comm

theorem valid_of_storedBlockBytes (h : storedBlockBytes block = .ok bytes) : StoredValid block := by
  obtain ⟨message, hm, -⟩ := storedBlockBytes_eq_ok.mp h
  simp only [encodeStoredLightBlock, bind_eq_ok] at hm
  obtain ⟨_, hvalid, -⟩ := hm
  exact validateStoredLightBlockInput_eq_ok.mp hvalid

theorem decode_storedBlockBytes (h : storedBlockBytes block = .ok bytes) :
    decodeStoredLightBlock bytes = .ok block.normalised := by
  have hvalid := valid_of_storedBlockBytes h
  obtain ⟨message, hm, rfl⟩ := storedBlockBytes_eq_ok.mp h
  simp only [encodeStoredLightBlock, bind_eq_ok, tryU32_eq_ok, pure_eq_ok, Except.ok.injEq] at hm
  obtain ⟨_, -, height, hheight, rfl⟩ := hm
  have hnorm : validateStoredLightBlockInput block.normalised = .ok () :=
    validateStoredLightBlockInput_eq_ok.mpr hvalid.normalised
  have hspends : (block.spends.map fun entry => (⟨entry.spentUid, entry.creationHeight⟩ :
      StoredSpendEntryMessage)).map (fun entry =>
      (⟨entry.spentUid, entry.creationHeight⟩ : StoredSpendEntryInput)) = block.spends := by
    rw [List.map_map]
    exact List.map_id' block.spends
  unfold decodeStoredLightBlock
  rw [Externals.readStored_writeStored, ok_bind, ensure_of rfl, ok_bind, decodeStoredTweaks_map,
    ok_bind, decodeStoredOutputs_map, ok_bind, read32_bytes, ok_bind, read32_bytes, ok_bind]
  simp only [hspends, hheight]
  change (validateStoredLightBlockInput block.normalised >>= fun _ => .ok block.normalised) = _
  rw [hnorm, ok_bind]

theorem decode_fields (h : decodeStoredLightBlock bytes = .ok block) :
    StoredValid block ∧ block.normalised = block := by
  simp only [decodeStoredLightBlock, bind_eq_ok, pure_eq_ok, Except.ok.injEq] at h
  obtain ⟨message, -, _, -, tweaks, htweaks, outputs, -, blockHash, -, previousBlockHash, -, _,
    hvalid, rfl⟩ := h
  refine ⟨validateStoredLightBlockInput_eq_ok.mp hvalid, ?_⟩
  simp only [StoredLightBlockInput.normalised, decodeStoredTweaks_normal htweaks]

end

end BitcoinData
