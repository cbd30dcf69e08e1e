import BitcoinData.Sanity.Filtered
import BitcoinData.Sanity.Sample

/-! Which valid stored blocks can be served. The validator looks at one response, the
unfiltered one for a hundred labels. Where the block has a raw size its hash stream
takes at least nine bits an output, so its byte length gives the number of outputs away
and the tweaks account for all of them; a block without a raw size has no hash bits at
all, and its outputs are not counted. The same condition decides whether the tweak
counts of a valid block match its outputs. -/

namespace BitcoinData

open Lib

/-! ## Counting outputs by bytes -/

theorem nine_le_hundredLabelBits {count : ℕ} {raw : UInt32} (hcount : count ≠ 0) (hraw : raw ≠ 0) :
    9 ≤ (chooseTruncatedOutputHashBits count raw RESPONSE_LABEL_BUDGET_HUNDRED).toNat := by
  have hpos : 0 < raw.toNat := by
    rw [Nat.pos_iff_ne_zero]
    intro h0
    exact hraw (UInt32.toNat_inj.mp h0)
  have hbudget : max RESPONSE_LABEL_BUDGET_HUNDRED.toNat 1 = 100 := rfl
  have hlog : 8 ≤ (4 * raw.toNat * 100 - 1).log2 := by
    rw [Nat.le_log2 (by omega)]
    omega
  have hceil : ceilLog2 (4 * raw.toNat * 100) = (4 * raw.toNat * 100 - 1).log2 + 1 :=
    if_neg (by omega)
  rw [chooseTruncatedOutputHashBits, if_neg (by simp [hcount, hraw]), hbudget, hceil,
    UInt8.toNat_ofNat_of_lt' (by unfold UInt8.size; omega)]
  omega

/-- From eight bits an output on, the byte length gives the number of outputs. -/
theorem count_of_packedLen {a b : ℕ} {bits : UInt8} (hbits : 8 ≤ bits.toNat)
    (h : packedTruncatedOutputHashLen a bits = packedTruncatedOutputHashLen b bits) : a = b := by
  have hne : bits ≠ 0 := by
    rintro rfl
    simp at hbits
  have hlen : ∀ n, packedTruncatedOutputHashLen n bits = (n * bits.toNat + 7) / 8 := by
    intro n
    unfold packedTruncatedOutputHashLen
    split_ifs with h0
    · obtain rfl := h0.resolve_right hne
      omega
    · rfl
  rw [hlen, hlen] at h
  rcases lt_trichotomy a b with hlt | heq | hlt
  · have := Nat.mul_le_mul_right bits.toNat hlt
    rw [Nat.succ_mul] at this
    omega
  · exact heq
  · have := Nat.mul_le_mul_right bits.toNat hlt
    rw [Nat.succ_mul] at this
    omega

theorem StoredValid.tweakSum_eq {block : StoredLightBlockInput} (hv : StoredValid block)
    (h : block.rawBlockBytes ≠ 0 ∨ block.outputs = []) :
    tweakSum block.tweaks = block.outputs.length := by
  obtain ⟨_, hr⟩ := hv.response
  obtain ⟨ids, -, rfl, hvalid⟩ := toResponse_eq_ok.mp hr
  have hlen := hvalid.hashLen
  have hbits := hvalid.hashBits
  change packedTruncatedOutputHashLen (tweakSum block.tweaks) (chooseTruncatedOutputHashBits
    block.outputs.length block.rawBlockBytes RESPONSE_LABEL_BUDGET_HUNDRED) =
      block.truncatedOutputHashForHundredLabels.length at hlen
  change tweakSum block.tweaks = 0 ↔ chooseTruncatedOutputHashBits
    block.outputs.length block.rawBlockBytes RESPONSE_LABEL_BUDGET_HUNDRED = 0 at hbits
  by_cases hout : block.outputs.length = 0
  · rw [hout]
    exact hbits.mpr (chooseBits_eq_zero.mpr (Or.inl hout))
  · have hraw : block.rawBlockBytes ≠ 0 := h.resolve_right fun hnil => hout (by rw [hnil]; rfl)
    have hnine := nine_le_hundredLabelBits hout hraw
    exact count_of_packedLen (by omega) (hlen.trans hv.hundredLabels)

/-! ## The cursor -/

theorem filterTweaks_cursor {block : StoredLightBlockInput} {filter : StoredBlockResponseFilter}
    (rest : List (TweakEntryInput × UInt16)) {acc acc' : FilteredTweaks}
    (h : rest.foldlM (block.filterTweak filter) acc = .ok acc') :
    acc'.outputCursor = acc.outputCursor + tweakSum (rest.map Prod.fst) := by
  induction rest generalizing acc with
  | nil =>
    rw [List.foldlM_nil, pure_eq_ok, Except.ok.injEq] at h
    rw [← h]
    rfl
  | cons entry rest ih =>
    rw [List.foldlM_cons, bind_eq_ok] at h
    obtain ⟨acc₁, hstep, hrest⟩ := h
    have hcursor : acc₁.outputCursor = acc.outputCursor + entry.1.outputCount.toNat := by
      unfold StoredLightBlockInput.filterTweak at hstep
      simp only [bind_eq_ok] at hstep
      obtain ⟨_, -, hstep⟩ := hstep
      split_ifs at hstep
      · rw [pure_eq_ok, Except.ok.injEq] at hstep
        rw [← hstep]
      · simp only [bind_eq_ok, pure_eq_ok, Except.ok.injEq] at hstep
        obtain ⟨bitmap, -, rfl⟩ := hstep
        rfl
    rw [ih hrest, hcursor, tweakSum, tweakSum, List.map_cons, List.map_cons, List.sum_cons]
    omega

/-- A filtered response accounts for every output. -/
theorem tweakSum_of_filtered [Externals] {block : StoredLightBlockInput}
    {filter : StoredBlockResponseFilter} {response : LightBlockInput}
    (hslow : ¬ (!filter.filterReuse && filter.cutthroughStart.isNone) = true)
    (h : block.toFilteredResponseInput filter = .ok response) :
    tweakSum block.tweaks = block.outputs.length := by
  unfold StoredLightBlockInput.toFilteredResponseInput at h
  rw [if_neg hslow, bind_eq_ok] at h
  obtain ⟨indexes, hindexes, h⟩ := h
  rw [bind_eq_ok] at h
  obtain ⟨acc, hfold, h⟩ := h
  rw [bind_eq_ok] at h
  obtain ⟨_, hcursor, -⟩ := h
  rw [ensure_eq_ok] at hcursor
  simp only [deriveStoredTweakTxIndexes, bind_eq_ok, ensure_eq_ok, pure_eq_ok, Except.ok.injEq]
    at hindexes
  obtain ⟨_, -, found, -, _, hlen, rfl⟩ := hindexes
  have hsum := filterTweaks_cursor _ hfold
  rw [List.map_fst_zip (le_of_eq hlen.symm), hcursor] at hsum
  simpa using hsum.symm

/-- Every filter can be served from a valid block. -/
def Servable [Externals] (block : StoredLightBlockInput) : Prop :=
  ∀ filter, ∃ response, block.toFilteredResponseInput filter = .ok response ∧
    validateLightBlockInput response = .ok ()

theorem servable_iff [Externals] (block : StoredLightBlockInput)
    (hvalid : validateStoredLightBlockInput block = .ok ())
    (hmax : ∀ spend ∈ block.spends, spend.spentUid.toNat < U64_MAX) :
    Servable block ↔ block.rawBlockBytes ≠ 0 ∨ block.outputs = [] := by
  have hv := validateStoredLightBlockInput_eq_ok.mp hvalid
  constructor
  · intro h
    by_contra hcond
    push Not at hcond
    obtain ⟨hraw, hout⟩ := hcond
    obtain ⟨response, hresponse, -⟩ := h ⟨none, none, true, none⟩
    have hsum := tweakSum_of_filtered (by decide) hresponse
    have hzero := hv.raw_eq_zero hsum hraw
    exact hout (List.length_eq_zero_iff.mp hzero)
  · intro h filter
    obtain ⟨response, hok, hspec⟩ := toFilteredResponse_spec hv (hv.tweakSum_eq h) hmax filter
    exact ⟨response, hok, validateLightBlockInput_eq_ok.mpr hspec.valid⟩

section
attribute [local instance] sampleExternals

/-- One output that no tweak accounts for, in a block without a raw size. -/
def rawlessBlock : StoredLightBlockInput :=
  { height := 100
    blockHash := FixedBytes.fill 32 1
    previousBlockHash := FixedBytes.fill 32 0
    firstUid := 1
    txCount := 1
    skippedTxsForTweaks := [1]
    tweaks := []
    skippedOutputs := []
    outputs := [⟨FixedBytes.fill 32 2, STORAGE_SPENT_HEIGHT_UNSPENT, 0⟩]
    spends := []
    rawBlockBytes := 0
    truncatedOutputHashForTwoLabels := []
    truncatedOutputHashForHundredLabels := [] }

theorem rawlessBlock_not_servable : validateStoredLightBlockInput rawlessBlock = .ok () ∧
    (∀ spend ∈ rawlessBlock.spends, spend.spentUid.toNat < U64_MAX) ∧ ¬ Servable rawlessBlock := by
  have hfails : (rawlessBlock.toFilteredResponseInput ⟨none, none, true, none⟩).isOk = false := by
    decide +kernel
  refine ⟨by decide +kernel, by decide, fun h => ?_⟩
  obtain ⟨response, hok, -⟩ := h ⟨none, none, true, none⟩
  rw [hok] at hfails
  cases hfails

/-- The same output with its tweak and a raw size of one byte. -/
def oneByteBlock : StoredLightBlockInput :=
  { rawlessBlock with
    skippedTxsForTweaks := [0]
    tweaks := [⟨1, FixedBytes.fill 33 2⟩]
    rawBlockBytes := 1
    truncatedOutputHashForTwoLabels := [0]
    truncatedOutputHashForHundredLabels := [0, 0] }

theorem oneByteBlock_servable :
    validateStoredLightBlockInput oneByteBlock = .ok () ∧ Servable oneByteBlock := by
  have hvalid : validateStoredLightBlockInput oneByteBlock = .ok () := by decide +kernel
  exact ⟨hvalid, (servable_iff oneByteBlock hvalid (by decide)).mpr (Or.inl (by decide))⟩

end

/-! ## Tweak counts -/

/-- What a stored block promises about its tweaks: together they declare the outputs, and there is
one for every transaction whose bit is not set. -/
structure TweaksMatch (block : StoredLightBlockInput) : Prop where
  outputs : (block.tweaks.map fun entry => entry.outputCount.toNat).sum = block.outputs.length
  zeroBits : ((List.range block.txCount.toNat).countP fun p => !txBit block.skippedTxsForTweaks p) =
    block.tweaks.length

theorem StoredValid.zeroBits_eq {block : StoredLightBlockInput} (hv : StoredValid block) :
    ((List.range block.txCount.toNat).countP fun p => !txBit block.skippedTxsForTweaks p) =
      block.tweaks.length := by
  obtain ⟨-, hlen⟩ := bitmapValid_iff.mp hv.bitmap
  rw [← hlen, tweakPositions, List.countP_eq_length_filter]

/-- The bitmap is counted by the validator. The outputs are not, only the bytes of their hashes. -/
theorem tweaks_match_iff (block : StoredLightBlockInput)
    (hvalid : validateStoredLightBlockInput block = .ok ()) :
    TweaksMatch block ↔ block.rawBlockBytes ≠ 0 ∨ block.outputs = [] := by
  have hv := validateStoredLightBlockInput_eq_ok.mp hvalid
  refine ⟨?_, ?_⟩
  · intro h
    by_cases hraw : block.rawBlockBytes = 0
    · exact Or.inr (List.length_eq_zero_iff.mp (hv.raw_eq_zero h.outputs hraw))
    · exact Or.inl hraw
  · intro h
    exact ⟨hv.tweakSum_eq h, hv.zeroBits_eq⟩

theorem oneByteBlock_tweaks_match :
    validateStoredLightBlockInput oneByteBlock = .ok () ∧ TweaksMatch oneByteBlock := by
  have hvalid : validateStoredLightBlockInput oneByteBlock = .ok () := by decide +kernel
  exact ⟨hvalid, (tweaks_match_iff oneByteBlock hvalid).mpr (Or.inl (by decide))⟩

/-- One output, and no tweak that declares it. -/
theorem rawlessBlock_tweaks_differ :
    validateStoredLightBlockInput rawlessBlock = .ok () ∧ ¬ TweaksMatch rawlessBlock := by
  refine ⟨by decide +kernel, fun h => ?_⟩
  have hsum := h.outputs
  cases hsum

end BitcoinData
