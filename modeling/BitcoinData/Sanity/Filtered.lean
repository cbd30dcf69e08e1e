import BitcoinData.Sanity.Bitmap
import BitcoinData.Sanity.RoundTrip
import BitcoinData.Sanity.SpentIds
import BitcoinData.Spec.Slots

/-! `to_filtered_response_input`: a valid stored block whose tweaks account for all of
its outputs can be served under every filter, and the response holds exactly the
outputs and the spends that the filter keeps. -/

namespace BitcoinData

open Lib

namespace StoredLightBlockInput

/-- The outputs that a filter keeps. -/
def keptOutputs (self : StoredLightBlockInput) (filter : StoredBlockResponseFilter) :
    List StoredOutputEntryInput :=
  self.outputs.filter fun output => !shouldOmitStoredOutput self.height output filter

/-- The UIDs of the spends that a filter keeps, ascending. -/
def keptSpentUids (self : StoredLightBlockInput) (filter : StoredBlockResponseFilter) :
    List UInt64 :=
  ((self.spends.filter fun spend => !shouldOmitStoredSpend self.height spend filter).map
    (·.spentUid)).insertionSort (· ≤ ·)

end StoredLightBlockInput

/-- What the tweak loop has done when it started with `acc` and went over `rest`. -/
structure TweakLoop (block : StoredLightBlockInput) (filter : StoredBlockResponseFilter)
    (acc : FilteredTweaks) (count : ℕ) (acc' : FilteredTweaks) : Prop where
  cursor : acc'.outputCursor = block.outputs.length
  bitmap : BitmapOk block.txCount.toNat acc'.skippedTxsForTweaks
  skipped : skippedCount block.txCount.toNat acc'.skippedTxsForTweaks + acc'.tweaks.length =
    skippedCount block.txCount.toNat acc.skippedTxsForTweaks + acc.tweaks.length + count
  keys : acc'.outputKeys = acc.outputKeys ++ ((block.outputs.drop acc.outputCursor).filter
    fun output => !shouldOmitStoredOutput block.height output filter).map (·.key)
  sum : tweakSum acc'.tweaks + acc.outputKeys.length = tweakSum acc.tweaks + acc'.outputKeys.length

theorem filterTweak_eq {self : StoredLightBlockInput} {filter : StoredBlockResponseFilter}
    {acc : FilteredTweaks} {tweak : TweakEntryInput} (txIndex : UInt16)
    (hle : acc.outputCursor + tweak.outputCount.toNat ≤ self.outputs.length)
    {kept : List StoredOutputEntryInput}
    (hkept : kept = ((self.outputs.drop acc.outputCursor).take tweak.outputCount.toNat).filter
      fun output => !shouldOmitStoredOutput self.height output filter) :
    self.filterTweak filter acc (tweak, txIndex) =
      if kept.length > 0 then
        .ok { acc with
          outputKeys := acc.outputKeys ++ kept.map (·.key)
          tweaks := acc.tweaks ++ [{ outputCount := UInt16.ofNat kept.length, tweak := tweak.tweak }]
          outputCursor := acc.outputCursor + tweak.outputCount.toNat }
      else do
        let bitmap ← setSkippedTxInBitmap self.txCount acc.skippedTxsForTweaks txIndex
        return { acc with
          skippedTxsForTweaks := bitmap
          outputCursor := acc.outputCursor + tweak.outputCount.toNat } := by
  unfold StoredLightBlockInput.filterTweak
  dsimp only
  rw [ensure_of hle, ok_bind, hkept]
  rfl

theorem filterTweaks_eq_ok {self : StoredLightBlockInput} {filter : StoredBlockResponseFilter}
    (rest : List (TweakEntryInput × UInt16)) :
    ∀ acc : FilteredTweaks, tweakSum (rest.map Prod.fst) + acc.outputCursor = self.outputs.length →
      BitmapOk self.txCount.toNat acc.skippedTxsForTweaks →
      (rest.map fun q => q.2.toNat).Nodup →
      (∀ q ∈ rest, q.2.toNat < self.txCount.toNat ∧
        txBit acc.skippedTxsForTweaks q.2.toNat = false) →
      ∃ acc', rest.foldlM (self.filterTweak filter) acc = .ok acc' ∧
        TweakLoop self filter acc rest.length acc' := by
  induction rest with
  | nil =>
    intro acc hsum hbitmap _ _
    rw [List.map_nil, tweakSum, List.map_nil, List.sum_nil, Nat.zero_add] at hsum
    refine ⟨acc, rfl, hsum, hbitmap, by simp, ?_, rfl⟩
    rw [hsum, List.drop_length]
    simp
  | cons q rest ih =>
    intro acc hsum hbitmap hnd hclear
    obtain ⟨tweak, txIndex⟩ := q
    rw [List.map_cons, tweakSum, List.map_cons, List.sum_cons, ← tweakSum] at hsum
    rw [List.map_cons, List.nodup_cons] at hnd
    obtain ⟨hidx, hbit⟩ := hclear _ List.mem_cons_self
    simp only at hsum hidx hbit hnd
    -- the outputs of this transaction and the ones behind it
    set group := (self.outputs.drop acc.outputCursor).take tweak.outputCount.toNat with hgroup
    have hsplit : self.outputs.drop acc.outputCursor =
        group ++ self.outputs.drop (acc.outputCursor + tweak.outputCount.toNat) := by
      rw [hgroup, ← List.drop_drop, List.take_append_drop]
    set kept := group.filter fun output => !shouldOmitStoredOutput self.height output filter
      with hkept
    have hkeptlen : kept.length ≤ tweak.outputCount.toNat :=
      le_trans (List.length_filter_le _ _) (List.length_take_le _ _)
    have hu16 := tweak.outputCount.toNat_lt
    rw [List.foldlM_cons, filterTweak_eq txIndex (by omega) hkept]
    by_cases hpos : kept.length > 0
    · rw [if_pos hpos, ok_bind]
      obtain ⟨acc', hfold, hloop⟩ := ih { acc with
            outputKeys := acc.outputKeys ++ kept.map (·.key)
            tweaks := acc.tweaks ++ [{ outputCount := UInt16.ofNat kept.length, tweak := tweak.tweak }]
            outputCursor := acc.outputCursor + tweak.outputCount.toNat }
        (by simp only; omega) hbitmap hnd.2 (fun q hq => hclear q (List.mem_cons_of_mem _ hq))
      have hcount : (UInt16.ofNat kept.length).toNat = kept.length :=
        UInt16.toNat_ofNat_of_lt' (by unfold UInt16.size; omega)
      obtain ⟨hcursor, hbm, hskipped, hkeys, htotal⟩ := hloop
      refine ⟨acc', hfold, hcursor, hbm, ?_, ?_, ?_⟩
      · rw [hskipped]
        simp only [List.length_append, List.length_cons, List.length_nil]
        omega
      · rw [hkeys, hsplit, List.filter_append, List.map_append, ← List.append_assoc]
      · simp only [tweakSum, List.map_append, List.sum_append, List.map_cons, List.map_nil,
          List.sum_cons, List.sum_nil, List.length_append, List.length_map, hcount] at htotal ⊢
        omega
    · rw [if_neg hpos]
      have hnil : kept = [] := List.length_eq_zero_iff.mp (by omega)
      obtain ⟨bitmap', hset, hok', hbits⟩ := setSkippedTx_eq hbitmap hidx
      rw [hset, ok_bind, pure_eq_ok, ok_bind]
      obtain ⟨acc', hfold, hloop⟩ := ih { acc with
            skippedTxsForTweaks := bitmap'
            outputCursor := acc.outputCursor + tweak.outputCount.toNat }
        (by simp only; omega) hok' hnd.2 (fun q hq => by
          obtain ⟨hlt, hq0⟩ := hclear q (List.mem_cons_of_mem _ hq)
          refine ⟨hlt, ?_⟩
          have hne : q.2.toNat ≠ txIndex.toNat := fun heq =>
            hnd.1 (heq ▸ List.mem_map_of_mem hq)
          simp only
          rw [hbits, hq0, decide_eq_false hne]
          rfl)
      obtain ⟨hcursor, hbm, hskipped, hkeys, htotal⟩ := hloop
      refine ⟨acc', hfold, hcursor, hbm, ?_, ?_, htotal⟩
      · rw [hskipped]
        simp only [skippedCount_set hidx hbit hbits, List.length_cons]
        omega
      · rw [hkeys, hsplit, List.filter_append, ← hkept, hnil, List.nil_append]

theorem filterTweaks_origin {self : StoredLightBlockInput} {filter : StoredBlockResponseFilter}
    {indexes : List UInt16} {acc acc' : FilteredTweaks}
    (h : (self.tweaks.zip indexes).foldlM (self.filterTweak filter) acc = .ok acc')
    (hacc : ∀ e ∈ acc.tweaks, e.tweak ∈ self.tweaks.map (·.tweak)) :
    ∀ e ∈ acc'.tweaks, e.tweak ∈ self.tweaks.map (·.tweak) := by
  refine foldlM_invariant (P := fun acc : FilteredTweaks =>
    ∀ e ∈ acc.tweaks, e.tweak ∈ self.tweaks.map (·.tweak)) ?_ hacc h
  rintro ⟨tweak, txIndex⟩ hmem a a' ha hstep
  have htweak : tweak.tweak ∈ self.tweaks.map (·.tweak) :=
    List.mem_map_of_mem (List.of_mem_zip hmem).1
  unfold StoredLightBlockInput.filterTweak at hstep
  simp only [bind_eq_ok] at hstep
  obtain ⟨_, -, hstep⟩ := hstep
  split_ifs at hstep
  · rw [pure_eq_ok, Except.ok.injEq] at hstep
    rw [← hstep]
    intro e he
    rcases List.mem_append.mp he with he | he
    · exact ha e he
    · rw [List.mem_singleton.mp he]
      exact htweak
  · simp only [bind_eq_ok, pure_eq_ok, Except.ok.injEq] at hstep
    obtain ⟨bitmap, -, rfl⟩ := hstep
    exact ha

/-! ## The response -/

theorem chooseBits_eq_zero {count : ℕ} {raw : UInt32} {labels : UInt16} :
    chooseTruncatedOutputHashBits count raw labels = 0 ↔ count = 0 ∨ raw = 0 := by
  unfold chooseTruncatedOutputHashBits
  split_ifs with h
  · simp [h]
  · simp only [h, iff_false]
    intro h0
    have := congrArg UInt8.toNat h0
    rw [UInt8.toNat_ofNat_of_lt' (by unfold UInt8.size; omega), UInt8.toNat_zero] at this
    omega

theorem StoredValid.spends_encode {self : StoredLightBlockInput} (hv : StoredValid self) :
    (self.spends.map (·.spentUid)).Nodup ∧ (self.spends.map (·.spentUid)).length ≤ U32_MAX := by
  obtain ⟨_, hr⟩ := hv.response
  obtain ⟨ids, hids, -, -⟩ := toResponse_eq_ok.mp hr
  obtain ⟨hnd, -, hlen⟩ := nodup_of_encodeSpentIds hids
  exact ⟨hnd, hlen⟩

theorem encode_keptSpends {self : StoredLightBlockInput} (hv : StoredValid self)
    (hmax : ∀ spend ∈ self.spends, spend.spentUid.toNat < U64_MAX)
    (filter : StoredBlockResponseFilter) :
    ∃ count bytes, encodeSpentIdsEliasDeltaAscendingAbsolute ((self.spends.filter fun spend =>
        !shouldOmitStoredSpend self.height spend filter).map (·.spentUid)) = .ok (count, bytes) ∧
      count.toNat = (self.keptSpentUids filter).length ∧
      decodeSpentIdsEliasDeltaAscendingAbsolute count bytes = .ok (self.keptSpentUids filter) := by
  obtain ⟨hnd, hlen⟩ := hv.spends_encode
  have hsub : ((self.spends.filter fun spend =>
      !shouldOmitStoredSpend self.height spend filter).map (·.spentUid)).Sublist
      (self.spends.map (·.spentUid)) := List.filter_sublist.map _
  obtain ⟨count, bytes, henc, hcount, hdec⟩ := encodeSpentIds_of_nodup (hsub.nodup hnd)
    (fun h => by
      obtain ⟨spend, hs, hid⟩ := List.mem_map.mp (h ▸ List.mem_singleton_self _)
      have := hmax spend (List.mem_filter.mp hs).1
      rw [hid] at this
      exact absurd this (by decide))
    (le_trans hsub.length_le hlen)
  refine ⟨count, bytes, henc, ?_, hdec⟩
  rw [hcount, StoredLightBlockInput.keptSpentUids, List.length_insertionSort]

theorem shouldOmit_unfiltered {filter : StoredBlockResponseFilter}
    (h : (!filter.filterReuse && filter.cutthroughStart.isNone) = true) (height : ℕ) :
    (∀ output, shouldOmitStoredOutput height output filter = false) ∧
      ∀ spend, shouldOmitStoredSpend height spend filter = false := by
  rw [Bool.and_eq_true, Bool.not_eq_true', Option.isNone_iff_eq_none] at h
  constructor
  · intro output
    simp [shouldOmitStoredOutput, h.1, h.2]
  · intro spend
    simp [shouldOmitStoredSpend, h.2]

theorem not_plain_of_set {filter : StoredBlockResponseFilter}
    (h : filter.filterReuse = true ∨ filter.cutthroughStart.isSome = true) :
    ¬ (!filter.filterReuse && filter.cutthroughStart.isNone) = true := by
  rw [Bool.and_eq_true, Bool.not_eq_true', Option.isNone_iff_eq_none]
  rintro ⟨hreuse, hnone⟩
  rcases h with h | h
  · rw [hreuse] at h
    cases h
  · rw [hnone] at h
    cases h

/-- The response of a block under a filter. -/
structure FilteredResponse [Externals] (block : StoredLightBlockInput)
    (filter : StoredBlockResponseFilter) (response : LightBlockInput) : Prop where
  valid : LightValid response
  blockHash : response.blockHash = block.blockHash
  tweaks : ∀ entry ∈ response.tweaks, entry.tweak ∈ block.tweaks.map (·.tweak)
  outputs : lightBlockOutputCount response = (block.keptOutputs filter).length
  spends : decodeLightBlockSpentIds response = .ok (block.keptSpentUids filter)

section
variable [Externals] {self : StoredLightBlockInput}

omit [Externals] in
theorem StoredValid.raw_eq_zero (hv : StoredValid self)
    (hsum : tweakSum self.tweaks = self.outputs.length) (h0 : self.rawBlockBytes = 0) :
    self.outputs.length = 0 := by
  obtain ⟨_, hr⟩ := hv.response
  obtain ⟨ids, -, rfl, hvalid⟩ := toResponse_eq_ok.mp hr
  have h := hvalid.hashBits.mpr (chooseBits_eq_zero.mpr (Or.inr h0))
  change tweakSum self.tweaks = 0 at h
  omega

omit [Externals] in
theorem responseLabelBudget_cases (labels : Option UInt16) :
    responseLabelBudget labels = RESPONSE_LABEL_BUDGET_TWO ∨
      responseLabelBudget labels = RESPONSE_LABEL_BUDGET_HUNDRED := by
  unfold responseLabelBudget
  split
  · split_ifs
    · exact Or.inl rfl
    · exact Or.inr rfl
  · exact Or.inr rfl

omit [Externals] in
/-- The precomputed response is valid for both label budgets. -/
theorem StoredValid.responseWith_valid (hv : StoredValid self)
    (hsum : tweakSum self.tweaks = self.outputs.length) (labels : Option UInt16)
    {count : UInt32} {bytes : Bytes} {uids : List UInt64}
    (hdec : decodeSpentIdsEliasDeltaAscendingAbsolute count bytes = .ok uids)
    (hcount : count.toNat = uids.length) :
    LightValid (self.responseWith labels (count, bytes)) := by
  refine ⟨hv.bitmap, ?_, ?_, uids, hdec, hcount.symm⟩
  · change packedTruncatedOutputHashLen (tweakSum self.tweaks) _ = _
    rw [hsum]
    simp only [StoredLightBlockInput.responseWith]
    rcases responseLabelBudget_cases labels with hb | hb
    · rw [hb, if_pos rfl, hv.twoLabels]
    · rw [hb, if_neg (by decide), hv.hundredLabels]
  · change tweakSum self.tweaks = 0 ↔ chooseTruncatedOutputHashBits _ _ _ = 0
    rw [chooseBits_eq_zero, hsum]
    exact ⟨Or.inl, fun h => h.elim id (hv.raw_eq_zero hsum)⟩

/-- The fast path. -/
theorem toFilteredResponse_plain (hv : StoredValid self)
    (hsum : tweakSum self.tweaks = self.outputs.length)
    (hmax : ∀ spend ∈ self.spends, spend.spentUid.toNat < U64_MAX)
    {filter : StoredBlockResponseFilter}
    (hplain : (!filter.filterReuse && filter.cutthroughStart.isNone) = true) :
    ∃ response, self.toFilteredResponseInput filter = .ok response ∧
      FilteredResponse self filter response := by
  obtain ⟨count, bytes, henc, hcount, hdec⟩ := encode_keptSpends hv hmax filter
  obtain ⟨hout, hspend⟩ := shouldOmit_unfiltered hplain self.height
  have hkept : self.keptOutputs filter = self.outputs := by
    rw [StoredLightBlockInput.keptOutputs, List.filter_eq_self]
    intro output _
    rw [hout]
    rfl
  have hspends : (self.spends.filter fun spend =>
      !shouldOmitStoredSpend self.height spend filter) = self.spends := by
    rw [List.filter_eq_self]
    intro spend _
    rw [hspend]
    rfl
  rw [hspends] at henc
  have hvalid := hv.responseWith_valid hsum filter.labels hdec hcount
  refine ⟨self.responseWith filter.labels (count, bytes), ?_, hvalid, rfl,
    fun entry he => List.mem_map_of_mem he, ?_, hdec⟩
  · rw [StoredLightBlockInput.toFilteredResponseInput, if_pos hplain]
    exact toResponse_eq_ok.mpr ⟨(count, bytes), henc, rfl, hvalid⟩
  · rw [hkept]
    exact hsum

omit [Externals] in
theorem StoredValid.tweakLoop (hv : StoredValid self)
    (hsum : tweakSum self.tweaks = self.outputs.length) (filter : StoredBlockResponseFilter) :
    ∃ indexes acc, deriveStoredTweakTxIndexes self.txCount self.skippedTxsForTweaks
        self.tweaks.length = .ok indexes ∧
      (self.tweaks.zip indexes).foldlM (self.filterTweak filter)
        ⟨self.skippedTxsForTweaks, [], [], 0⟩ = .ok acc ∧
      TweakLoop self filter ⟨self.skippedTxsForTweaks, [], [], 0⟩ self.tweaks.length acc := by
  obtain ⟨hok, hlen⟩ := bitmapValid_iff.mp hv.bitmap
  have hn := self.txCount.toNat_lt
  have hpos : ∀ p ∈ tweakPositions self.txCount.toNat self.skippedTxsForTweaks,
      (UInt16.ofNat p).toNat = p ∧ p < self.txCount.toNat ∧
        txBit self.skippedTxsForTweaks p = false := by
    intro p hp
    obtain ⟨hr, hb⟩ := List.mem_filter.mp hp
    rw [List.mem_range] at hr
    exact ⟨UInt16.toNat_ofNat_of_lt' (by unfold UInt16.size; omega), hr, by simpa using hb⟩
  set indexes := (tweakPositions self.txCount.toNat self.skippedTxsForTweaks).map UInt16.ofNat
    with hindexes
  have hidx : indexes.map UInt16.toNat =
      tweakPositions self.txCount.toNat self.skippedTxsForTweaks := by
    rw [hindexes, List.map_map]
    conv_rhs => rw [← List.map_id (tweakPositions self.txCount.toNat self.skippedTxsForTweaks)]
    exact List.map_congr_left fun p hp => (hpos p hp).1
  have hzipLen : self.tweaks.length = indexes.length := by rw [hindexes, List.length_map, hlen]
  have hfst : (self.tweaks.zip indexes).map Prod.fst = self.tweaks :=
    List.map_fst_zip (le_of_eq hzipLen)
  have hsnd : (self.tweaks.zip indexes).map (fun q => q.2.toNat) =
      tweakPositions self.txCount.toNat self.skippedTxsForTweaks := by
    have hsnd' : (self.tweaks.zip indexes).map Prod.snd = indexes :=
      List.map_snd_zip (ge_of_eq hzipLen)
    rw [← hidx]
    conv_rhs => rw [← hsnd', List.map_map]
    rfl
  obtain ⟨acc, hfold, hloop⟩ := @filterTweaks_eq_ok self filter (self.tweaks.zip indexes)
    ⟨self.skippedTxsForTweaks, [], [], 0⟩ (by rw [hfst, hsum]; rfl) hok
    (by rw [hsnd]; exact List.nodup_range.filter _)
    (fun q hq => (hpos _ (hsnd ▸ List.mem_map_of_mem hq)).2)
  rw [List.length_zip, ← hzipLen, Nat.min_self] at hloop
  exact ⟨indexes, acc, hv.bitmap.derive, hfold, hloop⟩

/-- The slow path. -/
theorem toFilteredResponse_slow (hv : StoredValid self)
    (hsum : tweakSum self.tweaks = self.outputs.length)
    (hmax : ∀ spend ∈ self.spends, spend.spentUid.toNat < U64_MAX)
    {filter : StoredBlockResponseFilter}
    (hslow : ¬ (!filter.filterReuse && filter.cutthroughStart.isNone) = true) :
    ∃ response, self.toFilteredResponseInput filter = .ok response ∧
      FilteredResponse self filter response := by
  obtain ⟨count, bytes, henc, hcount, hdec⟩ := encode_keptSpends hv hmax filter
  obtain ⟨indexes, acc, hderive, hfold, hloop⟩ := hv.tweakLoop hsum filter
  have hkeys : acc.outputKeys = (self.keptOutputs filter).map (·.key) := hloop.keys
  have hlenKeys : acc.outputKeys.length = (self.keptOutputs filter).length := by
    rw [hkeys, List.length_map]
  have hcounts : tweakSum acc.tweaks = acc.outputKeys.length := by
    have := hloop.sum
    simpa [tweakSum] using this
  have hle : acc.outputKeys.length ≤ self.outputs.length := by
    rw [hlenKeys]
    exact List.length_filter_le _ _
  have hbitmap : BitmapValid self.txCount acc.skippedTxsForTweaks acc.tweaks.length := by
    refine bitmapValid_iff.mpr ⟨hloop.bitmap, ?_⟩
    have hskipped := hloop.skipped
    have hacc := length_tweakPositions self.txCount.toNat acc.skippedTxsForTweaks
    have hself := length_tweakPositions self.txCount.toNat self.skippedTxsForTweaks
    have hlen := (bitmapValid_iff.mp hv.bitmap).2
    simp only [List.length_nil] at hskipped
    omega
  have hbits : tweakSum acc.tweaks = 0 ↔ chooseTruncatedOutputHashBits acc.outputKeys.length
      self.rawBlockBytes (responseLabelBudget filter.labels) = 0 := by
    rw [chooseBits_eq_zero, hcounts]
    refine ⟨Or.inl, fun h => h.elim id fun h0 => ?_⟩
    have := hv.raw_eq_zero hsum h0
    omega
  unfold StoredLightBlockInput.toFilteredResponseInput
  rw [if_neg hslow, hderive, ok_bind, hfold, ok_bind, ensure_of hloop.cursor, ok_bind, henc,
    ok_bind]
  dsimp only
  -- the response passes its own validation
  suffices hlight : LightValid _ from
    ⟨_, bind_eq_ok.mpr ⟨(), validateLightBlockInput_eq_ok.mpr hlight, rfl⟩, hlight, rfl,
      filterTweaks_origin hfold fun e he => (List.not_mem_nil he).elim, hcounts.trans hlenKeys,
      hdec⟩
  refine ⟨hbitmap, ?_, hbits, _, hdec, hcount.symm⟩
  change packedTruncatedOutputHashLen (tweakSum acc.tweaks) _ = _
  rw [packTruncatedOutputHashFromKeys_length, hcounts]

theorem toFilteredResponse_spec (hv : StoredValid self)
    (hsum : tweakSum self.tweaks = self.outputs.length)
    (hmax : ∀ spend ∈ self.spends, spend.spentUid.toNat < U64_MAX)
    (filter : StoredBlockResponseFilter) :
    ∃ response, self.toFilteredResponseInput filter = .ok response ∧
      FilteredResponse self filter response := by
  by_cases hplain : (!filter.filterReuse && filter.cutthroughStart.isNone) = true
  · exact toFilteredResponse_plain hv hsum hmax hplain
  · exact toFilteredResponse_slow hv hsum hmax hplain

/-! ## What a response depends on -/

variable {g : StoredOutputEntryInput → StoredOutputEntryInput} {filter : StoredBlockResponseFilter}

omit [Externals] in
theorem filterTweak_map (hkey : ∀ o, (g o).key = o.key)
    (homit : ∀ o, shouldOmitStoredOutput self.height (g o) filter =
      shouldOmitStoredOutput self.height o filter) :
    StoredLightBlockInput.filterTweak { self with outputs := self.outputs.map g } filter = self.filterTweak filter := by
  funext acc entry
  have hkept : ∀ group : List StoredOutputEntryInput, ((group.map g).filter fun output =>
      !shouldOmitStoredOutput self.height output filter) =
      (group.filter fun output => !shouldOmitStoredOutput self.height output filter).map g := by
    intro group
    rw [List.filter_map]
    congr 2
    funext output
    simp only [Function.comp_apply, homit]
  have hkeys : ∀ group : List StoredOutputEntryInput,
      (group.map g).map (·.key) = group.map (·.key) := by
    intro group
    rw [List.map_map]
    exact List.map_congr_left fun output _ => hkey output
  unfold StoredLightBlockInput.filterTweak
  simp only [List.length_map, ← List.map_drop, ← List.map_take, hkept, hkeys]

/-- Responses depend on the outputs through their keys and through what the filter omits. -/
theorem toFilteredResponse_map (hkey : ∀ o, (g o).key = o.key)
    (homit : ∀ o, shouldOmitStoredOutput self.height (g o) filter =
      shouldOmitStoredOutput self.height o filter) :
    StoredLightBlockInput.toFilteredResponseInput { self with outputs := self.outputs.map g } filter =
      self.toFilteredResponseInput filter := by
  unfold StoredLightBlockInput.toFilteredResponseInput
  simp only [filterTweak_map hkey homit, List.length_map]
  split_ifs
  · unfold StoredLightBlockInput.toResponseInputForLabels
    simp only [List.length_map]
  · rfl

/-- Without cut-through, spent heights do not matter. -/
theorem toFilteredResponse_unmarked (hplain : filter.cutthroughStart = none) :
    self.unmarked.toFilteredResponseInput filter = self.toFilteredResponseInput filter := by
  apply toFilteredResponse_map
  · exact fun _ => rfl
  · intro o
    unfold shouldOmitStoredOutput
    rw [hplain]

omit [Externals] in
theorem shouldOmit_clear {tip height : ℕ} (htip : filter.cutthroughTip = some tip)
    (o : StoredOutputEntryInput) :
    shouldOmitStoredOutput height (if o.spentHeight.toNat ≤ tip then o
      else { o with spentHeight := STORAGE_SPENT_HEIGHT_UNSPENT }) filter =
      shouldOmitStoredOutput height o filter := by
  split_ifs with hle
  · rfl
  · unfold shouldOmitStoredOutput
    rw [htip]
    simp [hle]

/-- With cut-through, those above its tip do not. -/
theorem toFilteredResponse_clearAbove {tip : ℕ} (htip : filter.cutthroughTip = some tip) :
    (self.clearAbove tip).toFilteredResponseInput filter = self.toFilteredResponseInput filter := by
  apply toFilteredResponse_map
  · intro o
    split_ifs <;> rfl
  · intro o
    exact shouldOmit_clear htip o

end

end BitcoinData
