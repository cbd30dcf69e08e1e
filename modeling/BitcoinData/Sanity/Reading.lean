import BitcoinData.Sanity.Precomputed
import BitcoinData.Spec.Scanning

/-! A response read back by a client: the loop over the tweaks keeps the bitmap, the tweaks, the output
counts and the packed hashes aligned. -/

namespace BitcoinData

open Lib

/-! ## The packed hash stream -/

/-- The output buffer of the packing loop holds the bits `l`, and zeros behind them. -/
structure Packed (n : ℕ) (acc : Bytes × ℕ) (l : List Bool) : Prop where
  outBit : acc.2 = l.length
  length : acc.1.length = n
  bits : ∀ p, byteBit acc.1 (p / 8) (7 - p % 8) = l.getD p false

theorem Packed.packHashBit {n : ℕ} {acc : Bytes × ℕ} {l : List Bool} (h : Packed n acc l)
    (hroom : l.length < n * 8) (digest : FixedBytes 32) (bit : ℕ) :
    Packed n (packHashBit digest acc bit) (l ++ [(bytesBits digest.bytes).getD bit false]) := by
  obtain ⟨out, outBit⟩ := acc
  obtain ⟨hout, hlen, hbits⟩ := h
  simp only at hout hlen hbits
  have hsrc : (bytesBits digest.bytes).getD bit false =
      (digest.bytes.getD (bit / 8) 0).toNat.testBit (7 - bit % 8) := bytesBits_getD _ _
  unfold BitcoinData.packHashBit
  simp only [and_one_of_shiftRight8 _ (show 7 - bit % 8 < 8 by omega), ← hsrc]
  cases hb : (bytesBits digest.bytes).getD bit false with
  | false =>
    refine ⟨by simp [hout], by simpa using hlen, fun p => ?_⟩
    rw [getD_concat, Bool.false_and, Bool.or_false]
    exact hbits p
  | true =>
    refine ⟨by simp [hout], by simpa using hlen, fun p => ?_⟩
    rw [if_pos rfl, if_pos (show (1 : UInt8) ≠ 0 by decide), getD_concat,
      byteBit_modify (by omega) (by omega), hbits, hout, Bool.true_and]
    congr 1
    rw [decide_eq_decide]
    omega

theorem Packed.packHash {n : ℕ} {acc : Bytes × ℕ} {l : List Bool} (h : Packed n acc l)
    (digest : FixedBytes 32) {k : ℕ} (hk : k ≤ 256) (hroom : l.length + k ≤ n * 8) :
    Packed n ((List.range k).foldl (BitcoinData.packHashBit digest) acc)
      (l ++ (bytesBits digest.bytes).take k) := by
  induction k with
  | zero => simpa using h
  | succ k ih =>
    have hlen : (bytesBits digest.bytes).length = 256 := by rw [length_bytesBits, digest.length_eq]
    have htake : (bytesBits digest.bytes).take (k + 1) =
        (bytesBits digest.bytes).take k ++ [(bytesBits digest.bytes).getD k false] := by
      rw [List.take_add_one, List.getD_eq_getElem?_getD, List.getElem?_eq_getElem (by omega)]
      rfl
    rw [List.range_succ, List.foldl_append, htake, ← List.append_assoc]
    refine (ih (by omega) (by omega)).packHashBit ?_ digest k
    rw [List.length_append, List.length_take]
    omega

section
variable [Externals]

theorem length_hashTop {width : ℕ} (hw : width ≤ 256) (key : XOnlyKey) :
    (hashTop width key).length = width := by
  rw [hashTop, List.length_take, length_bytesBits, (Externals.digest32 key).length_eq]
  omega

theorem Packed.packKeys {n width : ℕ} (hw : width ≤ 256) (keys : List XOnlyKey) {acc : Bytes × ℕ}
    {l : List Bool} (h : Packed n acc l) (hroom : l.length + keys.length * width ≤ n * 8) :
    Packed n (keys.foldl (fun acc key =>
        (List.range width).foldl (BitcoinData.packHashBit (Externals.digest32 key)) acc) acc)
      (l ++ keys.flatMap (hashTop width)) := by
  induction keys generalizing acc l with
  | nil => simpa using h
  | cons key keys ih =>
    rw [List.length_cons, Nat.succ_mul] at hroom
    have hstep := h.packHash (Externals.digest32 key) hw (by omega)
    rw [List.foldl_cons, List.flatMap_cons, ← List.append_assoc]
    refine ih hstep ?_
    rw [List.length_append, length_hashTop hw]
    omega

/-- The packed stream: the hashes one after another, and less than a byte of zeros. -/
theorem bytesBits_packTruncatedOutputHash (keys : List XOnlyKey) (bits : UInt8) :
    ∃ k < 8, bytesBits (packTruncatedOutputHashFromKeys keys bits) =
      keys.flatMap (hashTop bits.toNat) ++ List.replicate k false := by
  have hw : bits.toNat ≤ 256 := le_of_lt bits.toNat_lt
  unfold packTruncatedOutputHashFromKeys
  split_ifs with h0
  · refine ⟨0, by omega, ?_⟩
    have hnil : ∀ key, hashTop bits.toNat key = [] := fun key => by simp [hashTop, h0]
    simp [hnil, bytesBits]
  · have hpos : bits.toNat ≠ 0 := fun h => h0 (UInt8.toNat_inj.mp h)
    have hlen : packedTruncatedOutputHashLen keys.length bits =
        (keys.length * bits.toNat + 7) / 8 := by
      unfold packedTruncatedOutputHashLen
      split_ifs with h
      · rcases h with h | h
        · simp [h]
        · exact absurd h h0
      · rfl
    set n := packedTruncatedOutputHashLen keys.length bits with hn
    have hstart : Packed n (List.replicate n 0, 0) [] := by
      refine ⟨rfl, List.length_replicate, fun p => ?_⟩
      rw [byteBit, List.getD_eq_getElem?_getD, List.getElem?_replicate]
      split_ifs
      · simp
      · simp
    have hflat : (keys.flatMap (hashTop bits.toNat)).length = keys.length * bits.toNat := by
      rw [List.length_flatMap, List.map_congr_left fun key _ => length_hashTop hw key]
      simp
    have hpacked := hstart.packKeys hw keys (by rw [List.length_nil]; omega)
    rw [List.nil_append] at hpacked
    refine ⟨_, ?_, bytesBits_eq ?_ hpacked.bits⟩
    · rw [hpacked.length, hflat]
      omega
    · rw [hpacked.length, hflat]
      omega

end

theorem takeFields_flatMap {α : Type} {width : ℕ} {f : α → List Bool} (hf : ∀ x, (f x).length = width)
    (xs : List α) (rest : List Bool) :
    takeFields width xs.length (xs.flatMap f ++ rest) = some (xs.map f, rest) := by
  induction xs with
  | nil => rfl
  | cons x xs ih =>
    have hdrop : ((x :: xs).flatMap f ++ rest).drop width = xs.flatMap f ++ rest := by
      rw [List.flatMap_cons, List.append_assoc, List.drop_left' (hf x)]
    have htake : ((x :: xs).flatMap f ++ rest).take width = f x := by
      rw [List.flatMap_cons, List.append_assoc, List.take_left' (hf x)]
    have hroom : ¬ ((x :: xs).flatMap f ++ rest).length < width := by
      rw [List.flatMap_cons, List.length_append, List.length_append, hf]
      omega
    rw [List.length_cons, takeFields, if_neg hroom, hdrop, ih, htake]
    rfl

theorem readTxs_skipped {skipped : ℕ → Bool} {width p : ℕ} {ps : List ℕ}
    {tweaks rest : List TweakEntryInput}
    {stream padding : List Bool} {txs : List (Option (TxTweak × List (List Bool)))}
    (hp : skipped p = true) (h : readTxs skipped width ps tweaks stream = some (txs, rest, padding)) :
    readTxs skipped width (p :: ps) tweaks stream = some (none :: txs, rest, padding) := by
  rw [readTxs.eq_def]
  simp [hp, h]

theorem storedTxs_skipped {Output : Type} {skipped : ℕ → Bool} {p : ℕ} (hp : skipped p = true) (ps : List ℕ)
    (tweaks : List TweakEntryInput) (outputs : List Output) :
    storedTxs skipped (p :: ps) tweaks outputs = none :: storedTxs skipped ps tweaks outputs := by
  rw [storedTxs.eq_def]
  simp [hp]

/-! ## The loop over the tweaks -/

section
variable [Externals] {block : StoredLightBlockInput} {filter : StoredBlockResponseFilter}

/-- What the tweak loop leaves of the transactions at `positions`: a client reads them back out of
the new bitmap, tweaks and keys. -/
structure LoopReading (block : StoredLightBlockInput) (filter : StoredBlockResponseFilter)
    (positions : List ℕ) (tweaks : List TweakEntryInput) (acc acc' : FilteredTweaks) : Prop where
  bitmap : BitmapOk block.txCount.toNat acc'.skippedTxsForTweaks
  others : ∀ p ∉ positions, txBit acc'.skippedTxsForTweaks p = txBit acc.skippedTxsForTweaks p
  reading : ∃ new keys, acc'.tweaks = acc.tweaks ++ new ∧ acc'.outputKeys = acc.outputKeys ++ keys ∧
    ∀ width ≤ 256, ∀ rest, readTxs (txBit acc'.skippedTxsForTweaks) width positions new
        (keys.flatMap (hashTop width) ++ rest) =
      some ((storedTxs (txBit block.skippedTxsForTweaks) positions tweaks
        (block.outputs.drop acc.outputCursor)).map (keptTx (block.keeps filter) (·.key) width), [], rest)

variable {acc acc₁ acc' : FilteredTweaks} {p : ℕ} {ps : List ℕ} {entry : TweakEntryInput}
  {tweaks : List TweakEntryInput}

theorem LoopReading.skip (h : LoopReading block filter ps tweaks acc acc') (hp : p ∉ ps)
    (hbit : txBit block.skippedTxsForTweaks p = true)
    (hacc : txBit acc.skippedTxsForTweaks p = true) :
    LoopReading block filter (p :: ps) tweaks acc acc' := by
  obtain ⟨new, keys, htweaks, hkeys, hread⟩ := h.reading
  refine ⟨h.bitmap, fun q hq => h.others q (List.not_mem_of_not_mem_cons hq), new, keys, htweaks, hkeys,
    fun width hw rest => ?_⟩
  rw [readTxs_skipped ((h.others p hp).trans hacc) (hread width hw rest), storedTxs_skipped hbit]
  rfl

/-- The outputs of the next tweak, and those of them that are kept. -/
def keptGroup (block : StoredLightBlockInput) (filter : StoredBlockResponseFilter)
    (acc : FilteredTweaks) (entry : TweakEntryInput) : List StoredOutputEntryInput :=
  ((block.outputs.drop acc.outputCursor).take entry.outputCount.toNat).filter
    fun output => !shouldOmitStoredOutput block.height output filter

omit [Externals] in
theorem keptGroup_length : (keptGroup block filter acc entry).length < 2 ^ 16 := by
  have hlen : (keptGroup block filter acc entry).length ≤ entry.outputCount.toNat :=
    le_trans (List.length_filter_le _ _) (List.length_take_le _ _)
  exact lt_of_le_of_lt hlen entry.outputCount.toNat_lt

theorem storedTxs_next (hbit : txBit block.skippedTxsForTweaks p = false)
    (hcursor : acc₁.outputCursor = acc.outputCursor + entry.outputCount.toNat) (width : ℕ) :
    (storedTxs (txBit block.skippedTxsForTweaks) (p :: ps) (entry :: tweaks)
        (block.outputs.drop acc.outputCursor)).map (keptTx (block.keeps filter) (·.key) width) =
      (if keptGroup block filter acc entry = [] then none
        else some (entry.tweak,
          (keptGroup block filter acc entry).map fun o => hashTop width o.key)) ::
        (storedTxs (txBit block.skippedTxsForTweaks) ps tweaks
          (block.outputs.drop acc₁.outputCursor)).map (keptTx (block.keeps filter) (·.key) width) := by
  rw [storedTxs, if_neg (by rw [hbit]; decide), List.drop_drop, ← hcursor]
  rfl

theorem LoopReading.keep (h : LoopReading block filter ps tweaks acc₁ acc') (hp : p ∉ ps)
    (hbit : txBit block.skippedTxsForTweaks p = false)
    (hacc : txBit acc.skippedTxsForTweaks p = false)
    (hkept : keptGroup block filter acc entry ≠ [])
    (h₁ : acc₁ = { acc with
      outputKeys := acc.outputKeys ++ (keptGroup block filter acc entry).map (·.key)
      tweaks := acc.tweaks ++ [⟨UInt16.ofNat (keptGroup block filter acc entry).length, entry.tweak⟩]
      outputCursor := acc.outputCursor + entry.outputCount.toNat }) :
    LoopReading block filter (p :: ps) (entry :: tweaks) acc acc' := by
  obtain ⟨new, keys, htweaks, hkeys, hread⟩ := h.reading
  have hsame : acc₁.skippedTxsForTweaks = acc.skippedTxsForTweaks := by rw [h₁]
  refine ⟨h.bitmap, fun q hq => (h.others q (List.not_mem_of_not_mem_cons hq)).trans (by rw [hsame]),
    _, _, htweaks.trans (by rw [h₁, List.append_assoc]), hkeys.trans (by rw [h₁, List.append_assoc]),
    fun width hw rest => ?_⟩
  have hclear : ¬ txBit acc'.skippedTxsForTweaks p = true := by
    rw [h.others p hp, hsame, hacc]
    decide
  have hcount : (UInt16.ofNat (keptGroup block filter acc entry).length).toNat =
      (keptGroup block filter acc entry).length := UInt16.toNat_ofNat_of_lt' keptGroup_length
  have hfields := takeFields_flatMap (fun o : StoredOutputEntryInput => length_hashTop hw o.key)
    (keptGroup block filter acc entry) (keys.flatMap (hashTop width) ++ rest)
  rw [storedTxs_next hbit (show acc₁.outputCursor = _ by rw [h₁]), if_neg hkept,
    List.singleton_append, readTxs, if_neg hclear,
    hcount, List.flatMap_append, List.flatMap_map, List.append_assoc, hfields]
  simp only [Option.bind_eq_bind, Option.bind_some, hread width hw rest]
  rfl

theorem LoopReading.drop (h : LoopReading block filter ps tweaks acc₁ acc') (hp : p ∉ ps)
    (hbit : txBit block.skippedTxsForTweaks p = false) (hkept : keptGroup block filter acc entry = [])
    {bitmap : Bytes}
    (hset : ∀ q, txBit bitmap q = (txBit acc.skippedTxsForTweaks q || decide (q = p)))
    (h₁ : acc₁ = { acc with
      skippedTxsForTweaks := bitmap
      outputCursor := acc.outputCursor + entry.outputCount.toNat }) :
    LoopReading block filter (p :: ps) (entry :: tweaks) acc acc' := by
  obtain ⟨new, keys, htweaks, hkeys, hread⟩ := h.reading
  have hbitmap : acc₁.skippedTxsForTweaks = bitmap := by rw [h₁]
  refine ⟨h.bitmap, fun q hq => ?_, new, keys, htweaks.trans (by rw [h₁]), hkeys.trans (by rw [h₁]),
    fun width hw rest => ?_⟩
  · rw [h.others q (List.not_mem_of_not_mem_cons hq), hbitmap, hset,
      decide_eq_false (List.ne_of_not_mem_cons hq), Bool.or_false]
  · have hskipped : txBit acc'.skippedTxsForTweaks p = true := by
      rw [h.others p hp, hbitmap, hset, decide_eq_true rfl, Bool.or_true]
    rw [storedTxs_next hbit (show acc₁.outputCursor = _ by rw [h₁]), if_pos hkept,
      readTxs_skipped hskipped (hread width hw rest)]

theorem filterTweaks_reading (positions : List ℕ) : ∀ (tweaks : List TweakEntryInput)
    (acc : FilteredTweaks), positions.Nodup →
      (∀ p ∈ positions, p < block.txCount.toNat ∧
        txBit acc.skippedTxsForTweaks p = txBit block.skippedTxsForTweaks p) →
      (positions.filter fun p => !txBit block.skippedTxsForTweaks p).length = tweaks.length →
      tweakSum tweaks + acc.outputCursor = block.outputs.length →
      BitmapOk block.txCount.toNat acc.skippedTxsForTweaks →
      ∃ acc', (tweaks.zip ((positions.filter fun p => !txBit block.skippedTxsForTweaks p).map
          UInt16.ofNat)).foldlM (block.filterTweak filter) acc = .ok acc' ∧
        LoopReading block filter positions tweaks acc acc' := by
  induction positions with
  | nil =>
    intro tweaks acc _ _ hlen _ hok
    obtain rfl : tweaks = [] := List.length_eq_zero_iff.mp hlen.symm
    exact ⟨acc, rfl, hok, fun _ _ => rfl, [], [], by simp, by simp, fun _ _ _ => rfl⟩
  | cons p ps ih =>
    intro tweaks acc hnd hacc hlen hsum hok
    obtain ⟨hp, hnd⟩ := List.nodup_cons.mp hnd
    obtain ⟨hlt, hsame⟩ := hacc p List.mem_cons_self
    have hrest : ∀ q ∈ ps, q < block.txCount.toNat ∧
        txBit acc.skippedTxsForTweaks q = txBit block.skippedTxsForTweaks q :=
      fun q hq => hacc q (List.mem_cons_of_mem p hq)
    cases hbit : txBit block.skippedTxsForTweaks p with
    | true =>
      rw [List.filter_cons_of_neg (by simp [hbit])] at hlen ⊢
      obtain ⟨acc', hfold, hloop⟩ := ih tweaks acc hnd hrest hlen hsum hok
      exact ⟨acc', hfold, hloop.skip hp hbit (hsame.trans hbit)⟩
    | false =>
      rw [List.filter_cons_of_pos (by simp [hbit])] at hlen ⊢
      cases tweaks with
      | nil => cases hlen
      | cons entry tweaks =>
        rw [tweakSum, List.map_cons, List.sum_cons, ← tweakSum] at hsum
        have hlen' := Nat.succ.inj hlen
        have hidx : (UInt16.ofNat p).toNat = p :=
          UInt16.toNat_ofNat_of_lt' (lt_trans hlt block.txCount.toNat_lt)
        rw [List.map_cons, List.zip_cons_cons, List.foldlM_cons,
          filterTweak_eq _ (by omega) (show keptGroup block filter acc entry = _ from rfl)]
        by_cases hkept : keptGroup block filter acc entry = []
        · -- its bit is set
          obtain ⟨bitmap, hset, hok', hbits⟩ := @setSkippedTx_eq block.txCount (UInt16.ofNat p) _
            hok (by rwa [hidx])
          rw [hidx] at hbits
          have hrest' : ∀ q ∈ ps, q < block.txCount.toNat ∧
              txBit bitmap q = txBit block.skippedTxsForTweaks q := by
            intro q hq
            have hne : q ≠ p := fun heq => hp (heq ▸ hq)
            rw [hbits, decide_eq_false hne, Bool.or_false]
            exact hrest q hq
          obtain ⟨acc', hfold, hloop⟩ := ih tweaks { acc with
              skippedTxsForTweaks := bitmap
              outputCursor := acc.outputCursor + entry.outputCount.toNat } hnd hrest' hlen'
            (by simp only; omega) hok'
          rw [if_neg (by rw [hkept]; decide), hset, ok_bind, pure_eq_ok, ok_bind]
          exact ⟨acc', hfold, hloop.drop hp hbit hkept hbits rfl⟩
        · obtain ⟨acc', hfold, hloop⟩ := ih tweaks { acc with
              outputKeys := acc.outputKeys ++ (keptGroup block filter acc entry).map (·.key)
              tweaks := acc.tweaks ++ [⟨UInt16.ofNat (keptGroup block filter acc entry).length, entry.tweak⟩]
              outputCursor := acc.outputCursor + entry.outputCount.toNat } hnd hrest hlen'
            (by simp only; omega) hok
          rw [if_pos (List.length_pos_iff.mpr hkept), ok_bind]
          exact ⟨acc', hfold, hloop.keep hp hbit (hsame.trans hbit) hkept rfl⟩

/-! ## The response -/

theorem toFilteredResponse_reading (hv : StoredValid block) (hsum : tweakSum block.tweaks = block.outputs.length)
    (hslow : ¬ (!filter.filterReuse && filter.cutthroughStart.isNone) = true) {response : LightBlockInput}
    (h : block.toFilteredResponseInput filter = .ok response) :
    (∃ k < 8, response.clientReading = some
      { txs := block.keptTxs filter response.truncatedOutputHashBits.toNat
        unusedTweaks := []
        padding := List.replicate k false
        spentUids := block.keptSpentUids filter }) ∧
    response.txCount = block.txCount ∧ response.firstUid = block.firstUid ∧
    BitmapOk block.txCount.toNat response.skippedTxsForTweaks := by
  obtain ⟨hok, hlen⟩ := bitmapValid_iff.mp hv.bitmap
  obtain ⟨acc, hfold, hloop⟩ := @filterTweaks_reading _ block filter
    (List.range block.txCount.toNat) block.tweaks ⟨block.skippedTxsForTweaks, [], [], 0⟩ List.nodup_range
    (fun p hp => ⟨List.mem_range.mp hp, rfl⟩) hlen (by rw [hsum, Nat.add_zero]) hok
  obtain ⟨new, keys, htweaks, hkeys, hread⟩ := hloop.reading
  simp only [List.nil_append] at htweaks hkeys
  unfold StoredLightBlockInput.toFilteredResponseInput at h
  rw [if_neg hslow, hv.bitmap.derive, ok_bind, tweakPositions, hfold, ok_bind] at h
  simp only [bind_eq_ok, pure_eq_ok, Except.ok.injEq] at h
  obtain ⟨_, -, ⟨count, bytes⟩, henc, _, -, rfl⟩ := h
  refine ⟨?_, rfl, rfl, hloop.bitmap⟩
  obtain ⟨k, hk, hstream⟩ := bytesBits_packTruncatedOutputHash acc.outputKeys
    (chooseTruncatedOutputHashBits acc.outputKeys.length block.rawBlockBytes (responseLabelBudget filter.labels))
  refine ⟨k, hk, ?_⟩
  have hr := hread _ (le_of_lt (UInt8.toNat_lt (chooseTruncatedOutputHashBits acc.outputKeys.length
    block.rawBlockBytes (responseLabelBudget filter.labels)))) (List.replicate k false)
  rw [← hkeys, ← htweaks, ← hstream] at hr
  have hdec := decode_of_encodeSpentIds henc
  unfold LightBlockInput.clientReading decodeLightBlockSpentIds
  dsimp only
  rw [show readTxs (skippedBit acc.skippedTxsForTweaks) _ _ _ _ = _ from hr, hdec]
  rfl

end

end BitcoinData
