import BitcoinData.Sanity.ChainRun
import BitcoinData.Sanity.Client
import BitcoinData.Sanity.Light
import BitcoinData.Sanity.Outputs

/-! What an archive serves of the blocks it holds. The outputs and spends of a file are those of
its applied block; cut-through decides on each of them from the spends of the run. -/

namespace BitcoinData

open Lib

/-! ## Reference blocks -/

theorem reference_unmarked (a : AppliedBlock) (applied : List AppliedBlock) :
    (a.reference applied).normalised.unmarked = a.storageBlock.normalised.unmarked := by
  have houts : (a.storageBlock.outputs.mapIdx fun i output =>
      { output with spentHeight := spentHeightOf applied a.storageBlock.height i }).map
        (StoredOutputEntryInput.withSpent STORAGE_SPENT_HEIGHT_UNSPENT) =
      a.storageBlock.outputs.map (StoredOutputEntryInput.withSpent STORAGE_SPENT_HEIGHT_UNSPENT) := by
    apply List.ext_getElem?
    intro i
    rw [List.getElem?_map, List.getElem?_mapIdx, List.getElem?_map]
    cases a.storageBlock.outputs[i]? with
    | none => rfl
    | some output => rfl
  simp only [StoredLightBlockInput.unmarked, StoredLightBlockInput.normalised,
    AppliedBlock.reference, StoredLightBlockInput.mk.injEq, true_and, and_true]
  exact houts

theorem reference_mark (a : AppliedBlock) (applied : List AppliedBlock) {i : ℕ}
    (hi : i < a.storageBlock.outputs.length) :
    (a.reference applied).normalised.mark i = spentHeightOf applied a.storageBlock.height i := by
  change ((a.reference applied).outputs[i]?.map _).getD _ = _
  rw [AppliedBlock.reference, List.getElem?_mapIdx, List.getElem?_eq_getElem hi]
  rfl

/-- Output `i` of the block at `height` is spent at height `s`. -/
def SpentAt (applied : List AppliedBlock) (height i s : ℕ) : Prop :=
  ∃ index : UInt32, index.toNat = i ∧ (height, index, s) ∈ allSpends applied

theorem spentHeightOf_cases (applied : List AppliedBlock) (height i : ℕ) :
    (∃ s, SpentAt applied height i s ∧ spentHeightOf applied height i = UInt32.ofNat s) ∨
      (∀ s, ¬ SpentAt applied height i s) ∧
        spentHeightOf applied height i = STORAGE_SPENT_HEIGHT_UNSPENT := by
  unfold spentHeightOf
  split
  · rename_i x hx
    obtain ⟨height', index, s⟩ := x
    have hmem := List.mem_of_find?_eq_some hx
    have hp := List.find?_some hx
    simp only [decide_eq_true_eq] at hp
    obtain ⟨rfl, rfl⟩ := hp
    exact .inl ⟨s, ⟨index, rfl, hmem⟩, rfl⟩
  · rename_i hx
    rw [List.find?_eq_none] at hx
    refine .inr ⟨?_, rfl⟩
    rintro s ⟨index, hindex, hmem⟩
    exact hx _ hmem (by simp [hindex])

/-! ## Files -/

section
variable [Externals] {start k : ℕ} {blocks : List BlockScanInput} {archive : FileArchive}
variable {state : P2trIndexerState} {A : List AppliedBlock} {a : AppliedBlock}
variable {block : StoredLightBlockInput}

/-- The file of block `k` of a run, in an archive up to `tip`. -/
structure Filed (start tip : ℕ) (A : List AppliedBlock) (k : ℕ) (a : AppliedBlock)
    (block : StoredLightBlockInput) : Prop where
  applied : A[k]? = some a
  height : block.height = start + k
  unmarked : block.unmarked = a.storageBlock.normalised.unmarked
  valid : StoredValid block
  precomputed : Precomputed block
  distinct : ∀ i < block.outputs.length, ∀ j < block.outputs.length, block.outputUid i = block.outputUid j → i = j
  uids : ∀ spend ∈ block.spends, spend.spentUid.toNat < U64_MAX
  marks : ∀ i < block.outputs.length, (block.clearAbove tip).mark i = spentHeightOf A (start + k) i

theorem Filed.spends_eq {tip : ℕ} (h : Filed start tip A k a block) :
    block.spends = a.storageBlock.spends := by
  have hspends := spends_of_unmarked h.unmarked
  exact hspends

theorem Filed.outputs_length {tip : ℕ} (h : Filed start tip A k a block) :
    block.outputs.length = a.storageBlock.outputs.length := by
  have hlength := outputs_length_of_unmarked h.unmarked
  exact hlength

theorem Filed.outputUid_eq {tip : ℕ} (h : Filed start tip A k a block) (i : ℕ) :
    block.outputUid i = a.storageBlock.outputUid i := by
  have huid := outputUid_of_unmarked h.unmarked i
  exact huid

/-! ## Spends of a run -/

theorem sequential_runSpends (hseq : sequential blocks = .ok (state, A)) (hc : Consecutive start blocks) :
    RunSpends A := by
  refine runSpends_of_empty hseq rfl ?_
  rw [hc]
  exact List.nodup_range'

theorem sequential_get (hseq : sequential blocks = .ok (state, A)) (hc : Consecutive start blocks)
    (ha : A[k]? = some a) : k < blocks.length ∧ ∃ scan s s', AppliedSpec s scan s' a ∧
      scan.height = start + k := by
  obtain ⟨scan, s, s', hget, hspec⟩ := applyBlocks_get_spec hseq ha
  exact ⟨(List.getElem?_eq_some_iff.mp hget).1, scan, s, s', hspec, hc.get hget⟩

theorem spend_source (hseq : sequential blocks = .ok (state, A)) (hc : Consecutive start blocks)
    (ha : A[k]? = some a) {spent : SpentScopedUtxo} (hspent : spent ∈ a.spentUtxos) :
    spent.spentHeight = start + k ∧ ∃ j b, A[j]? = some b ∧ spent.creationHeight = start + j ∧
      spent.outputIndex.toNat < b.storageBlock.outputs.length ∧
      spent.uid.toNat = b.storageBlock.outputUid spent.outputIndex.toNat := by
  obtain ⟨-, scan, s, s', hspec, hscan⟩ := sequential_get hseq hc ha
  refine ⟨(hspec.spentHeight spent hspent).trans hscan, ?_⟩
  have hpair : spentPair spent ∈ spentPairs A :=
    List.mem_flatMap.mpr ⟨a, List.mem_of_getElem? ha, List.mem_map_of_mem hspent⟩
  obtain ⟨b, hb, hcreated⟩ := List.mem_flatMap.mp ((sequential_runSpends hseq hc).created _ hpair)
  obtain ⟨created, hmem, heq⟩ := List.mem_map.mp hcreated
  obtain ⟨j, hj⟩ := List.mem_iff_getElem?.mp hb
  obtain ⟨-, scan', t, t', hspec', hscan'⟩ := sequential_get hseq hc hj
  have hlookup : (createdPair created).2 = spentLookup spent := congrArg Prod.snd heq
  have hentry : EntryFrom (fun height stored => stored = b.storageBlock ∧ height = scan'.height)
      (createdPair created).2 := hspec'.created_entry ⟨rfl, rfl⟩ hmem
  obtain ⟨source, ⟨hsource, hheight⟩, hlt, huid⟩ := hentry
  rw [hlookup] at hheight hlt huid
  rw [hsource] at hlt huid
  exact ⟨j, b, hj, hheight.trans hscan', hlt, huid.symm⟩

omit [Externals] in
theorem mem_allSpends {height s : ℕ} {index : UInt32} : (height, index, s) ∈ allSpends A ↔
    ∃ (k : ℕ) (a : AppliedBlock), A[k]? = some a ∧ ∃ spent ∈ a.spentUtxos, spent.creationHeight = height ∧
      spent.outputIndex = index ∧ spent.spentHeight = s := by
  unfold allSpends
  rw [List.mem_flatMap]
  constructor
  · rintro ⟨a, ha, hmem⟩
    obtain ⟨k, hk⟩ := List.mem_iff_getElem?.mp ha
    obtain ⟨spent, hspent, heq⟩ := List.mem_map.mp hmem
    rw [Prod.mk.injEq, Prod.mk.injEq] at heq
    exact ⟨k, a, hk, spent, hspent, heq.1, heq.2.1, heq.2.2⟩
  · rintro ⟨k, a, hk, spent, hspent, hheight, hindex, hs⟩
    refine ⟨a, List.mem_of_getElem? hk, List.mem_map.mpr ⟨spent, hspent, ?_⟩⟩
    rw [hheight, hindex, hs]

theorem Filed.mem_spends {tip : ℕ} (hseq : sequential blocks = .ok (state, A)) (hc : Consecutive start blocks)
    (h : Filed start tip A k a block) {uid creationHeight : ℕ} :
    (∃ spend ∈ block.spends, spend.spentUid.toNat = uid ∧ spend.creationHeight.toNat = creationHeight) ↔
      ∃ spent ∈ a.spentUtxos, spent.uid.toNat = uid ∧ spent.creationHeight = creationHeight := by
  obtain ⟨-, scan, s, s', hspec, -⟩ := sequential_get hseq hc h.applied
  rw [h.spends_eq]
  constructor
  · rintro ⟨spend, hspend, huid, hheight⟩
    have hmem : (spend.spentUid, spend.creationHeight.toNat) ∈
        a.spentUtxos.map fun s => (s.uid, s.creationHeight) := by
      rw [← hspec.spends]
      exact List.mem_map_of_mem hspend
    obtain ⟨spent, hspent, heq⟩ := List.mem_map.mp hmem
    rw [Prod.mk.injEq] at heq
    exact ⟨spent, hspent, by rw [heq.1, huid], by rw [heq.2, hheight]⟩
  · rintro ⟨spent, hspent, huid, hheight⟩
    have hmem : (spent.uid, spent.creationHeight) ∈
        a.storageBlock.spends.map fun s => (s.spentUid, s.creationHeight.toNat) := by
      rw [hspec.spends]
      exact List.mem_map_of_mem hspent
    obtain ⟨spend, hspend, heq⟩ := List.mem_map.mp hmem
    rw [Prod.mk.injEq] at heq
    exact ⟨spend, hspend, by rw [heq.1, huid], by rw [heq.2, hheight]⟩

theorem Produced.filed (hp : Produced start blocks archive state A) (hc : Consecutive start blocks)
    (ha : A[k]? = some a) :
    ∃ block, archive.Stored (start + k) block ∧ Filed start (start + blocks.length - 1) A k a block := by
  obtain ⟨block, hs, hclear⟩ := hp.files k a ha
  obtain ⟨-, scan, s, s', hspec, hscan⟩ := sequential_get hp.sequential hc ha
  have hunmarked : block.unmarked = a.storageBlock.normalised.unmarked := by
    rw [← unmarked_clearAbove (start + blocks.length - 1), hclear, reference_unmarked]
  have hlength : block.outputs.length = a.storageBlock.normalised.outputs.length :=
    outputs_length_of_unmarked hunmarked
  obtain ⟨bytes, -, hdec⟩ := id hs
  have hvalid := (decode_fields hdec).1
  refine ⟨block, hs, ha, ?_, hunmarked, hvalid, ?_, ?_, ?_, ?_⟩
  · rw [(header_of_unmarked hunmarked).1]
    exact hspec.height.trans hscan
  · exact hspec.precomputed.of_unmarked hunmarked hvalid
  · intro i hi j hj heq
    rw [hlength] at hi hj
    rw [outputUid_of_unmarked hunmarked, outputUid_of_unmarked hunmarked] at heq
    exact hspec.outputUid_inj hi hj heq
  · intro spend hspend
    have hspends : block.spends = a.storageBlock.normalised.spends := spends_of_unmarked hunmarked
    have hmem : (spend.spentUid, spend.creationHeight.toNat) ∈
        a.spentUtxos.map fun s => (s.uid, s.creationHeight) := by
      rw [← hspec.spends]
      rw [hspends] at hspend
      exact List.mem_map_of_mem hspend
    obtain ⟨spent, hspent, heq⟩ := List.mem_map.mp hmem
    obtain ⟨-, j, b, hb, -, hlt, huid⟩ := spend_source hp.sequential hc ha hspent
    obtain ⟨-, scan', t, t', hspec', -⟩ := sequential_get hp.sequential hc hb
    rw [← (Prod.mk.inj heq).1, huid]
    exact hspec'.outputUid_lt hlt
  · intro i hi
    rw [hclear, reference_mark a A (hlength ▸ hi), hspec.height.trans hscan]

/-- Every spend of a run is at a height that fits its stored field, and not before the creation. -/
theorem Produced.spentAt_bounds (hp : Produced start blocks archive state A) (hc : Consecutive start blocks)
    {i s j : ℕ} (h : SpentAt A (start + j) i s) :
    s ≤ U32_MAX ∧ start + j ≤ s ∧ s < start + blocks.length ∧ ∃ b, A[j]? = some b ∧
      i < b.storageBlock.outputs.length ∧ ∃ k a, A[k]? = some a ∧ s = start + k ∧
        ∃ spent ∈ a.spentUtxos, spent.creationHeight = start + j ∧ spent.outputIndex.toNat = i ∧
          spent.uid.toNat = b.storageBlock.outputUid i := by
  obtain ⟨index, rfl, hmem⟩ := h
  obtain ⟨k, a, ha, spent, hspent, hheight, rfl, rfl⟩ := mem_allSpends.mp hmem
  obtain ⟨hs, j', b, hb, hj', hlt, huid⟩ := spend_source hp.sequential hc ha hspent
  obtain rfl : j = j' := by omega
  obtain ⟨block, -, hfiled⟩ := hp.filed hc ha
  obtain ⟨spend, hspend, -, hcreated⟩ := (hfiled.mem_spends hp.sequential hc).mpr ⟨spent, hspent, rfl, rfl⟩
  have hle := hfiled.valid.spends spend hspend
  have hmax := hfiled.valid.height
  have hk := (sequential_get hp.sequential hc ha).1
  rw [hfiled.height] at hle hmax
  exact ⟨by omega, by omega, by omega, b, hb, hlt, k, a, ha, hs, spent, hspent, hheight, rfl, huid⟩

theorem Produced.spentAt_unique (hp : Produced start blocks archive state A) (hc : Consecutive start blocks)
    {height i s s' : ℕ} (h : SpentAt A height i s) (h' : SpentAt A height i s') : s = s' := by
  obtain ⟨index, hindex, hmem⟩ := h
  obtain ⟨index', hindex', hmem'⟩ := h'
  obtain rfl : index = index' := UInt32.toNat_inj.mp (hindex.trans hindex'.symm)
  exact (sequential_runSpends hp.sequential hc).spentHeight_unique hmem hmem'

/-! ## Cut-through -/

def cutthroughFilter (start tip : ℕ) (labels : Option UInt16) : StoredBlockResponseFilter :=
  ⟨some start, some tip, false, labels⟩

def plainFilter (labels : Option UInt16) : StoredBlockResponseFilter := ⟨none, none, false, labels⟩

/-- Which outputs cut-through omits: those spent up to its tip, but for a spend at the height
whose number stands for unspent. -/
theorem Filed.omits_output (hp : Produced start blocks archive state A) (hc : Consecutive start blocks)
    (h : Filed start (start + blocks.length - 1) A k a block) {first tip i : ℕ} {labels : Option UInt16}
    (htip : tip < start + blocks.length) {output : StoredOutputEntryInput} (ho : block.outputs[i]? = some output) :
    shouldOmitStoredOutput block.height output (cutthroughFilter first tip labels) = true ↔
      first ≤ start + k ∧ ∃ s, SpentAt A (start + k) i s ∧ s ≤ tip ∧ s ≠ U32_MAX := by
  have hi : i < block.outputs.length := (List.getElem?_eq_some_iff.mp ho).1
  have hmark : block.mark i = output.spentHeight := by
    rw [StoredLightBlockInput.mark, ho]
    rfl
  have hclear := h.marks i hi
  rw [mark_clearAbove, hmark] at hclear
  have homit : shouldOmitStoredOutput block.height output (cutthroughFilter first tip labels) = true ↔
      first ≤ start + k ∧ output.spentHeight ≠ STORAGE_SPENT_HEIGHT_UNSPENT ∧
        output.spentHeight.toNat ≤ tip := by
    simp [shouldOmitStoredOutput, cutthroughFilter, h.height]
  rw [homit]
  refine and_congr_right fun _ => ?_
  have hof : ∀ s, s ≤ U32_MAX → (UInt32.ofNat s).toNat = s := fun s hs =>
    UInt32.toNat_ofNat_of_lt' (lt_of_le_of_lt hs (by decide))
  have hmax : ∀ s, s ≤ U32_MAX → (UInt32.ofNat s = STORAGE_SPENT_HEIGHT_UNSPENT ↔ s = U32_MAX) := by
    intro s hs
    rw [← UInt32.toNat_inj, hof s hs]
    rfl
  rcases spentHeightOf_cases A (start + k) i with ⟨s, hspent, heq⟩ | ⟨hnone, heq⟩
  · obtain ⟨hs, -, hlt, -⟩ := hp.spentAt_bounds hc hspent
    rw [heq] at hclear
    constructor
    · rintro ⟨hne, hle⟩
      rw [if_pos (by omega)] at hclear
      rw [hclear, hof s hs] at hle
      rw [hclear, ne_eq, hmax s hs] at hne
      exact ⟨s, hspent, hle, hne⟩
    · rintro ⟨s', hspent', hle, hne⟩
      obtain rfl := hp.spentAt_unique hc hspent hspent'
      split_ifs at hclear with hcut
      · rw [hclear, hof s hs, ne_eq, hmax s hs]
        exact ⟨hne, hle⟩
      · exact absurd ((hmax s hs).mp hclear.symm) hne
  · rw [heq] at hclear
    constructor
    · rintro ⟨hne, hle⟩
      rw [if_pos (by omega)] at hclear
      exact absurd hclear hne
    · rintro ⟨s, hspent, _⟩
      exact absurd hspent (hnone s)

theorem Filed.omits_spend {tip' first tip : ℕ} {labels : Option UInt16}
    (h : Filed start tip' A k a block) (spend : StoredSpendEntryInput) :
    shouldOmitStoredSpend block.height spend (cutthroughFilter first tip labels) = true ↔
      start + k ≤ tip ∧ first ≤ spend.creationHeight.toNat := by
  simp [shouldOmitStoredSpend, cutthroughFilter, h.height]

/-! ## What a client gets -/

/-- The UIDs of the stored outputs that a filter keeps. -/
def StoredLightBlockInput.retainedUids (self : StoredLightBlockInput)
    (filter : StoredBlockResponseFilter) : List ℕ :=
  (self.outputs.zipIdx.filter fun p => !shouldOmitStoredOutput self.height p.1 filter).map
    fun p => self.outputUid p.2

omit [Externals] in
theorem mem_retainedUids {filter : StoredBlockResponseFilter} {uid : ℕ} :
    uid ∈ block.retainedUids filter ↔ ∃ i output, block.outputs[i]? = some output ∧
      shouldOmitStoredOutput block.height output filter = false ∧ block.outputUid i = uid := by
  unfold StoredLightBlockInput.retainedUids
  constructor
  · intro hmem
    obtain ⟨p, hp, rfl⟩ := List.mem_map.mp hmem
    obtain ⟨hget, hkept⟩ := List.mem_filter.mp hp
    exact ⟨p.2, p.1, List.mem_zipIdx_iff_getElem?.mp hget, by simpa using hkept, rfl⟩
  · rintro ⟨i, output, hget, hkept, huid⟩
    refine List.mem_map.mpr ⟨(output, i), List.mem_filter.mpr ⟨List.mem_zipIdx_iff_getElem?.mpr hget, ?_⟩, huid⟩
    simpa using hkept

omit [Externals] in
theorem mem_keptSpentUids {filter : StoredBlockResponseFilter} {uid : ℕ} :
    uid ∈ (block.keptSpentUids filter).map (·.toNat) ↔ ∃ spend ∈ block.spends,
      shouldOmitStoredSpend block.height spend filter = false ∧ spend.spentUid.toNat = uid := by
  unfold StoredLightBlockInput.keptSpentUids
  simp only [List.mem_map, List.mem_insertionSort, List.mem_filter, Bool.not_eq_true', exists_exists_and_eq_and]
  constructor
  · rintro ⟨spend, ⟨hspend, hkept⟩, huid⟩
    exact ⟨spend, hspend, hkept, huid⟩
  · rintro ⟨spend, hspend, hkept, huid⟩
    exact ⟨spend, ⟨hspend, hkept⟩, huid⟩

def FileArchive.servedSets (archive : FileArchive) (filter : StoredBlockResponseFilter) (height : ℕ) :
    Finset ℕ × Finset ℕ :=
  match archive.storedBlock height with
  | .ok block => ((block.retainedUids filter).toFinset, ((block.keptSpentUids filter).map (·.toNat)).toFinset)
  | .error _ => (∅, ∅)

theorem storedBlock_eq {height : ℕ} (hs : archive.Stored height block) :
    archive.storedBlock height = .ok block := by
  obtain ⟨bytes, hlookup, hdec⟩ := hs
  unfold FileArchive.storedBlock FileArchive.readStoredBlock
  rw [hlookup]
  exact hdec

theorem servedSets_eq {height : ℕ} (hs : archive.Stored height block) (filter : StoredBlockResponseFilter) :
    archive.servedSets filter height =
      ((block.retainedUids filter).toFinset, ((block.keptSpentUids filter).map (·.toNat)).toFinset) := by
  rw [FileArchive.servedSets, storedBlock_eq hs]

theorem Filed.firstUid {tip : ℕ} (h : Filed start tip A k a block) : block.firstUid = a.storageBlock.firstUid := by
  have hfirst := congrArg StoredLightBlockInput.firstUid h.unmarked
  exact hfirst

theorem Filed.tweaks_eq {tip : ℕ} (h : Filed start tip A k a block) :
    block.tweaks = a.storageBlock.normalised.tweaks := by
  have htweaks := congrArg StoredLightBlockInput.tweaks h.unmarked
  exact htweaks

theorem Filed.bitmap_eq {tip : ℕ} (h : Filed start tip A k a block) :
    block.skippedTxsForTweaks = a.storageBlock.skippedTxsForTweaks ∧ block.txCount = a.storageBlock.txCount := by
  have hbitmap := congrArg StoredLightBlockInput.skippedTxsForTweaks h.unmarked
  have hcount := congrArg StoredLightBlockInput.txCount h.unmarked
  exact ⟨hbitmap, hcount⟩

theorem Filed.normalised {tip : ℕ} (h : Filed start tip A k a block) {filter : StoredBlockResponseFilter}
    {response : LightBlockInput} (hspec : FilteredResponse block filter response) :
    response.normalised = response := by
  have hid : ∀ entry ∈ response.tweaks, { entry with tweak := normalizeTweak entry.tweak } = entry := by
    intro entry hentry
    obtain ⟨stored, hstored, heq⟩ := List.mem_map.mp (hspec.tweaks entry hentry)
    rw [h.tweaks_eq] at hstored
    obtain ⟨built, -, rfl⟩ := List.mem_map.mp hstored
    have hidem := normalizeTweak_idem built.tweak
    rw [show normalizeTweak built.tweak = entry.tweak from heq] at hidem
    rw [hidem]
  unfold LightBlockInput.normalised
  rw [List.map_congr_left hid, List.map_id']

theorem Filed.accounted {tip : ℕ} (h : Filed start tip A k a block) : a.storageBlock.TxsAccounted := by
  obtain ⟨hbitmap, hcount⟩ := h.bitmap_eq
  have hlength := congrArg List.length h.tweaks_eq
  have hsum := congrArg tweakSum h.tweaks_eq
  simp only [StoredLightBlockInput.normalised, List.length_map] at hlength
  simp only [StoredLightBlockInput.normalised, tweakSum, List.map_map] at hsum
  refine ⟨?_, hsum.symm.trans (h.precomputed.sum.trans h.outputs_length)⟩
  rw [← hlength, ← hbitmap, ← hcount]
  exact (bitmapValid_iff.mp h.valid.bitmap).2

theorem Filed.retained_subset {tip : ℕ} (h : Filed start tip A k a block) (filter : StoredBlockResponseFilter) :
    (block.retainedUids filter).toFinset ⊆ a.storageBlock.uids := by
  intro uid hmem
  rw [List.mem_toFinset, mem_retainedUids] at hmem
  obtain ⟨i, output, hget, -, huid⟩ := hmem
  refine mem_uids.mpr ⟨i, ?_, (h.outputUid_eq i).symm.trans huid⟩
  exact h.outputs_length ▸ (List.getElem?_eq_some_iff.mp hget).1

theorem Filed.uidKeys_eq {tip : ℕ} (h : Filed start tip A k a block) (firstUid : UInt64) :
    a.storageBlock.uidKeys firstUid = block.uidKeys firstUid := by
  have hkeys := congrArg (fun b : StoredLightBlockInput => b.outputs.map (·.key)) h.unmarked
  have hskipped := congrArg StoredLightBlockInput.skippedOutputs h.unmarked
  have hslots : block.storedSlots = a.storageBlock.storedSlots := by
    rw [StoredLightBlockInput.storedSlots, StoredLightBlockInput.storedSlots, h.outputs_length]
    exact congrArg (fun skipped : List UInt16 => (List.range (a.storageBlock.outputs.length + skipped.length)).filter
      fun slot => slot ∉ skipped.map (·.toNat)) hskipped
  simp only [StoredLightBlockInput.unmarked, StoredLightBlockInput.normalised, List.map_map,
    Function.comp_def] at hkeys
  have hzip : ∀ b : StoredLightBlockInput, b.uidKeys firstUid =
      (b.outputs.map (·.key)).zipIdx.map fun p => (firstUid.toNat + b.storedSlots.getD p.2 0, p.1) := by
    intro b
    rw [StoredLightBlockInput.uidKeys, List.zipIdx_map, List.map_map]
    rfl
  rw [hzip, hzip, hkeys, hslots]

theorem Filed.keptTxs_hashes {tip : ℕ} (h : Filed start tip A k a block) {filter : StoredBlockResponseFilter}
    {response : LightBlockInput} (hfirst : response.firstUid = block.firstUid) :
    txHashes (block.keptTxs filter response.truncatedOutputHashBits.toNat) =
      txHashes (a.storageBlock.foundTxs response (block.retainedUids filter).toFinset) := by
  obtain ⟨hbitmap, hcount⟩ := h.bitmap_eq
  have hcounts : a.storageBlock.tweaks.map (·.outputCount) = block.tweaks.map (·.outputCount) := by
    rw [h.tweaks_eq, StoredLightBlockInput.normalised, List.map_map]
    rfl
  have hkeeps : ∀ p ∈ block.outputs.zipIdx, decide (response.firstUid.toNat + block.storedSlots.getD p.2 0 ∈
      (block.retainedUids filter).toFinset) = block.keeps filter p.1 := by
    rintro ⟨output, i⟩ hmem
    have hget := List.mem_zipIdx_iff_getElem?.mp hmem
    have hi := (List.getElem?_eq_some_iff.mp hget).1
    have huid : response.firstUid.toNat + block.storedSlots.getD i 0 = block.outputUid i := by
      rw [hfirst, StoredLightBlockInput.outputUid]
    rw [Bool.eq_iff_iff, decide_eq_true_iff, List.mem_toFinset, huid, mem_retainedUids, StoredLightBlockInput.keeps,
      Bool.not_eq_true']
    constructor
    · rintro ⟨j, output', hget', hkept, heq⟩
      obtain rfl := h.distinct j (List.getElem?_eq_some_iff.mp hget').1 i hi heq
      obtain rfl := Option.some.inj (hget.symm.trans hget')
      exact hkept
    · exact fun hkept => ⟨i, output, hget, hkept, rfl⟩
  have hkept := @keptHashes_map _ (skippedBit block.skippedTxsForTweaks) (List.range block.txCount.toNat) _ _
    block.outputs.zipIdx (fun p => block.keeps filter p.1) (·.1.key) response.truncatedOutputHashBits.toNat _ _
    Prod.fst (block.keeps filter) (·.key) (rfl : block.tweaks.map (·.outputCount) = _) (fun _ _ => rfl) fun _ => rfl
  have hfound := @keptHashes_map _ (skippedBit block.skippedTxsForTweaks) (List.range block.txCount.toNat) _ _
    block.outputs.zipIdx (fun p => block.keeps filter p.1) (·.1.key) response.truncatedOutputHashBits.toNat _ _
    (fun p => (response.firstUid.toNat + block.storedSlots.getD p.2 0, p.1.key))
    (fun output => decide (output.1 ∈ (block.retainedUids filter).toFinset)) (·.2) hcounts hkeeps fun _ => rfl
  rw [List.zipIdx_map_fst] at hkept
  rw [StoredLightBlockInput.foundTxs, h.uidKeys_eq, ← hbitmap, ← hcount]
  exact hkept.trans hfound.symm

theorem Filed.reading {tip : ℕ} (h : Filed start tip A k a block) {filter : StoredBlockResponseFilter}
    {response : LightBlockInput} (hresponse : block.toFilteredResponseInput filter = .ok response) :
    response.firstUid = block.firstUid ∧ ∃ reading, response.clientReading = some reading ∧
      reading.txs = block.keptTxs filter response.truncatedOutputHashBits.toNat := by
  by_cases hplain : (!filter.filterReuse && filter.cutthroughStart.isNone) = true
  · -- a boundary above the block omits nothing and takes the other path
    obtain ⟨above, habove⟩ : ∃ above : StoredBlockResponseFilter,
      above = ⟨some (block.height + 1), none, false, filter.labels⟩ := ⟨_, rfl⟩
    have hout : ∀ output ∈ block.outputs, shouldOmitStoredOutput block.height output above = false := by
      intro output _
      simp [shouldOmitStoredOutput, habove]
    have hspend : ∀ spend ∈ block.spends, shouldOmitStoredSpend block.height spend above = false := by
      intro spend hmem
      have hle := h.valid.spends spend hmem
      simpa [shouldOmitStoredSpend, habove] using fun _ => hle
    have hslow : ¬ (!above.filterReuse && above.cutthroughStart.isNone) = true := by simp [habove]
    rw [StoredLightBlockInput.toFilteredResponseInput, if_pos hplain,
      show filter.labels = above.labels by rw [habove], ← h.precomputed.filtered_eq hslow hout hspend] at hresponse
    obtain ⟨⟨_, -, hreading⟩, -, hfirst, -⟩ :=
      toFilteredResponse_reading h.valid h.precomputed.sum hslow hresponse
    refine ⟨hfirst, _, hreading, ?_⟩
    have hkeeps : block.keeps above = block.keeps filter := by
      funext output
      rw [StoredLightBlockInput.keeps, StoredLightBlockInput.keeps, (shouldOmit_unfiltered hplain block.height).1]
      simp [shouldOmitStoredOutput, habove]
    rw [StoredLightBlockInput.keptTxs, StoredLightBlockInput.keptTxs, hkeeps]
  · obtain ⟨⟨_, -, hreading⟩, -, hfirst, -⟩ :=
      toFilteredResponse_reading h.valid h.precomputed.sum hplain hresponse
    exact ⟨hfirst, _, hreading, rfl⟩

/-- Every block of the archive is served, and its response is that of the kept outputs and spends. -/
theorem Filed.served {tip : ℕ} (h : Filed start tip A k a block) (hs : archive.Stored (start + k) block)
    (filter : StoredBlockResponseFilter) :
    ∃ served, archive.readBlockFilteredWithHash (start + k) filter = .ok served ∧
      ServedAs a.storageBlock served.payload (archive.servedSets filter (start + k)).1
        (archive.servedSets filter (start + k)).2 := by
  obtain ⟨response, hresponse, hspec⟩ := toFilteredResponse_spec h.valid h.precomputed.sum h.uids filter
  obtain ⟨payload, hpayload, hdecoded⟩ := hspec.valid.roundTrip
  obtain ⟨hfirst, reading, hreading, htxs⟩ := h.reading hresponse
  have hnormal : response.normalised = response := h.normalised hspec
  rw [hnormal] at hdecoded
  have hsets := servedSets_eq hs filter
  obtain ⟨bytes, hlookup, hdec⟩ := hs
  refine ⟨⟨payload, block.blockHash⟩, ?_, h.accounted, ?_, response, _, hdecoded, hfirst.trans h.firstUid, ?_,
    hspec.spends, by rw [hsets]⟩
  · unfold FileArchive.readBlockFilteredWithHash FileArchive.readStoredBlock
      storedLightBlockToFilteredResponseBytes
    rw [hlookup]
    change (decodeStoredLightBlock bytes >>= _) >>= _ = _
    rw [hdec, ok_bind, hresponse, ok_bind, hpayload]
    rfl
  · rw [hsets]
    exact h.retained_subset filter
  · rw [hsets]
    exact retains_eq_true.mpr ⟨reading, hreading, by rw [htxs, h.keptTxs_hashes hfirst]⟩

/-! ## The sets of a run -/

/-- Output `i` of block `k` of a run, with its UID. -/
structure RunOutput (A : List AppliedBlock) (k i uid : ℕ) : Prop where
  exists_block : ∃ a, A[k]? = some a ∧ i < a.storageBlock.outputs.length ∧ a.storageBlock.outputUid i = uid

omit [Externals] in
theorem RunOutput.lt {i uid : ℕ} (h : RunOutput A k i uid) : k < A.length := by
  obtain ⟨a, ha, -, -⟩ := h.exists_block
  exact (List.getElem?_eq_some_iff.mp ha).1

theorem RunOutput.unique (hseq : sequential blocks = .ok (state, A)) {j i i' uid : ℕ}
    (h : RunOutput A k i uid) (h' : RunOutput A j i' uid) : k = j ∧ i = i' := by
  obtain ⟨a, ha, hi, huid⟩ := h.exists_block
  obtain ⟨b, hb, hi', huid'⟩ := h'.exists_block
  exact outputUid_unique hseq ha hb hi hi' (huid.trans huid'.symm)

theorem Produced.spentAt_output (hp : Produced start blocks archive state A) (hc : Consecutive start blocks)
    {i s j : ℕ} (h : SpentAt A (start + j) i s) : ∃ uid, RunOutput A j i uid := by
  obtain ⟨-, -, -, b, hb, hi, -⟩ := hp.spentAt_bounds hc h
  exact ⟨_, ⟨b, hb, hi, rfl⟩⟩

def runUids (A : List AppliedBlock) (k : ℕ) : Finset ℕ := (A[k]?.map (·.storageBlock.uids)).getD ∅

omit [Externals] in
theorem runUids_eq (ha : A[k]? = some a) : runUids A k = a.storageBlock.uids := by
  rw [runUids, ha]
  rfl

omit [Externals] in
theorem mem_runUids {uid : ℕ} : uid ∈ runUids A k ↔ ∃ i, RunOutput A k i uid := by
  constructor
  · intro hmem
    cases ha : A[k]? with
    | none =>
      rw [runUids, ha] at hmem
      exact absurd hmem (Finset.notMem_empty uid)
    | some a =>
      rw [runUids_eq ha, mem_uids] at hmem
      obtain ⟨i, hi, huid⟩ := hmem
      exact ⟨i, ⟨a, ha, hi, huid⟩⟩
  · rintro ⟨i, a, ha, hi, huid⟩
    rw [runUids_eq ha]
    exact mem_uids.mpr ⟨i, hi, huid⟩

theorem exists_found (hseq : sequential blocks = .ok (state, A)) {ι : Type} {items : List ι} {index : ι → ℕ}
    {adds : ι → Finset ℕ} (hsorted : items.Pairwise fun x y => index x < index y)
    (hsub : ∀ x ∈ items, adds x ⊆ runUids A (index x)) :
    ∃ found, ∀ x ∈ items, runUids A (index x) ∩ found = adds x := by
  induction items with
  | nil => exact ⟨∅, fun x hx => (List.not_mem_nil hx).elim⟩
  | cons y items ih =>
    obtain ⟨hlt, hsorted⟩ := List.pairwise_cons.mp hsorted
    obtain ⟨hy, hsub⟩ := List.forall_mem_cons.mp hsub
    obtain ⟨found, hfound⟩ := ih hsorted hsub
    have hdisjoint : ∀ x ∈ items, Disjoint (runUids A (index x)) (runUids A (index y)) := by
      intro x hx
      rw [Finset.disjoint_left]
      intro uid hout hout'
      obtain ⟨i, hout⟩ := mem_runUids.mp hout
      obtain ⟨i', hout'⟩ := mem_runUids.mp hout'
      obtain ⟨heq, -⟩ := hout.unique hseq hout'
      have := hlt x hx
      omega
    refine ⟨(found \ runUids A (index y)) ∪ adds y, List.forall_mem_cons.mpr ⟨?_, fun x hx => ?_⟩⟩
    · rw [Finset.inter_union_distrib_left, Finset.inter_sdiff_self, Finset.empty_union,
        Finset.inter_eq_right.mpr hy]
    · rw [Finset.inter_union_distrib_left, ← Finset.inter_sdiff_assoc, hfound x hx,
        Finset.disjoint_iff_inter_eq_empty.mp ((hdisjoint x hx).mono_right hy), Finset.union_empty,
        Finset.sdiff_eq_self_of_disjoint ((hdisjoint x hx).mono_left (hfound x hx ▸ Finset.inter_subset_left))]

theorem Produced.mem_adds (hp : Produced start blocks archive state A) (hc : Consecutive start blocks)
    (hk : k < A.length) {filter : StoredBlockResponseFilter} {Omits : ℕ → Prop}
    (homits : ∀ a block i output, Filed start (start + blocks.length - 1) A k a block →
      block.outputs[i]? = some output →
      (shouldOmitStoredOutput block.height output filter = true ↔ Omits i)) {uid : ℕ} :
    uid ∈ (archive.servedSets filter (start + k)).1 ↔ ∃ i, RunOutput A k i uid ∧ ¬ Omits i := by
  obtain ⟨a, ha⟩ : ∃ a, A[k]? = some a := ⟨A[k], List.getElem?_eq_getElem hk⟩
  obtain ⟨block, hs, hfiled⟩ := hp.filed hc ha
  rw [servedSets_eq hs, List.mem_toFinset, mem_retainedUids]
  constructor
  · rintro ⟨i, output, hget, hkept, huid⟩
    have hi := (List.getElem?_eq_some_iff.mp hget).1
    rw [hfiled.outputs_length] at hi
    rw [hfiled.outputUid_eq] at huid
    refine ⟨i, ⟨a, ha, hi, huid⟩, fun h => ?_⟩
    rw [(homits a block i output hfiled hget).mpr h] at hkept
    cases hkept
  · rintro ⟨i, hout, hkept⟩
    obtain ⟨b, hb, hi, huid⟩ := hout.exists_block
    obtain rfl : a = b := Option.some.inj (ha.symm.trans hb)
    rw [← hfiled.outputs_length] at hi
    refine ⟨i, block.outputs[i], List.getElem?_eq_getElem hi, ?_, by rw [hfiled.outputUid_eq, huid]⟩
    rw [Bool.eq_false_iff]
    exact fun h => hkept ((homits a block i _ hfiled (List.getElem?_eq_getElem hi)).mp h)

theorem Produced.mem_removes (hp : Produced start blocks archive state A) (hc : Consecutive start blocks)
    (hk : k < A.length) {filter : StoredBlockResponseFilter} {Omits : ℕ → Prop}
    (homits : ∀ a block spend, Filed start (start + blocks.length - 1) A k a block →
      (shouldOmitStoredSpend block.height spend filter = true ↔ Omits spend.creationHeight.toNat)) {uid : ℕ} :
    uid ∈ (archive.servedSets filter (start + k)).2 ↔
      ∃ j i, RunOutput A j i uid ∧ SpentAt A (start + j) i (start + k) ∧ ¬ Omits (start + j) := by
  obtain ⟨a, ha⟩ : ∃ a, A[k]? = some a := ⟨A[k], List.getElem?_eq_getElem hk⟩
  obtain ⟨block, hs, hfiled⟩ := hp.filed hc ha
  rw [servedSets_eq hs, List.mem_toFinset, mem_keptSpentUids]
  constructor
  · rintro ⟨spend, hspend, hkept, huid⟩
    obtain ⟨spent, hspent, hspentUid, hcreated⟩ := (hfiled.mem_spends hp.sequential hc).mp ⟨spend, hspend, huid, rfl⟩
    obtain ⟨hheight, j, b, hb, hj, hi, hsource⟩ := spend_source hp.sequential hc ha hspent
    refine ⟨j, spent.outputIndex.toNat, ⟨b, hb, hi, by rw [← hsource, hspentUid]⟩,
      ⟨spent.outputIndex, rfl, mem_allSpends.mpr ⟨k, a, ha, spent, hspent, hj, rfl, hheight⟩⟩, fun h => ?_⟩
    rw [← hj, hcreated, ← homits a block spend hfiled, hkept] at h
    cases h
  · rintro ⟨j, i, hout, hspentAt, hkept⟩
    obtain ⟨-, -, -, b, hb, hi, k', a', ha', hk', spent, hspent, hj, -, huid⟩ := hp.spentAt_bounds hc hspentAt
    obtain rfl : k = k' := by omega
    obtain rfl : a = a' := Option.some.inj (ha.symm.trans ha')
    obtain ⟨c, hc', -, hcuid⟩ := hout.exists_block
    obtain rfl : b = c := Option.some.inj (hb.symm.trans hc')
    obtain ⟨spend, hspend, hspendUid, hcreated⟩ := (hfiled.mem_spends hp.sequential hc).mpr ⟨spent, hspent, rfl, rfl⟩
    refine ⟨spend, hspend, ?_, by rw [hspendUid, huid, hcuid]⟩
    rw [Bool.eq_false_iff]
    intro h
    rw [homits a block spend hfiled, hcreated, hj] at h
    exact hkept h

end

end BitcoinData
