import BitcoinData.Proofs.SequentialRefinement
import BitcoinData.Sanity.Served

/-! Cut-through on one state of the archive. An output is left out of its block and out of the
spent list that would remove it, so the two decisions cancel; they disagree at the one height
whose number the files use for unspent. -/

namespace BitcoinData

open Lib

section
variable [Externals]

/-! ## What a response holds -/

/-- The response of a block retains those of its outputs that are in `found`. -/
def Retained (archive : FileArchive) (filter : StoredBlockResponseFilter) (block : StoredLightBlockInput)
    (found : Finset ℕ) : Prop :=
  ∃ response, archive.servedResponse filter block.height = .ok response ∧ block.retains response found = true

/-- The decoded spent list of the response of a block has this UID. -/
def SpendServed (archive : FileArchive) (filter : StoredBlockResponseFilter) (height uid : ℕ) : Prop :=
  ∃ response uids, archive.servedResponse filter height = .ok response ∧
    decodeLightBlockSpentIds response = .ok uids ∧ uid ∈ uids.map (·.toNat)

def outputUids (A : List AppliedBlock) : Finset ℕ := (Finset.range A.length).biUnion (runUids A)

def servedHeights (start first tip : ℕ) : List ℕ :=
  List.range' (max first start) (tip + 1 - max first start)

/-- Cut-through from `first` to `tip` retains the outputs `found`. It omits the outputs spent up to
the tip and the spends of these outputs, and nothing else; a wallet of older outputs comes out the
same. -/
structure Balanced (archive : FileArchive) (start : ℕ) (A : List AppliedBlock) (first tip : ℕ)
    (labels : Option UInt16) (found : Finset ℕ) : Prop where
  retained : ∀ k a, A[k]? = some a → first ≤ start + k → start + k ≤ tip →
    Retained archive (cutthroughFilter first tip labels) a.storageBlock found
  output : ∀ k i uid, RunOutput A k i uid → first ≤ start + k → start + k ≤ tip →
    (uid ∉ found ↔ ∃ s, SpentAt A (start + k) i s ∧ s ≤ tip)
  paired : ∀ k i uid s, RunOutput A k i uid → first ≤ start + k → start + k ≤ tip →
    SpentAt A (start + k) i s →
    (uid ∉ found ↔ ¬ SpendServed archive (cutthroughFilter first tip labels) s uid)
  spend : ∀ k uid, first ≤ start + k → start + k ≤ tip → SpendServed archive (plainFilter labels) (start + k) uid →
    ¬ SpendServed archive (cutthroughFilter first tip labels) (start + k) uid →
    ∃ j i, RunOutput A j i uid ∧ first ≤ start + j ∧ start + j ≤ tip ∧ SpentAt A (start + j) i (start + k)
  folded : ∀ wallet : Finset ℕ, (∀ uid ∈ wallet, ∀ k i, RunOutput A k i uid → start + k < first) →
    ∃ result, archive.clientFold (runClient A found) (cutthroughFilter first tip labels) wallet
        (servedHeights start first tip) = .ok result ∧
      archive.clientFold (runClient A (outputUids A)) (plainFilter labels) wallet
        (servedHeights start first tip) = .ok result

variable {start first tip k : ℕ} {blocks : List BlockScanInput} {archive : FileArchive}
variable {state : P2trIndexerState} {A : List AppliedBlock} {labels : Option UInt16}

/-! ## The sets of the two filters -/

theorem Produced.length_eq (hp : Produced start blocks archive state A) : A.length = blocks.length :=
  applyBlocks_length hp.sequential

theorem Produced.cut_adds (hp : Produced start blocks archive state A) (hc : Consecutive start blocks)
    (htip : tip < start + blocks.length) (hk : k < A.length) {uid : ℕ} :
    uid ∈ (archive.servedSets (cutthroughFilter first tip labels) (start + k)).1 ↔
      ∃ i, RunOutput A k i uid ∧ ¬ (first ≤ start + k ∧ ∃ s, SpentAt A (start + k) i s ∧ s ≤ tip ∧ s ≠ U32_MAX) :=
  hp.mem_adds hc hk fun _ _ _ _ hfiled hget => hfiled.omits_output hp hc htip hget

theorem Produced.cut_removes (hp : Produced start blocks archive state A) (hc : Consecutive start blocks)
    (hk : k < A.length) {uid : ℕ} :
    uid ∈ (archive.servedSets (cutthroughFilter first tip labels) (start + k)).2 ↔
      ∃ j i, RunOutput A j i uid ∧ SpentAt A (start + j) i (start + k) ∧
        ¬ (start + k ≤ tip ∧ first ≤ start + j) :=
  @Produced.mem_removes _ start k blocks archive state A hp hc hk (cutthroughFilter first tip labels)
    (fun creationHeight => start + k ≤ tip ∧ first ≤ creationHeight)
    (fun _ _ spend hfiled => hfiled.omits_spend spend) uid

theorem Produced.plain_adds (hp : Produced start blocks archive state A) (hc : Consecutive start blocks)
    (hk : k < A.length) {uid : ℕ} :
    uid ∈ (archive.servedSets (plainFilter labels) (start + k)).1 ↔ ∃ i, RunOutput A k i uid := by
  have h := @Produced.mem_adds _ start k blocks archive state A hp hc hk (plainFilter labels) (fun _ => False)
    (by intro a block i output _ _; simp [shouldOmitStoredOutput, plainFilter]) uid
  simpa using h

theorem Produced.plain_removes (hp : Produced start blocks archive state A) (hc : Consecutive start blocks)
    (hk : k < A.length) {uid : ℕ} :
    uid ∈ (archive.servedSets (plainFilter labels) (start + k)).2 ↔
      ∃ j i, RunOutput A j i uid ∧ SpentAt A (start + j) i (start + k) := by
  have h := @Produced.mem_removes _ start k blocks archive state A hp hc hk (plainFilter labels) (fun _ => False)
    (by intro a block spend _; simp [shouldOmitStoredSpend, plainFilter]) uid
  simpa using h

theorem Produced.serves (hp : Produced start blocks archive state A) (hc : Consecutive start blocks)
    {a : AppliedBlock} (ha : A[k]? = some a) (filter : StoredBlockResponseFilter) :
    a.storageBlock.height = start + k ∧ ∃ served, archive.readBlockFilteredWithHash (start + k) filter = .ok served ∧
      ServedAs a.storageBlock served.payload (archive.servedSets filter (start + k)).1
        (archive.servedSets filter (start + k)).2 := by
  obtain ⟨-, scan, s, s', hspec, hscan⟩ := sequential_get hp.sequential hc ha
  obtain ⟨block, hs, hfiled⟩ := hp.filed hc ha
  exact ⟨hspec.height.trans hscan, hfiled.served hs filter⟩

theorem retained_iff_accepts {filter : StoredBlockResponseFilter} {block : StoredLightBlockInput} {height : ℕ}
    {found : Finset ℕ} {served : ServedBlock} (hheight : block.height = height)
    (hread : archive.readBlockFilteredWithHash height filter = .ok served) :
    Retained archive filter block found ↔ Accepts block served.payload found := by
  rw [Retained, Accepts, FileArchive.servedResponse, hheight, hread, ok_bind]

theorem Produced.spendServed_iff (hp : Produced start blocks archive state A) (hc : Consecutive start blocks)
    (hk : k < A.length) {filter : StoredBlockResponseFilter} {uid : ℕ} :
    SpendServed archive filter (start + k) uid ↔ uid ∈ (archive.servedSets filter (start + k)).2 := by
  obtain ⟨-, served, hread, hserved⟩ := hp.serves hc (List.getElem?_eq_getElem hk) filter
  obtain ⟨response, uids, hdecoded, -, -, hspent, hsets⟩ := hserved.response
  rw [← hsets, List.mem_toFinset, SpendServed, FileArchive.servedResponse, hread, ok_bind]
  constructor
  · rintro ⟨response', uids', hdecoded', hspent', hmem⟩
    obtain rfl := Except.ok.inj (hdecoded.symm.trans hdecoded')
    obtain rfl := Except.ok.inj (hspent.symm.trans hspent')
    exact hmem
  · exact fun hmem => ⟨response, uids, hdecoded, hspent, hmem⟩

theorem Produced.retained_eq (hp : Produced start blocks archive state A) (hc : Consecutive start blocks)
    {a : AppliedBlock} (ha : A[k]? = some a) {filter : StoredBlockResponseFilter} {found : Finset ℕ}
    (hretained : Retained archive filter a.storageBlock found)
    (hle : runUids A k ∩ found ⊆ (archive.servedSets filter (start + k)).1) :
    runUids A k ∩ found = (archive.servedSets filter (start + k)).1 := by
  obtain ⟨hheight, served, hread, hserved⟩ := hp.serves hc ha filter
  rw [runUids_eq ha] at hle ⊢
  exact hserved.eq_of_le ((retained_iff_accepts hheight hread).mp hretained) hle

/-- Cut-through keeps an output unless it is spent up to its tip, at a height other than the one
whose number stands for unspent. -/
theorem Produced.mem_cut_adds (hp : Produced start blocks archive state A) (hc : Consecutive start blocks)
    (htip : tip < start + blocks.length) {i uid : ℕ} (hout : RunOutput A k i uid) (hfirst : first ≤ start + k) :
    uid ∈ (archive.servedSets (cutthroughFilter first tip labels) (start + k)).1 ↔
      ¬ ∃ s, SpentAt A (start + k) i s ∧ s ≤ tip ∧ s ≠ U32_MAX := by
  rw [hp.cut_adds hc htip hout.lt]
  constructor
  · rintro ⟨i', hout', hkept⟩ hspent
    obtain ⟨-, rfl⟩ := hout.unique hp.sequential hout'
    exact hkept ⟨hfirst, hspent⟩
  · exact fun hnot => ⟨i, hout, fun h => hnot h.2⟩

/-- Cut-through omits the spend of an output of its stretch up to its tip. -/
theorem Produced.spend_omitted (hp : Produced start blocks archive state A) (hc : Consecutive start blocks)
    {i uid s : ℕ} (hout : RunOutput A k i uid) (hfirst : first ≤ start + k) (hspent : SpentAt A (start + k) i s) :
    ¬ SpendServed archive (cutthroughFilter first tip labels) s uid ↔ s ≤ tip := by
  obtain ⟨-, -, -, b, hb, hi, j, a, ha, rfl, -⟩ := hp.spentAt_bounds hc hspent
  obtain ⟨hj, -⟩ := List.getElem?_eq_some_iff.mp ha
  rw [hp.spendServed_iff hc hj, hp.cut_removes hc hj]
  constructor
  · intro hnot
    by_contra hlt
    exact hnot ⟨k, i, hout, hspent, fun h => hlt h.1⟩
  · rintro hle ⟨k', i', hout', _, hkept⟩
    obtain ⟨rfl, -⟩ := hout.unique hp.sequential hout'
    exact hkept ⟨hle, hfirst⟩

/-! ## Folding -/

/-- A fold over blocks in order, where every block adds outputs of its own and removes outputs
that it spends. -/
theorem Produced.mem_exchange (hp : Produced start blocks archive state A) (hc : Consecutive start blocks)
    {ι : Type} {items : List ι} {index : ι → ℕ} {sets : ι → Finset ℕ × Finset ℕ}
    (hsorted : items.Pairwise fun x y => index x < index y)
    (hadded : ∀ x ∈ items, ∀ uid ∈ (sets x).1, ∃ i, RunOutput A (index x) i uid)
    (hremoved : ∀ x ∈ items, ∀ uid ∈ (sets x).2,
      ∃ j i, RunOutput A j i uid ∧ SpentAt A (start + j) i (start + index x)) (wallet : Finset ℕ) (uid : ℕ) :
    uid ∈ (items.map sets).foldl (fun s step => (s ∪ step.1) \ step.2) wallet ↔
      (uid ∈ wallet ∨ ∃ x ∈ items, uid ∈ (sets x).1) ∧ ∀ x ∈ items, uid ∉ (sets x).2 := by
  rw [mem_foldl_exchange]
  · simp only [List.mem_map, exists_exists_and_eq_and, forall_exists_index, and_imp]
    refine and_congr_right fun _ => ⟨fun h x hx => h _ x hx rfl, ?_⟩
    intro h step x hx heq
    exact heq ▸ h x hx
  · rw [List.pairwise_map]
    refine List.Pairwise.imp_of_mem ?_ hsorted
    intro x y hx hy hlt
    rw [Finset.disjoint_left]
    intro uid hout hin
    -- a block does not spend what a later block creates
    obtain ⟨j, i, hj, hspent⟩ := hremoved x hx uid hout
    obtain ⟨i', hcreated⟩ := hadded y hy uid hin
    obtain ⟨rfl, -⟩ := hj.unique hp.sequential hcreated
    obtain ⟨-, hle, -⟩ := hp.spentAt_bounds hc hspent
    omega

theorem Produced.mem_fold (hp : Produced start blocks archive state A) (hc : Consecutive start blocks)
    {sets : ℕ → Finset ℕ × Finset ℕ} {low count : ℕ}
    (hadded : ∀ k uid, low ≤ k → k < low + count → uid ∈ (sets k).1 → ∃ i, RunOutput A k i uid)
    (hremoved : ∀ k uid, low ≤ k → k < low + count → uid ∈ (sets k).2 →
      ∃ j i, RunOutput A j i uid ∧ SpentAt A (start + j) i (start + k)) (wallet : Finset ℕ) (uid : ℕ) :
    uid ∈ ((List.range' low count).map sets).foldl (fun s step => (s ∪ step.1) \ step.2) wallet ↔
      (uid ∈ wallet ∨ ∃ k, (low ≤ k ∧ k < low + count) ∧ uid ∈ (sets k).1) ∧
        ∀ k, low ≤ k → k < low + count → uid ∉ (sets k).2 := by
  have h := @Produced.mem_exchange _ start blocks archive state A hp hc ℕ (List.range' low count) id sets
    List.pairwise_lt_range' ?_ ?_ wallet uid
  · simpa only [List.mem_range'_1, and_imp] using h
  · intro k hk uid hadd
    rw [List.mem_range'_1] at hk
    exact hadded k uid hk.1 hk.2 hadd
  · intro k hk uid hremove
    rw [List.mem_range'_1] at hk
    exact hremoved k uid hk.1 hk.2 hremove

theorem runClient_blockAt (hseq : sequential blocks = .ok (state, A)) (hc : Consecutive start blocks)
    {a : AppliedBlock} (ha : A[k]? = some a) (found : Finset ℕ) :
    (runClient A found).blockAt (start + k) = some a.storageBlock := by
  have hheight : ∀ j b, A[j]? = some b → b.storageBlock.height = start + j := by
    intro j b hb
    obtain ⟨-, scan, s, s', hspec, hscan⟩ := sequential_get hseq hc hb
    exact hspec.height.trans hscan
  have hmem : a.storageBlock ∈ A.map (·.storageBlock) := List.mem_map_of_mem (List.mem_of_getElem? ha)
  unfold Client.blockAt
  have hsome : ((A.map (·.storageBlock)).find? fun block => decide (block.height = start + k)).isSome := by
    rw [List.find?_isSome]
    exact ⟨a.storageBlock, hmem, decide_eq_true (hheight k a ha)⟩
  obtain ⟨block, hfind⟩ := Option.isSome_iff_exists.mp hsome
  have hblock := List.find?_some hfind
  rw [decide_eq_true_iff] at hblock
  obtain ⟨b, hb, rfl⟩ := List.mem_map.mp (List.mem_of_find?_eq_some hfind)
  obtain ⟨j, hj⟩ := List.mem_iff_getElem?.mp hb
  obtain rfl : j = k := by
    have := hheight j b hj
    omega
  obtain rfl := Option.some.inj (ha.symm.trans hj)
  exact hfind

theorem Produced.clientFold_eq_ok (hp : Produced start blocks archive state A) (hc : Consecutive start blocks)
    (filter : StoredBlockResponseFilter) {low count : ℕ} (hrange : low + count ≤ A.length) {found : Finset ℕ}
    {wallet wallet' : Finset ℕ} :
    archive.clientFold (runClient A found) filter wallet (List.range' (start + low) count) = .ok wallet' ↔
      (∀ k ∈ List.range' low count, ∃ a, A[k]? = some a ∧ Retained archive filter a.storageBlock found) ∧
      wallet' = ((List.range' low count).map fun k => (runUids A k ∩ found,
        (archive.servedSets filter (start + k)).2)).foldl (fun s step => (s ∪ step.1) \ step.2) wallet := by
  rw [FileArchive.clientFold, ← List.map_add_range', List.foldlM_map]
  refine foldlM_exchange_eq_ok fun k hk wallet wallet' => ?_
  rw [List.mem_range'_1] at hk
  have ha : A[k]? = some A[k] := List.getElem?_eq_getElem (by omega)
  obtain ⟨hheight, served, hread, hserved⟩ := hp.serves hc ha filter
  rw [hread, ok_bind, hserved.block_eq_ok (runClient_blockAt hp.sequential hc ha found), runUids_eq ha,
    ← retained_iff_accepts hheight hread, ha]
  simp only [Option.some.injEq, exists_eq_left']
  rfl

theorem Produced.clientFold_served (hp : Produced start blocks archive state A) (hc : Consecutive start blocks)
    (filter : StoredBlockResponseFilter) {low count : ℕ} (hrange : low + count ≤ A.length) {found : Finset ℕ}
    (hfound : ∀ k ∈ List.range' low count, runUids A k ∩ found = (archive.servedSets filter (start + k)).1)
    (wallet : Finset ℕ) :
    archive.clientFold (runClient A found) filter wallet (List.range' (start + low) count) = .ok
      (((List.range' low count).map fun k => archive.servedSets filter (start + k)).foldl
        (fun s step => (s ∪ step.1) \ step.2) wallet) := by
  refine (hp.clientFold_eq_ok hc filter hrange).mpr ⟨fun k hk => ?_, ?_⟩
  · have hlt : k < A.length := by
      rw [List.mem_range'_1] at hk
      omega
    have ha : A[k]? = some A[k] := List.getElem?_eq_getElem hlt
    obtain ⟨hheight, served, hread, hserved⟩ := hp.serves hc ha filter
    refine ⟨_, ha, (retained_iff_accepts hheight hread).mpr (hserved.accepts ?_)⟩
    rw [← runUids_eq ha]
    exact hfound k hk
  · exact congrArg _ (List.map_congr_left fun k hk => by rw [hfound k hk])

/-- The two filters leave the same wallet when every output that is spent up to the tip is
omitted. -/
theorem Produced.folds_equal (hp : Produced start blocks archive state A) (hc : Consecutive start blocks)
    (htip : tip < start + blocks.length) {low count : ℕ}
    (hrange : low + count = tip + 1 - start) (hbelow : ∀ k, k < low + count → k < A.length)
    (hno : ∀ k i, first ≤ start + k → SpentAt A (start + k) i U32_MAX → ¬ U32_MAX ≤ tip) {wallet : Finset ℕ}
    (hold : ∀ uid ∈ wallet, ∀ k i, RunOutput A k i uid → start + k < first) :
    ((List.range' low count).map fun k => archive.servedSets (plainFilter labels) (start + k)).foldl
        (fun s step => (s ∪ step.1) \ step.2) wallet =
      ((List.range' low count).map fun k => archive.servedSets (cutthroughFilter first tip labels) (start + k)).foldl
        (fun s step => (s ∪ step.1) \ step.2) wallet := by
  refine Eq.symm (Finset.ext fun uid => ?_)
  have hcutadds : ∀ k uid, low ≤ k → k < low + count →
      uid ∈ (archive.servedSets (cutthroughFilter first tip labels) (start + k)).1 → ∃ i, RunOutput A k i uid := by
    intro k uid _ hk h
    obtain ⟨i, hout, -⟩ := (hp.cut_adds hc htip (hbelow k hk)).mp h
    exact ⟨i, hout⟩
  have hcutremoves : ∀ k uid, low ≤ k → k < low + count →
      uid ∈ (archive.servedSets (cutthroughFilter first tip labels) (start + k)).2 →
      ∃ j i, RunOutput A j i uid ∧ SpentAt A (start + j) i (start + k) := by
    intro k uid _ hk h
    obtain ⟨j, i, hout, hspent, -⟩ := (hp.cut_removes hc (hbelow k hk)).mp h
    exact ⟨j, i, hout, hspent⟩
  have hadds : ∀ k uid, low ≤ k → k < low + count →
      uid ∈ (archive.servedSets (plainFilter labels) (start + k)).1 → ∃ i, RunOutput A k i uid :=
    fun k uid _ hk h => (hp.plain_adds hc (hbelow k hk)).mp h
  have hremoves : ∀ k uid, low ≤ k → k < low + count →
      uid ∈ (archive.servedSets (plainFilter labels) (start + k)).2 →
      ∃ j i, RunOutput A j i uid ∧ SpentAt A (start + j) i (start + k) :=
    fun k uid _ hk h => (hp.plain_removes hc (hbelow k hk)).mp h
  rw [hp.mem_fold hc hcutadds hcutremoves, hp.mem_fold hc hadds hremoves]
  constructor
  · rintro ⟨hin, hkept⟩
    refine ⟨hin.imp_right ?_, ?_⟩
    · rintro ⟨k, hk, hadd⟩
      exact ⟨k, hk, (hp.plain_adds hc (hbelow k hk.2)).mpr (hcutadds k uid hk.1 hk.2 hadd)⟩
    · intro k hlo hhi hremove
      obtain ⟨j, i, hout, hspent⟩ := (hp.plain_removes hc (hbelow k hhi)).mp hremove
      have hcut := hkept k hlo hhi
      rw [hp.cut_removes hc (hbelow k hhi)] at hcut
      -- the spend is omitted, so the output is one of the stretch and omitted as well
      obtain ⟨hktip, hfirst⟩ : start + k ≤ tip ∧ first ≤ start + j := by
        by_contra hserved
        exact hcut ⟨j, i, hout, hspent, hserved⟩
      rcases hin with hwallet | ⟨k', hk', hadd⟩
      · exact absurd (hold uid hwallet j i hout) (not_lt.mpr hfirst)
      · obtain ⟨i', hout', hserved⟩ := (hp.cut_adds hc htip (hbelow k' hk'.2)).mp hadd
        obtain ⟨rfl, rfl⟩ := hout.unique hp.sequential hout'
        refine hserved ⟨hfirst, _, hspent, hktip, fun hmax => ?_⟩
        exact hno j i hfirst (hmax ▸ hspent) (hmax ▸ hktip)
  · rintro ⟨hin, hkept⟩
    refine ⟨hin.imp_right ?_, ?_⟩
    · rintro ⟨k, hk, hadd⟩
      obtain ⟨i, hout⟩ := (hp.plain_adds hc (hbelow k hk.2)).mp hadd
      refine ⟨k, hk, (hp.cut_adds hc htip (hbelow k hk.2)).mpr ⟨i, hout, ?_⟩⟩
      -- were it omitted, a block of the stretch would remove it
      rintro ⟨_, s, hspent, hs, _⟩
      obtain ⟨-, hle', -, -, -, -, k', -, -, rfl, -⟩ := hp.spentAt_bounds hc hspent
      have hk' : k' < low + count := by omega
      exact hkept k' (by omega) hk' ((hp.plain_removes hc (hbelow k' hk')).mpr ⟨k, i, hout, hspent⟩)
    · intro k hlo hhi hremove
      exact hkept k hlo hhi ((hp.plain_removes hc (hbelow k hhi)).mpr (hcutremoves k uid hlo hhi hremove))

/-- An output that is spent at the last height of the stored field is kept, though the spend
is not. -/
theorem Produced.unbalanced (hp : Produced start blocks archive state A) (hc : Consecutive start blocks)
    (htip : tip < start + blocks.length) (hmax : U32_MAX ≤ tip) {i : ℕ} (hfirst : first ≤ start + k)
    (hspent : SpentAt A (start + k) i U32_MAX) (found : Finset ℕ) :
    ¬ Balanced archive start A first tip labels found := by
  intro hbal
  obtain ⟨uid, hout⟩ := hp.spentAt_output hc hspent
  obtain ⟨-, hle, -⟩ := hp.spentAt_bounds hc hspent
  have hktip : start + k ≤ tip := hle.trans hmax
  obtain ⟨a, ha, -⟩ := hout.exists_block
  have hkept : runUids A k ∩ found ⊆ (archive.servedSets (cutthroughFilter first tip labels) (start + k)).1 := by
    intro uid' hmem
    obtain ⟨hrun, hfound⟩ := Finset.mem_inter.mp hmem
    obtain ⟨i', hout'⟩ := mem_runUids.mp hrun
    rw [hp.mem_cut_adds hc htip hout' hfirst]
    rintro ⟨s, hs, hstip, -⟩
    exact (hbal.output k i' uid' hout' hfirst hktip).mpr ⟨s, hs, hstip⟩ hfound
  -- so the response retains just what the server keeps, and the server keeps the output
  have hserver : uid ∈ (archive.servedSets (cutthroughFilter first tip labels) (start + k)).1 := by
    rw [hp.mem_cut_adds hc htip hout hfirst]
    rintro ⟨s, hs, -, hne⟩
    exact hne (hp.spentAt_unique hc hs hspent)
  rw [← hp.retained_eq hc ha (hbal.retained k a ha hfirst hktip) hkept] at hserver
  exact (hbal.output k i uid hout hfirst hktip).mpr ⟨_, hspent, hmax⟩ (Finset.mem_inter.mp hserver).2

/-- The outputs that the server keeps in a stretch of blocks, as one set. -/
theorem Produced.exists_kept (hp : Produced start blocks archive state A) (hc : Consecutive start blocks)
    (htip : tip < start + blocks.length) {low count : ℕ} (hrange : low + count ≤ A.length) :
    ∃ found, ∀ k ∈ List.range' low count,
      runUids A k ∩ found = (archive.servedSets (cutthroughFilter first tip labels) (start + k)).1 := by
  refine exists_found hp.sequential List.pairwise_lt_range' fun k hk uid hmem => ?_
  rw [List.mem_range'_1] at hk
  obtain ⟨i, hout, -⟩ := (hp.cut_adds hc htip (by omega)).mp hmem
  exact mem_runUids.mpr ⟨i, hout⟩

/-- Without cut-through the server keeps all outputs. -/
theorem Produced.inter_outputUids (hp : Produced start blocks archive state A) (hc : Consecutive start blocks)
    (hk : k < A.length) :
    runUids A k ∩ outputUids A = (archive.servedSets (plainFilter labels) (start + k)).1 := by
  have hsub : runUids A k ⊆ outputUids A := Finset.subset_biUnion_of_mem (runUids A) (Finset.mem_range.mpr hk)
  ext uid
  rw [Finset.inter_eq_left.mpr hsub, mem_runUids, hp.plain_adds hc hk]

/-- Unless an output of the stretch is spent at that height, what the server keeps is balanced. -/
theorem Produced.balanced (hp : Produced start blocks archive state A) (hc : Consecutive start blocks)
    (hle : first ≤ tip) (htip : tip < start + blocks.length)
    (hno : ¬ (U32_MAX ≤ tip ∧ ∃ k i, first ≤ start + k ∧ SpentAt A (start + k) i U32_MAX)) :
    ∃ found, Balanced archive start A first tip labels found := by
  have hlen := hp.length_eq
  obtain ⟨low, hlow⟩ := Nat.exists_eq_add_of_le (le_max_right first start)
  obtain ⟨count, hcount⟩ : ∃ count, tip + 1 - (start + low) = count := ⟨_, rfl⟩
  have hrange : low + count ≤ A.length := by omega
  have hlater : ∀ k i s, first ≤ start + k → SpentAt A (start + k) i s → s ≤ tip → s ≠ U32_MAX := by
    intro k i s hfirst hspent hs heq
    subst heq
    exact hno ⟨hs, k, i, hfirst, hspent⟩
  obtain ⟨found, hfound⟩ : ∃ found, ∀ k ∈ List.range' low count, runUids A k ∩ found =
      (archive.servedSets (cutthroughFilter first tip labels) (start + k)).1 := hp.exists_kept hc htip hrange
  have hin : ∀ k, first ≤ start + k → start + k ≤ tip → k ∈ List.range' low count := by
    intro k hfirst hktip
    rw [List.mem_range'_1]
    omega
  -- what is not found is spent up to the tip
  have homitted : ∀ k i uid, RunOutput A k i uid → first ≤ start + k → start + k ≤ tip →
      (uid ∉ found ↔ ∃ s, SpentAt A (start + k) i s ∧ s ≤ tip ∧ s ≠ U32_MAX) := by
    intro k i uid hout hfirst hktip
    rw [← not_iff_not, ← hp.mem_cut_adds hc htip hout hfirst, ← hfound k (hin k hfirst hktip), Finset.mem_inter,
      not_not]
    exact (and_iff_right (mem_runUids.mpr ⟨i, hout⟩)).symm
  refine ⟨found, ?_, ?_, ?_, ?_, ?_⟩
  · intro k a ha hfirst hktip
    obtain ⟨hheight, served, hread, hserved⟩ := hp.serves hc ha (cutthroughFilter first tip labels)
    refine (retained_iff_accepts hheight hread).mpr (hserved.accepts ?_)
    rw [← runUids_eq ha]
    exact hfound k (hin k hfirst hktip)
  · intro k i uid hout hfirst hktip
    rw [homitted k i uid hout hfirst hktip]
    constructor
    · rintro ⟨s, hspent, hs, _⟩
      exact ⟨s, hspent, hs⟩
    · rintro ⟨s, hspent, hs⟩
      exact ⟨s, hspent, hs, hlater k i s hfirst hspent hs⟩
  · intro k i uid s hout hfirst hktip hspent
    rw [homitted k i uid hout hfirst hktip, hp.spend_omitted hc hout hfirst hspent]
    constructor
    · rintro ⟨s', hspent', hs, _⟩
      exact hp.spentAt_unique hc hspent' hspent ▸ hs
    · intro hs
      exact ⟨s, hspent, hs, hlater k i s hfirst hspent hs⟩
  · intro k uid hfirst hktip hserved hdropped
    have hk : k < A.length := by omega
    rw [hp.spendServed_iff hc hk, hp.plain_removes hc hk] at hserved
    obtain ⟨j, i, hout, hspent⟩ := hserved
    obtain ⟨-, hjk, -⟩ := hp.spentAt_bounds hc hspent
    refine ⟨j, i, hout, ?_, hjk.trans hktip, hspent⟩
    by_contra hold
    rw [hp.spendServed_iff hc hk, hp.cut_removes hc hk] at hdropped
    exact hdropped ⟨j, i, hout, hspent, fun h => hold h.2⟩
  · intro wallet hold
    have hall : ∀ k ∈ List.range' low count, runUids A k ∩ outputUids A =
        (archive.servedSets (plainFilter labels) (start + k)).1 := by
      intro k hk
      rw [List.mem_range'_1] at hk
      exact hp.inter_outputUids hc (by omega)
    rw [servedHeights, hlow, hcount, hp.clientFold_served hc _ hrange hfound, hp.clientFold_served hc _ hrange hall]
    refine ⟨_, rfl, congrArg Except.ok ?_⟩
    refine hp.folds_equal hc htip (by omega) (fun k hk => by omega) ?_ hold
    exact fun k i hfirst hspent hmax => hno ⟨hmax, k, i, hfirst, hspent⟩

theorem Produced.retained_unique (hp : Produced start blocks archive state A) (hc : Consecutive start blocks)
    {a : AppliedBlock} (ha : A[k]? = some a) {filter : StoredBlockResponseFilter}
    (hapart : ∀ response, archive.servedResponse filter (start + k) = .ok response →
      a.storageBlock.HashesApart response) {found found' : Finset ℕ}
    (h : Retained archive filter a.storageBlock found) (h' : Retained archive filter a.storageBlock found') :
    ∀ i uid, RunOutput A k i uid → (uid ∈ found ↔ uid ∈ found') := by
  obtain ⟨hheight, served, hread, hserved⟩ := hp.serves hc ha filter
  have hone : ∀ found, Retained archive filter a.storageBlock found →
      runUids A k ∩ found = (archive.servedSets filter (start + k)).1 := by
    intro found hretained
    rw [runUids_eq ha]
    refine hserved.unique ((retained_iff_accepts hheight hread).mp hretained) fun response hdecoded => ?_
    exact hapart response (by rw [FileArchive.servedResponse, hread, ok_bind, hdecoded])
  intro i uid hout
  have heq := Finset.ext_iff.mp ((hone found h).trans (hone found' h').symm) uid
  simpa only [Finset.mem_inter, mem_runUids.mpr ⟨i, hout⟩, true_and] using heq

/-- Cut-through is balanced unless it reaches the last height of the stored field and a block
there spends an output of the stretch. The responses say which outputs they retain wherever the
hashes of each transaction differ. -/
theorem balanced_iff (hp : Produced start blocks archive state A) (hc : Consecutive start blocks)
    (hle : first ≤ tip) (htip : tip < start + blocks.length) :
    ((∃ found, Balanced archive start A first tip labels found) ↔
      ¬ (U32_MAX ≤ tip ∧ ∃ k i, first ≤ start + k ∧ SpentAt A (start + k) i U32_MAX)) ∧
    ∀ k a, A[k]? = some a → (∀ response, archive.servedResponse (cutthroughFilter first tip labels) (start + k) =
        .ok response → a.storageBlock.HashesApart response) →
      ∀ found found', Retained archive (cutthroughFilter first tip labels) a.storageBlock found →
        Retained archive (cutthroughFilter first tip labels) a.storageBlock found' →
        ∀ i uid, RunOutput A k i uid → (uid ∈ found ↔ uid ∈ found') := by
  refine ⟨⟨?_, hp.balanced hc hle htip⟩, fun k a ha hapart found found' h h' => hp.retained_unique hc ha hapart h h'⟩
  rintro ⟨found, hbal⟩ ⟨hmax, k, i, hfirst, hspent⟩
  exact hp.unbalanced hc htip hmax hfirst hspent found hbal

end

section
attribute [local instance] sampleExternals

/-- The archive of the first two sample blocks. -/
def twoBlockActions : List Action :=
  [.start, sampleCatchUp 102 sampleChain] ++ List.replicate 7 .effect

theorem twoBlockActions_onChain : OnChain sampleChain twoBlockActions := by
  intro tuning best fetch hmem
  simp only [twoBlockActions, sampleCatchUp, List.mem_append, List.mem_cons, List.mem_replicate, reduceCtorEq,
    Action.catchUp.injEq, List.not_mem_nil, and_false, or_false, false_or] at hmem
  rw [hmem.2.2]
  exact sampleFetch_honest

/-- A block that creates an output and spends it, at the last height of the stored field. -/
def lastConfig : IndexerConfig :=
  { network := "regtest", emitStartHeight := 4294967295, finalityDepth := 1 }

def lastChain : List BlockScanInput :=
  [sampleBlock 4294967295 1 0 [sampleTx 10 0 [] [1], sampleTx 11 1 [⟨sampleId 10, 0⟩] []]]

def lastActions : List Action :=
  [.start, sampleCatchUp 4294967296 lastChain] ++ List.replicate 6 .effect

theorem lastChain_valid : ValidChain lastConfig.emitStartHeight lastChain where
  heights := by decide
  createdOnce := by decide +kernel
  spentOnce := by
    intro before outpoint after h
    have hnd : (chainEvents lastChain).Nodup := by decide +kernel
    rw [h] at hnd
    exact List.nodup_iff_count_le_one.mp (List.nodup_cons.mp (List.nodup_append.mp hnd).2.1).2 _
  notNull := by decide +kernel

theorem lastActions_onChain : OnChain lastChain lastActions := by
  intro tuning best fetch hmem
  simp only [lastActions, sampleCatchUp, List.mem_append, List.mem_cons, List.mem_replicate, reduceCtorEq,
    Action.catchUp.injEq, List.not_mem_nil, and_false, or_false, false_or] at hmem
  rw [hmem.2.2]
  intro start count chunk h
  obtain rfl := Except.ok.inj h
  simp only [lastChain, List.filter_cons, List.filter_nil]
  split_ifs
  · exact List.infix_rfl
  · exact List.nil_infix

/-- The block at the last height serves its output and not the spend of it. -/
theorem last_height_unbalanced : ∃ sys state A,
    run (step lastConfig) System.init lastActions = some sys ∧
      Produced 4294967295 lastChain sys.disk.archive state A ∧ Consecutive 4294967295 lastChain ∧
      ¬ ∃ found, Balanced sys.disk.archive 4294967295 A 4294967295 4294967295 none found := by
  have hrun : ((run (step lastConfig) System.init lastActions).any fun sys =>
      sys.disk.indexStore.tip.any fun tip => decide (tip.height = 4294967295)) = true := by
    decide +kernel
  have hspends : ((sequential lastChain).toOption.any fun p =>
      decide (allSpends p.2 = [(4294967295, 0, 4294967295)])) = true := by
    decide +kernel
  obtain ⟨sys, hsys, htip⟩ := (Option.any_eq_true _ _).mp hrun
  obtain ⟨tip, ht, hheight⟩ := (Option.any_eq_true _ _).mp htip
  obtain ⟨-, state, A, hp⟩ := produced_of_tip lastChain_valid lastActions_onChain hsys ht (n := 1)
    (by rw [of_decide_eq_true hheight]; rfl)
  rw [show lastChain.take 1 = lastChain from rfl] at hp
  rw [hp.sequential] at hspends
  have hspent : SpentAt A (4294967295 + 0) 0 U32_MAX :=
    ⟨0, rfl, by rw [of_decide_eq_true hspends]; exact List.mem_singleton.mpr rfl⟩
  have hc : Consecutive 4294967295 lastChain := rfl
  exact ⟨sys, state, A, hsys, hp, hc, not_exists.mpr (hp.unbalanced hc (by decide) (by decide) (by decide) hspent)⟩

theorem balanced_sample : ∃ sys state A, run (step sampleConfig) System.init twoBlockActions = some sys ∧
    Produced 100 (sampleChain.take 2) sys.disk.archive state A ∧ SpentAt A 100 1 101 ∧
      ∃ found, Balanced sys.disk.archive 100 A 100 101 none found := by
  have hrun : ((run (step sampleConfig) System.init twoBlockActions).any fun sys =>
      sys.disk.indexStore.tip.any fun tip => decide (tip.height = 101)) = true := by
    decide +kernel
  have hspends : ((sequential (sampleChain.take 2)).toOption.any fun p =>
      decide (allSpends p.2 = [(100, 1, 101)])) = true := by
    decide +kernel
  obtain ⟨sys, hsys, htip⟩ := (Option.any_eq_true _ _).mp hrun
  obtain ⟨tip, ht, hheight⟩ := (Option.any_eq_true _ _).mp htip
  obtain ⟨-, state, A, hp⟩ := produced_of_tip sampleChain_valid twoBlockActions_onChain hsys ht (n := 2)
    (by rw [of_decide_eq_true hheight]; rfl)
  rw [hp.sequential] at hspends
  have hspent : SpentAt A 100 1 101 :=
    ⟨1, rfl, by rw [of_decide_eq_true hspends]; exact List.mem_singleton.mpr rfl⟩
  refine ⟨sys, state, A, hsys, hp, hspent, ?_⟩
  refine (balanced_iff hp rfl (by decide) (by decide)).1.mpr ?_
  rintro ⟨hmax, _⟩
  exact absurd hmax (by decide)

end

end BitcoinData
