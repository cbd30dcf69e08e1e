import BitcoinData.Sanity.ChainRun

/-! Block files above the committed tip. A window that was stopped leaves files behind; on one
chain they are the files that the next window writes again, up to the spent heights. -/

namespace BitcoinData

open Lib

section
variable [Externals] {config : IndexerConfig} {chain : List BlockScanInput}

/-- Block `k` of the chain, as the sequential indexer applies it. -/
def AppliedAt (chain : List BlockScanInput) (k : ℕ) (a : AppliedBlock) : Prop :=
  ∃ n S A, sequential (chain.take n) = .ok (S, A) ∧ A[k]? = some a

theorem AppliedAt.unique {k : ℕ} {a b : AppliedBlock} (ha : AppliedAt chain k a)
    (hb : AppliedAt chain k b) : a = b := by
  obtain ⟨n, S, A, hA, ha⟩ := ha
  obtain ⟨m, T, B, hB, hb⟩ := hb
  rcases le_total n m with hle | hle
  · obtain ⟨C, rfl, -⟩ := sequential_take_append hA hB hle
    rw [List.getElem?_append_left (List.getElem?_eq_some_iff.mp ha).1, ha, Option.some.injEq] at hb
    exact hb
  · obtain ⟨C, rfl, -⟩ := sequential_take_append hB hA hle
    rw [List.getElem?_append_left (List.getElem?_eq_some_iff.mp hb).1, hb, Option.some.injEq] at ha
    exact ha.symm

theorem SpentOn.le (hv : ValidChain config.emitStartHeight chain) {height s : ℕ} {i : UInt32}
    (h : SpentOn chain height i s) : height ≤ s := by
  obtain ⟨n, S, A, hA, hmem⟩ := h
  obtain ⟨k, a, ha, hs, hk, spent, hspent, heq⟩ := hv.spend_height hA hmem
  -- the run up to the spending block has created the output already
  have hsplit : chain.take n = chain.take (k + 1) ++ (chain.drop (k + 1)).take (n - (k + 1)) := by
    rw [← List.take_add, Nat.add_sub_cancel' hk]
  rw [hsplit] at hA
  obtain ⟨S₁, A₁, B, hA₁, -, rfl⟩ := applyBlocks_append_eq_ok.mp hA
  have hlen : A₁.length = k + 1 := by
    have hall := (List.getElem?_eq_some_iff.mp ha).1
    rw [applyBlocks_length hA, ← hsplit, List.length_take] at hall
    rw [applyBlocks_length hA₁, List.length_take]
    omega
  rw [List.getElem?_append_left (by omega)] at ha
  have hpair : spentPair spent ∈ spentPairs A₁ :=
    List.mem_flatMap.mpr ⟨a, List.mem_of_getElem? ha, List.mem_map_of_mem hspent⟩
  have hlt := hv.created_height_lt hA₁ ((hv.runSpends hA₁).created _ hpair)
  have hheight : (spentPair spent).2.creationHeight = height := congrArg Prod.fst heq
  omega

/-- The first `count` heights have files, and no others: each holds its block of the chain,
and its marks are spends of the chain. -/
structure Drafts (config : IndexerConfig) (chain : List BlockScanInput) (archive : FileArchive)
    (count : ℕ) : Prop where
  file : ∀ k < count, ∃ block a, archive.Stored (config.emitStartHeight + k) block ∧
    AppliedAt chain k a ∧ block.unmarked = a.storageBlock.normalised.unmarked
  bounds : ∀ height ∈ archive.blocks.keys, config.emitStartHeight ≤ height ∧
    height < config.emitStartHeight + count
  marks : ∀ bound, MarksTrue chain archive bound

theorem Drafts.init : Drafts config chain FileArchive.empty 0 where
  file k hk := absurd hk (Nat.not_lt_zero k)
  bounds height h := by simp [FileArchive.empty] at h
  marks bound height block i hlt hs := by
    obtain ⟨bytes, hlookup, -⟩ := hs
    simp [FileArchive.empty] at hlookup

omit [Externals] in
theorem mem_keys_of_lookup {archive : FileArchive} {height : ℕ} {bytes : Bytes}
    (h : archive.blocks.lookup height = some bytes) : height ∈ archive.blocks.keys :=
  Finmap.mem_keys.mpr (Finmap.mem_of_lookup_eq_some h)

theorem Stored.mem_keys {archive : FileArchive} {height : ℕ} {block : StoredLightBlockInput}
    (h : archive.Stored height block) : height ∈ archive.blocks.keys := by
  obtain ⟨bytes, hlookup, -⟩ := h
  exact mem_keys_of_lookup hlookup

omit [Externals] in
theorem mem_keys_write {archive : FileArchive} {height height' : ℕ} {bytes : Bytes} :
    height ∈ (archive.writeBlockBytes height' bytes).blocks.keys ↔
      height = height' ∨ height ∈ archive.blocks.keys := by
  rw [FileArchive.writeBlockBytes, Finmap.mem_keys, Finmap.mem_insert, Finmap.mem_keys]

theorem Drafts.write {archive : FileArchive} {count k : ℕ} {a : AppliedBlock} {payload : Bytes}
    (hd : Drafts config chain archive count) (hk : k ≤ count) (ha : AppliedAt chain k a)
    (hdec : decodeStoredLightBlock payload = .ok a.storageBlock.normalised)
    (hfresh : ∀ i, a.storageBlock.normalised.mark i = STORAGE_SPENT_HEIGHT_UNSPENT) :
    Drafts config chain (archive.writeBlockBytes (config.emitStartHeight + k) payload)
      (max count (k + 1)) where
  file j hj := by
    by_cases hjk : j = k
    · subst hjk
      exact ⟨_, a, FileArchive.stored_writeBlockBytes_self.mpr hdec, ha, rfl⟩
    · obtain ⟨block, b, hs, hb, hu⟩ := hd.file j (by omega)
      exact ⟨block, b, (FileArchive.stored_writeBlockBytes_of_ne (by omega)).mpr hs, hb, hu⟩
  bounds height h := by
    rcases mem_keys_write.mp h with rfl | hold
    · omega
    · have := hd.bounds height hold
      omega
  marks bound height block i hlt hs hi hne := by
    by_cases heq : height = config.emitStartHeight + k
    · subst heq
      have hblock := FileArchive.stored_writeBlockBytes_self.mp hs
      rw [hdec, Except.ok.injEq] at hblock
      rw [← hblock] at hne
      exact absurd (hfresh i) hne
    · exact hd.marks bound height block i hlt ((FileArchive.stored_writeBlockBytes_of_ne heq).mp hs) hi hne

theorem Drafts.mark {archive archive' : FileArchive} {count height₀ updated : ℕ}
    {marks : List (UInt32 × UInt32)} (hd : Drafts config chain archive count)
    (hm : archive.markCreationBlock (height₀, marks) = .ok (archive', updated))
    (hspent : ∀ m ∈ marks, SpentOn chain height₀ m.1 m.2.toNat) :
    Drafts config chain archive' count where
  file k hk := by
    obtain ⟨block, a, hs, ha, hu⟩ := hd.file k hk
    obtain ⟨block', hs', hu'⟩ := FileArchive.kept_markCreationBlock hm _ block hs
    exact ⟨block', a, hs', ha, hu'.trans hu⟩
  bounds height h := by
    rcases FileArchive.markCreationBlock_eq_ok hm with ⟨-, rfl⟩ | ⟨block, bytes, hs, rfl, -, -⟩
    · exact hd.bounds height h
    · rcases mem_keys_write.mp h with rfl | hold
      · exact hd.bounds height (Stored.mem_keys hs)
      · exact hd.bounds height hold
  marks bound := (hd.marks bound).mark hm hspent

theorem Drafts.committed {disk : Disk} {count n : ℕ} (hd : Drafts config chain disk.archive count)
    (hfiles : ChainFiles config disk.archive disk.indexStore)
    (hnext : nextHeight config disk.indexStore = config.emitStartHeight + n) : n ≤ count := by
  by_contra hlt
  obtain ⟨block, hs, -⟩ := hfiles.file (config.emitStartHeight + count) (by omega) (by omega)
  have := hd.bounds _ (Stored.mem_keys hs)
  omega

theorem Drafts.step {sys sys' : System} {a : Action} {count : ℕ}
    (hv : ValidChain config.emitStartHeight chain) (hi : ChainInv config chain sys)
    (hd : Drafts config chain sys.disk.archive count) (h : Steps config sys a sys') :
    ∃ count', count ≤ count' ∧ Drafts config chain sys'.disk.archive count' := by
  obtain ⟨n, S, A, hf, hstage⟩ := hi.follows
  cases h with
  | start hs =>
    obtain ⟨network, startHeight, rfl, rfl⟩ := startProcess_eq_ok hs
    exact ⟨count, le_rfl, hd⟩
  | stop => exact ⟨count, le_rfl, hd⟩
  | window hw => exact ⟨count, le_rfl, hd⟩
  | @write disk state next window p rest =>
    obtain ⟨hflight, written, hp, hwritten⟩ := hi.base.inFlight rfl
    obtain ⟨⟨t, hw⟩, -⟩ : _ ∧ _ := hstage _ rfl
    obtain ⟨hheight, -, hdec, -⟩ := hflight.write_height hp
    obtain ⟨start, done, hspec⟩ := hflight.spec
    have hA := hf.length_applied
    -- the blocks of the window as the sequential indexer applies them
    have hat : ∀ (j : ℕ) (q : Pending), window.pending[j]? = some q → AppliedAt chain (n + j) q.applied ∧
        q.applied.storageBlock.height = config.emitStartHeight + (n + j) := by
      intro j q hq
      have hget : (A ++ window.pending.map (·.applied))[n + j]? = some q.applied := by
        rw [List.getElem?_append_right (by omega), hA, Nat.add_sub_cancel_left, List.getElem?_map, hq]
        rfl
      obtain ⟨-, scan, s, s', happlied, hscan⟩ := hv.applied_get (hw.seq hf.seq) hget
      exact ⟨⟨_, _, _, hw.seq hf.seq, hget⟩, happlied.height.trans hscan⟩
    have hlast : window.pending[written.length]? = some p := by
      rw [hp, List.getElem?_append_right le_rfl, Nat.sub_self]
      rfl
    obtain ⟨hpat, hpheight⟩ := hat written.length p hlast
    have hle : n + written.length ≤ count := by
      rcases List.eq_nil_or_concat' written with rfl | ⟨init, q, rfl⟩
      · exact hd.committed hi.base.files hf.next
      · obtain ⟨block, hs, -⟩ := hwritten q (by simp)
        have hq : window.pending[init.length]? = some q := by
          rw [hp]
          simp
        have hbound := (hd.bounds _ (Stored.mem_keys hs)).2
        rw [(hat init.length q hq).2] at hbound
        rw [List.length_append, List.length_singleton]
        omega
    refine ⟨max count (n + written.length + 1), le_max_left _ _, ?_⟩
    have hdraft := hd.write hle hpat hdec (mark_normalised hspec (by rw [hp]; simp))
    rw [hheight, hpheight]
    exact hdraft
  | group hg => exact ⟨count, le_rfl, hd⟩
  | mark hm =>
    obtain ⟨⟨t, hw⟩, -, hgroups, -⟩ : _ ∧ _ ∧ _ ∧ _ := hstage _ rfl
    refine ⟨count, le_rfl, hd.mark hm fun m hmem => ?_⟩
    exact ⟨_, _, _, hw.seq hf.seq, Window.mem_spends (hgroups _ m ⟨_, List.mem_cons_self, hmem⟩)⟩
  | commit => exact ⟨count, le_rfl, hd⟩
  | truncate => exact ⟨count, le_rfl, ⟨hd.file, hd.bounds, hd.marks⟩⟩
  | finish => exact ⟨count, le_rfl, ⟨hd.file, hd.bounds, hd.marks⟩⟩

/-- A state of a run over a chain. -/
structure OnRun (config : IndexerConfig) (chain : List BlockScanInput) (sys : System) (count : ℕ) : Prop where
  inv : ChainInv config chain sys
  drafts : Drafts config chain sys.disk.archive count

theorem onRun_init : OnRun config chain System.init 0 :=
  ⟨⟨Base.init config, _, _, _, Follows.init config chain, fun process h => by cases h⟩, Drafts.init⟩

theorem OnRun.later {sys sys' : System} {count : ℕ} (hv : ValidChain config.emitStartHeight chain)
    (hr : OnRun config chain sys count) {acts : List Action} (hon : OnChain chain acts)
    (h : run (step config) sys acts = some sys') :
    ∃ count', count ≤ count' ∧ OnRun config chain sys' count' ∧
      nextHeight config sys.disk.indexStore ≤ nextHeight config sys'.disk.indexStore := by
  induction acts generalizing sys count with
  | nil =>
    rw [run_nil, Option.some.injEq] at h
    subst h
    exact ⟨count, le_rfl, hr, le_rfl⟩
  | cons a acts ih =>
    obtain ⟨mid, hstep, hrest⟩ := run_cons_eq_some.mp h
    have hsteps := steps_of_step hstep
    have hinv := hr.inv.step hv (fun tuning best fetch heq => hon tuning best fetch (heq ▸ List.mem_cons_self))
      hsteps
    obtain ⟨count₁, hle₁, hd₁⟩ := hr.drafts.step hv hr.inv hsteps
    obtain ⟨count', hle', hr', hnext⟩ := ih ⟨hinv, hd₁⟩
      (fun tuning best fetch hmem => hon tuning best fetch (List.mem_cons_of_mem _ hmem)) hrest
    exact ⟨count', hle₁.trans hle', hr', (hsteps.nextHeight_le hr.inv.base).trans hnext⟩

end

end BitcoinData
