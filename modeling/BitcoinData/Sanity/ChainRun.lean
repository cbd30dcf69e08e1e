import BitcoinData.Sanity.Layers

/-! The invariant of a run over one chain: RocksDB holds the map of the sequential
indexer over the committed blocks, each committed file holds its block, every spend
among these blocks is marked, and every mark is a spend of the chain. -/

namespace BitcoinData

open Lib

/-! ## Blocks of a chain by height -/

section
variable {emitStartHeight : ℕ} {chain : List BlockScanInput}

theorem ValidChain.height_get (hv : ValidChain emitStartHeight chain) {k : ℕ}
    {block : BlockScanInput} (h : chain[k]? = some block) : block.height = emitStartHeight + k := by
  obtain ⟨hlt, -⟩ := List.getElem?_eq_some_iff.mp h
  have hk := congrArg (·[k]?) hv.heights
  simp only [List.getElem?_map, h, Option.map_some, List.getElem?_range' hlt, Option.some.injEq]
    at hk
  omega

theorem ValidChain.heights_nodup (hv : ValidChain emitStartHeight chain) (n : ℕ) :
    ((chain.take n).map (·.height)).Nodup := by
  rw [List.map_take, hv.heights]
  exact (List.take_sublist _ _).nodup List.nodup_range'

theorem ValidChain.stretch (hv : ValidChain emitStartHeight chain) {n : ℕ}
    {blocks : List BlockScanInput} (hmem : ∀ block ∈ blocks, block ∈ chain)
    (hheights : blocks.map (·.height) = List.range' (emitStartHeight + n) blocks.length) :
    blocks = (chain.drop n).take blocks.length := by
  apply List.ext_getElem?
  intro k
  by_cases hk : k < blocks.length
  · obtain ⟨j, hj⟩ := List.mem_iff_getElem?.mp (hmem blocks[k] (List.getElem_mem hk))
    have hheight := congrArg (·[k]?) hheights
    simp only [List.getElem?_map, List.getElem?_eq_getElem hk, Option.map_some,
      List.getElem?_range' hk, Option.some.injEq] at hheight
    have hjk := hv.height_get hj
    obtain rfl : j = n + k := by omega
    rw [List.getElem?_take_of_lt hk, List.getElem?_drop, hj, List.getElem?_eq_getElem hk]
  · rw [List.getElem?_eq_none (by omega), List.getElem?_eq_none]
    rw [List.length_take]
    omega

end

section
variable [Externals]

/-! ## Spends of the chain -/

/-- Output `i` of the block at `height` is spent at height `s` of the chain. -/
def SpentOn (chain : List BlockScanInput) (height : ℕ) (i : UInt32) (s : ℕ) : Prop :=
  ∃ n S A, sequential (chain.take n) = .ok (S, A) ∧ (height, i, s) ∈ allSpends A

variable {emitStartHeight : ℕ} {chain : List BlockScanInput}

theorem sequential_take_append {n m : ℕ} {S S' : P2trIndexerState} {A A' : List AppliedBlock}
    (h : sequential (chain.take n) = .ok (S, A)) (h' : sequential (chain.take m) = .ok (S', A'))
    (hle : n ≤ m) : ∃ B, A' = A ++ B ∧ S.applyBlocks ((chain.drop n).take (m - n)) = .ok (S', B) := by
  rw [show m = n + (m - n) by omega, List.take_add] at h'
  obtain ⟨S₁, as, bs, h₁, h₂, heq⟩ := applyBlocks_append_eq_ok.mp h'
  have hsame : (S₁, as) = (S, A) := by
    rw [sequential, h₁, Except.ok.injEq] at h
    exact h
  obtain ⟨rfl, rfl⟩ := Prod.mk.inj hsame
  exact ⟨bs, heq, h₂⟩

theorem ValidChain.runSpends (hv : ValidChain emitStartHeight chain) {n : ℕ} {S : P2trIndexerState}
    {A : List AppliedBlock} (h : sequential (chain.take n) = .ok (S, A)) : RunSpends A :=
  runSpends_of_empty h rfl (hv.heights_nodup n)

theorem ValidChain.applied_get (hv : ValidChain emitStartHeight chain) {n : ℕ}
    {S : P2trIndexerState} {A : List AppliedBlock} (h : sequential (chain.take n) = .ok (S, A))
    {k : ℕ} {a : AppliedBlock} (ha : A[k]? = some a) :
    k < n ∧ ∃ block s s', AppliedSpec s block s' a ∧ block.height = emitStartHeight + k := by
  obtain ⟨hlt, -⟩ := List.getElem?_eq_some_iff.mp ha
  rw [applyBlocks_length h] at hlt
  have hb : (chain.take n)[k]? = some (chain.take n)[k] := List.getElem?_eq_getElem hlt
  obtain ⟨s, s', hspec⟩ := applyBlocks_get h hb ha
  rw [List.length_take] at hlt
  rw [List.getElem?_take_of_lt (by omega)] at hb
  exact ⟨by omega, _, s, s', hspec, hv.height_get hb⟩

theorem ValidChain.spend_height (hv : ValidChain emitStartHeight chain) {n : ℕ}
    {S : P2trIndexerState} {A : List AppliedBlock} (h : sequential (chain.take n) = .ok (S, A))
    {height s : ℕ} {i : UInt32} (hs : (height, i, s) ∈ allSpends A) :
    ∃ k a, A[k]? = some a ∧ s = emitStartHeight + k ∧ k < n ∧
      ∃ spent ∈ a.spentUtxos, (spent.creationHeight, spent.outputIndex, spent.spentHeight) =
        (height, i, s) := by
  obtain ⟨a, ha, hmem⟩ := List.mem_flatMap.mp hs
  obtain ⟨k, hk⟩ := List.mem_iff_getElem?.mp ha
  obtain ⟨spent, hspent, heq⟩ := List.mem_map.mp hmem
  obtain ⟨hkn, block, st, st', hspec, hheight⟩ := hv.applied_get h hk
  have hsh := hspec.spentHeight spent hspent
  have hs' : spent.spentHeight = s := (Prod.mk.inj (Prod.mk.inj heq).2).2
  exact ⟨k, a, hk, by omega, hkn, spent, hspent, heq⟩

theorem SpentOn.of_le (hv : ValidChain emitStartHeight chain) {n : ℕ} {S : P2trIndexerState}
    {A : List AppliedBlock} (h : sequential (chain.take n) = .ok (S, A)) (hn : n ≤ chain.length)
    {height s : ℕ} {i : UInt32} (hs : SpentOn chain height i s) (hlt : s < emitStartHeight + n) :
    (height, i, s) ∈ allSpends A := by
  obtain ⟨m, S', A', h', hmem⟩ := hs
  obtain ⟨k, a, hk, hsk, -, spent, hspent, heq⟩ := hv.spend_height h' hmem
  obtain ⟨hklt, -⟩ := List.getElem?_eq_some_iff.mp hk
  have hlen := applyBlocks_length h
  rw [List.length_take] at hlen
  -- the spending block has index `k < n`, where the two runs agree
  have hget : A[k]? = some a := by
    rcases Nat.le_total n m with hle | hle
    · obtain ⟨B, rfl, -⟩ := sequential_take_append h h' hle
      rwa [List.getElem?_append_left (by omega)] at hk
    · obtain ⟨B, rfl, -⟩ := sequential_take_append h' h hle
      rwa [List.getElem?_append_left hklt]
  exact List.mem_flatMap.mpr ⟨a, List.mem_of_getElem? hget, List.mem_map.mpr ⟨spent, hspent, heq⟩⟩

theorem ValidChain.created_height_lt (hv : ValidChain emitStartHeight chain) {n : ℕ}
    {S : P2trIndexerState} {A : List AppliedBlock} (h : sequential (chain.take n) = .ok (S, A))
    {p : OutPointKey × SpendLookup} (hp : p ∈ createdPairs A) :
    p.2.creationHeight < emitStartHeight + n := by
  obtain ⟨a, ha, hmem⟩ := List.mem_flatMap.mp hp
  obtain ⟨created, hc, rfl⟩ := List.mem_map.mp hmem
  obtain ⟨k, hk⟩ := List.mem_iff_getElem?.mp ha
  obtain ⟨hkn, block, s, s', hspec, hheight⟩ := hv.applied_get h hk
  rw [hspec.created_creationHeight hc]
  omega

/-! ## Marks -/

/-- Below `bound`, each of `spends` is marked in the file of the output it spends. -/
def MarkedBelow (archive : FileArchive) (bound : ℕ) (spends : List (ℕ × UInt32 × ℕ)) : Prop :=
  ∀ height i s, (height, i, s) ∈ spends → height < bound →
    ∀ block, archive.Stored height block → block.mark i.toNat = UInt32.ofNat s

/-- Below `bound`, every mark is a spend of the chain. -/
def MarksTrue (chain : List BlockScanInput) (archive : FileArchive) (bound : ℕ) : Prop :=
  ∀ (height : ℕ) (block : StoredLightBlockInput) (i : ℕ), height < bound →
    archive.Stored height block → i < block.outputs.length →
    block.mark i ≠ STORAGE_SPENT_HEIGHT_UNSPENT →
    ∃ index, index.toNat = i ∧ SpentOn chain height index (block.mark i).toNat

theorem MarksTrue.mark {archive archive' : FileArchive} {bound height₀ updated : ℕ}
    {marks : List (UInt32 × UInt32)} (ht : MarksTrue chain archive bound)
    (hm : archive.markCreationBlock (height₀, marks) = .ok (archive', updated))
    (hspent : ∀ m ∈ marks, SpentOn chain height₀ m.1 m.2.toNat) : MarksTrue chain archive' bound := by
  intro height block' i hlt hs hi hne
  obtain ⟨block, hb, ⟨-, rfl⟩ | ⟨rfl, rfl⟩⟩ := FileArchive.stored_markCreationBlock hm hs
  · exact ht height block' i hlt hb hi hne
  · have hlen : i < block.outputs.length := by
      rwa [outputs_length_of_unmarked (unmarked_marked block marks)] at hi
    obtain ⟨hhit, hmiss⟩ := mark_marked block marks hlen
    by_cases hex : ∃ m ∈ marks, m.1.toNat = i
    · obtain ⟨m, hmem, hmi, hmark⟩ := hhit hex
      rw [hmark]
      exact ⟨m.1, hmi, hspent m hmem⟩
    · push Not at hex
      rw [hmiss hex] at hne ⊢
      exact ht height block i hlt hb hlen hne

/-- A mark on an output that is spent once either is the right one or leaves the output
alone. -/
theorem mark_rewritten {archive archive' : FileArchive} {height₀ updated : ℕ}
    {marks : List (UInt32 × UInt32)} {spends : List (ℕ × UInt32 × ℕ)}
    (hm : archive.markCreationBlock (height₀, marks) = .ok (archive', updated))
    (hin : ∀ m ∈ marks, (height₀, m.1, m.2.toNat) ∈ spends)
    (honce : ∀ {height i s s'}, (height, i, s) ∈ spends → (height, i, s') ∈ spends → s = s')
    {height s : ℕ} {i : UInt32} (hs : (height, i, s) ∈ spends)
    (hold : (∀ block, archive.Stored height block → block.mark i.toNat = UInt32.ofNat s) ∨
      height = height₀ ∧ (i, UInt32.ofNat s) ∈ marks) :
    ∀ block, archive'.Stored height block → block.mark i.toNat = UInt32.ofNat s := by
  intro block' hb'
  obtain ⟨block, hb, ⟨hne, rfl⟩ | ⟨rfl, rfl⟩⟩ := FileArchive.stored_markCreationBlock hm hb'
  · rcases hold with hold | ⟨heq, -⟩
    · exact hold block' hb
    · exact absurd heq hne
  · by_cases hex : ∃ m ∈ marks, m.1.toNat = i.toNat
    · have hlen : i.toNat < block.outputs.length := by
        obtain ⟨m, hmem, hmi⟩ := hex
        exact hmi ▸ FileArchive.mark_index_lt hm hb m hmem
      obtain ⟨m, hmem, hmi, hmark⟩ := (mark_marked block marks hlen).1 hex
      have hmem' := hin m hmem
      rw [UInt32.toNat_inj.mp hmi] at hmem'
      rw [hmark, honce hs hmem', UInt32.ofNat_toNat]
    · push Not at hex
      have hsame : (block.marked marks).mark i.toNat = block.mark i.toNat := by
        by_cases hlen : i.toNat < block.outputs.length
        · exact (mark_marked block marks hlen).2 hex
        · have hlen' : ¬ i.toNat < (block.marked marks).outputs.length := by
            rwa [outputs_length_of_unmarked (unmarked_marked block marks)]
          rw [StoredLightBlockInput.mark, StoredLightBlockInput.mark,
            List.getElem?_eq_none (by omega), List.getElem?_eq_none (by omega)]
      rw [hsame]
      rcases hold with hold | ⟨-, hmem⟩
      · exact hold block hb
      · exact absurd rfl (hex _ hmem)

/-! ## The invariant -/

/-- The disk after `n` blocks of the chain have been committed. -/
structure Follows (config : IndexerConfig) (chain : List BlockScanInput) (disk : Disk) (n : ℕ)
    (S : P2trIndexerState) (A : List AppliedBlock) : Prop where
  le : n ≤ chain.length
  seq : sequential (chain.take n) = .ok (S, A)
  next : nextHeight config disk.indexStore = config.emitStartHeight + n
  uid : restoredUid disk.indexStore = S.nextUid
  rows : disk.indexStore.outpoints = S.outpointToSpend
  files : ∀ (k : ℕ) (a : AppliedBlock), A[k]? = some a →
    ∃ block, disk.archive.Stored (config.emitStartHeight + k) block ∧
      block.unmarked = a.storageBlock.normalised.unmarked
  marked : MarkedBelow disk.archive (config.emitStartHeight + n) (allSpends A)
  marks : MarksTrue chain disk.archive (config.emitStartHeight + n)

/-- Memory holds nothing that the sequential map does not. -/
structure Tracks (state S : P2trIndexerState) : Prop where
  same : SameBut state S
  sound : ∀ o e, state.outpointToSpend.lookup o = some e → S.outpointToSpend.lookup o = some e

/-- A window whose blocks are the next ones of the chain. -/
structure WindowOn (chain : List BlockScanInput) (n : ℕ) (S : P2trIndexerState) (window : Window)
    (t : P2trIndexerState) : Prop where
  le : n + window.pending.length ≤ chain.length
  blocks : S.applyBlocks ((chain.drop n).take window.pending.length) =
    .ok (t, window.pending.map (·.applied))
  tracks : Tracks window.state t

def FollowStage (chain : List BlockScanInput) (disk : Disk) (process : Process) (n : ℕ)
    (S : P2trIndexerState) : Prop :=
  match process.stage with
  | .writing window rest => (∃ t, WindowOn chain n S window t) ∧
    ∃ written, window.pending = written ++ rest ∧ ∀ p ∈ written, FreshFile disk.archive p
  | .marking window rest => (∃ t, WindowOn chain n S window t) ∧
    MarksTrue chain disk.archive (window.lastHeight + 1) ∧
    (∀ height m, FileArchive.InGroups rest height m → (height, m.1, m.2.toNat) ∈ window.spends) ∧
    ∀ height i s, (height, i, s) ∈ window.spends →
      FileArchive.InGroups rest height (i, UInt32.ofNat s) ∨
        ∀ block, disk.archive.Stored height block → block.mark i.toNat = UInt32.ofNat s
  | _ => Tracks process.state S

structure ChainInv (config : IndexerConfig) (chain : List BlockScanInput) (sys : System) : Prop where
  base : Base config sys
  follows : ∃ n S A, Follows config chain sys.disk n S A ∧
    ∀ process, sys.process = some process → FollowStage chain sys.disk process n S

variable {config : IndexerConfig}

theorem Follows.length_take {disk : Disk} {n : ℕ} {S : P2trIndexerState} {A : List AppliedBlock}
    (hf : Follows config chain disk n S A) : (chain.take n).length = n := by
  rw [List.length_take, Nat.min_eq_left hf.le]

theorem Follows.length_applied {disk : Disk} {n : ℕ} {S : P2trIndexerState} {A : List AppliedBlock}
    (hf : Follows config chain disk n S A) : A.length = n := by
  rw [applyBlocks_length hf.seq, hf.length_take]

omit [Externals] in
theorem Window.spends_eq (window : Window) :
    window.spends = allSpends (window.pending.map (·.applied)) := by
  rw [Window.spends, allSpends, List.flatMap_map]

theorem WindowOn.seq {n : ℕ} {S t : P2trIndexerState} {A : List AppliedBlock} {window : Window}
    (hw : WindowOn chain n S window t) (hS : sequential (chain.take n) = .ok (S, A)) :
    sequential (chain.take (n + window.pending.length)) =
      .ok (t, A ++ window.pending.map (·.applied)) := by
  rw [List.take_add]
  exact applyBlocks_append_eq_ok.mpr ⟨S, A, _, hS, hw.blocks, rfl⟩

omit [Externals] in
theorem Window.mem_spends {A : List AppliedBlock} {window : Window} {x : ℕ × UInt32 × ℕ}
    (hx : x ∈ window.spends) : x ∈ allSpends (A ++ window.pending.map (·.applied)) := by
  rw [allSpends_append, ← window.spends_eq]
  exact List.mem_append_right _ hx

theorem WindowSpec.windowOn {disk : Disk} {start S : P2trIndexerState} {window : Window}
    {done : List (BlockScanInput × Pending)} {n : ℕ} {A : List AppliedBlock}
    (hv : ValidChain config.emitStartHeight chain) (hf : Follows config chain disk n S A)
    (htracks : Tracks start S)
    (hw : WindowSpec disk.indexStore start (nextHeight config disk.indexStore) window done)
    (hmem : ∀ d ∈ done, d.1 ∈ chain) : ∃ t, WindowOn chain n S window t := by
  have hlen : window.pending.length = (done.map Prod.fst).length := by
    rw [hw.pending, List.length_map, List.length_map]
  have hstretch : done.map Prod.fst = (chain.drop n).take (done.map Prod.fst).length := by
    apply hv.stretch
    · intro block hb
      obtain ⟨d, hd, rfl⟩ := List.mem_map.mp hb
      exact hmem d hd
    · have hheights := hw.heights
      rw [hf.next] at hheights
      rw [List.map_map, List.length_map]
      exact hheights
  have hpre : chain.take n ++ done.map Prod.fst <+: chain := by
    rw [hstretch, ← List.take_add]
    exact List.take_prefix _ _
  obtain ⟨t, ht, hsame, hl⟩ := hw.trace.layers hv hf.seq hf.rows htracks.same htracks.sound hpre
  refine ⟨t, ?_, ?_, hsame, hl.sound⟩
  · have hle := hpre.length_le
    rw [List.length_append, hf.length_take] at hle
    omega
  · rw [hlen, ← hstretch, ht, hw.pending, List.map_map]
    rfl

/-- The files of a window are fresh when its marking starts, so every mark below its end
is an old one. -/
theorem Follows.marks_group {disk : Disk} {process : Process} {window : Window} {n : ℕ}
    {S : P2trIndexerState} {A : List AppliedBlock} (hf : Follows config chain disk n S A)
    (hflight : Flight config disk.indexStore process window)
    (hfresh : ∀ p ∈ window.pending, FreshFile disk.archive p) :
    MarksTrue chain disk.archive (window.lastHeight + 1) := by
  obtain ⟨start, done, hw⟩ := hflight.spec
  intro height block i hlt hs hi hne
  by_cases hold : height < nextHeight config disk.indexStore
  · rw [hf.next] at hold
    exact hf.marks height block i hold hs hi hne
  · have hlast := hw.lastHeight_eq.2
    obtain ⟨d, hd, hheight⟩ := hw.exists_of_height (not_lt.mp hold) (hlast ▸ hlt)
    have hmem := List.mem_of_getElem? hd
    have hp : d.2 ∈ window.pending := by
      rw [hw.pending]
      exact List.mem_map_of_mem hmem
    rw [← hheight, ← (hw.stored_height hmem).1] at hs
    exact absurd (hfresh d.2 hp block hs i hi) hne

theorem Follows.mark {disk : Disk} {window : Window} {n height₀ updated : ℕ}
    {S t : P2trIndexerState} {A : List AppliedBlock} {marks : List (UInt32 × UInt32)}
    {rest : List (ℕ × List (UInt32 × UInt32))} {archive : FileArchive}
    (hv : ValidChain config.emitStartHeight chain) (hf : Follows config chain disk n S A)
    (hw : WindowOn chain n S window t)
    (htrue : MarksTrue chain disk.archive (window.lastHeight + 1))
    (hgroups : ∀ height m, FileArchive.InGroups ((height₀, marks) :: rest) height m →
      (height, m.1, m.2.toNat) ∈ window.spends)
    (hspends : ∀ height i s, (height, i, s) ∈ window.spends →
      FileArchive.InGroups ((height₀, marks) :: rest) height (i, UInt32.ofNat s) ∨
        ∀ block, disk.archive.Stored height block → block.mark i.toNat = UInt32.ofNat s)
    (hm : disk.archive.markCreationBlock (height₀, marks) = .ok (archive, updated)) :
    Follows config chain { disk with archive := archive } n S A ∧
      MarksTrue chain archive (window.lastHeight + 1) ∧
      (∀ height m, FileArchive.InGroups rest height m →
        (height, m.1, m.2.toNat) ∈ window.spends) ∧
      ∀ height i s, (height, i, s) ∈ window.spends →
        FileArchive.InGroups rest height (i, UInt32.ofNat s) ∨
          ∀ block, archive.Stored height block → block.mark i.toNat = UInt32.ofNat s := by
  have hseq := hw.seq hf.seq
  have hrun := hv.runSpends hseq
  have hown : ∀ m ∈ marks, (height₀, m.1, m.2.toNat) ∈ window.spends := fun m hmem =>
    hgroups height₀ m ⟨marks, List.mem_cons_self, hmem⟩
  have hin : ∀ m ∈ marks, (height₀, m.1, m.2.toNat) ∈
      allSpends (A ++ window.pending.map (·.applied)) := fun m hmem => Window.mem_spends (hown m hmem)
  have hspent : ∀ m ∈ marks, SpentOn chain height₀ m.1 m.2.toNat := fun m hmem =>
    ⟨_, t, _, hseq, hin m hmem⟩
  have hkept := FileArchive.kept_markCreationBlock hm
  refine ⟨⟨hf.le, hf.seq, hf.next, hf.uid, hf.rows, ?_, ?_, hf.marks.mark hm hspent⟩,
    htrue.mark hm hspent, ?_, ?_⟩
  · intro k a ha
    obtain ⟨block, hs, hu⟩ := hf.files k a ha
    obtain ⟨block', hs', hu'⟩ := hkept _ block hs
    exact ⟨block', hs', hu'.trans hu⟩
  · intro height i s hmem hlt
    have hmem' : (height, i, s) ∈ allSpends (A ++ window.pending.map (·.applied)) := by
      rw [allSpends_append]
      exact List.mem_append_left _ hmem
    exact mark_rewritten hm hin hrun.spentHeight_unique hmem'
      (Or.inl (hf.marked height i s hmem hlt))
  · rintro height m ⟨ms, hms, hmem⟩
    exact hgroups height m ⟨ms, List.mem_cons_of_mem _ hms, hmem⟩
  · intro height i s hmem
    rcases hspends height i s hmem with ⟨ms, hms, him⟩ | hmarked
    · rcases List.mem_cons.mp hms with heq | hms
      · obtain ⟨rfl, rfl⟩ := Prod.mk.inj heq
        exact Or.inr (mark_rewritten hm hin hrun.spentHeight_unique (Window.mem_spends hmem)
          (Or.inr ⟨rfl, him⟩))
      · exact Or.inl ⟨ms, hms, him⟩
    · exact Or.inr (mark_rewritten hm hin hrun.spentHeight_unique (Window.mem_spends hmem)
        (Or.inl hmarked))

theorem Follows.commit {disk : Disk} {process : Process} {window : Window} {n : ℕ}
    {S t : P2trIndexerState} {A : List AppliedBlock}
    (hv : ValidChain config.emitStartHeight chain) (hf : Follows config chain disk n S A)
    (hflight : Flight config disk.indexStore process window)
    (hwritten : ∀ p ∈ window.pending, Written disk.archive p)
    (hw : WindowOn chain n S window t)
    (htrue : MarksTrue chain disk.archive (window.lastHeight + 1))
    (hspends : ∀ height i s, (height, i, s) ∈ window.spends →
      ∀ block, disk.archive.Stored height block → block.mark i.toNat = UInt32.ofNat s) :
    Follows config chain { disk with
      indexStore := disk.indexStore.commitAppliedBlocks (window.pending.map (·.applied))
        window.lastHeight window.lastHash window.state.lastUid }
      (n + window.pending.length) t (A ++ window.pending.map (·.applied)) := by
  obtain ⟨start, done, hspec⟩ := hflight.spec
  have hlen : window.pending.length = done.length := by rw [hspec.pending, List.length_map]
  have hlast := hspec.lastHeight_eq.2
  have hAlen := hf.length_applied
  have hend : window.lastHeight + 1 = config.emitStartHeight + (n + window.pending.length) := by
    rw [hlast, hf.next, hlen, Nat.add_assoc]
  have hpre : chain.take n ++ (chain.drop n).take window.pending.length <+: chain := by
    rw [← List.take_add]
    exact List.take_prefix _ _
  refine ⟨hw.le, hw.seq hf.seq, ?_, hw.tracks.same.nextUid, ?_, ?_, ?_, hend ▸ htrue⟩
  · rw [nextHeight_of_tip (commitAppliedBlocks_tip _ _ _ _ _)]
    exact hend
  · refine commit_outpoints hw.blocks hf.rows (fun o ho => ?_) (hv.created_nodup hpre)
    cases hso : S.outpointToSpend.lookup o with
    | none => rfl
    | some e => exact absurd ho (hv.created_once hpre (sequential_created hf.seq hso))
  · intro k a ha
    by_cases hk : k < A.length
    · rw [List.getElem?_append_left hk] at ha
      exact hf.files k a ha
    · -- a block of the window, in its own file
      rw [List.getElem?_append_right (not_lt.mp hk), List.getElem?_map, hspec.pending,
        List.getElem?_map, Option.map_map] at ha
      obtain ⟨d, hd, rfl⟩ := Option.map_eq_some_iff.mp ha
      have hmem := List.mem_of_getElem? hd
      obtain ⟨block, hs, hu⟩ := hwritten d.2 (hspec.pending ▸ List.mem_map_of_mem hmem)
      rw [(hspec.stored_height hmem).1, hspec.height_get hd, hf.next, Nat.add_assoc,
        show n + (k - A.length) = k by omega] at hs
      exact ⟨block, hs, hu⟩
  · intro height i s hmem hlt
    rw [allSpends_append, ← window.spends_eq, List.mem_append] at hmem
    rcases hmem with hmem | hmem
    · obtain ⟨a, ha, hmem'⟩ := List.mem_flatMap.mp hmem
      obtain ⟨spent, hspent, heq⟩ := List.mem_map.mp hmem'
      refine hf.marked height i s hmem ?_
      have hpair : spentPair spent ∈ spentPairs A :=
        List.mem_flatMap.mpr ⟨a, ha, List.mem_map_of_mem hspent⟩
      have := hv.created_height_lt hf.seq ((hv.runSpends hf.seq).created _ hpair)
      rw [← (Prod.mk.inj heq).1]
      exact this
    · exact hspends height i s hmem

theorem Follows.init (config : IndexerConfig) (chain : List BlockScanInput) :
    Follows config chain Disk.empty 0 (P2trIndexerState.restoreAtUid 0) [] where
  le := Nat.zero_le _
  seq := rfl
  next := rfl
  uid := rfl
  rows := rfl
  files := fun k a h => by cases h
  marked := fun height i s h => by cases h
  marks := by
    intro height block i _ hs
    obtain ⟨bytes, hl, -⟩ := hs
    cases hl

/-- Writing a block of the window is not seen below the next height. -/
theorem Follows.write {disk : Disk} {n : ℕ} {S : P2trIndexerState} {A : List AppliedBlock}
    {archive : FileArchive} (hf : Follows config chain disk n S A)
    (hback : ∀ (height : ℕ) (block : StoredLightBlockInput),
      height < nextHeight config disk.indexStore →
      (archive.Stored height block ↔ disk.archive.Stored height block)) :
    Follows config chain { disk with archive := archive } n S A := by
  have hAlen := hf.length_applied
  rw [hf.next] at hback
  refine ⟨hf.le, hf.seq, hf.next, hf.uid, hf.rows, ?_, ?_, ?_⟩
  · intro k a ha
    obtain ⟨hlt, -⟩ := List.getElem?_eq_some_iff.mp ha
    obtain ⟨block, hs, hu⟩ := hf.files k a ha
    exact ⟨block, (hback _ _ (by omega)).mpr hs, hu⟩
  · intro height i s hmem hlt block hs
    exact hf.marked height i s hmem hlt block ((hback _ _ hlt).mp hs)
  · intro height block i hlt hs
    exact hf.marks height block i hlt ((hback _ _ hlt).mp hs)

theorem ChainInv.step {sys sys' : System} {a : Action}
    (hv : ValidChain config.emitStartHeight chain) (hi : ChainInv config chain sys)
    (hhonest : ∀ tuning best fetch, a = .catchUp tuning best fetch → HonestFetch chain fetch)
    (h : Steps config sys a sys') : ChainInv config chain sys' := by
  have hbase := hi.base.step h
  obtain ⟨n, S, A, hf, hstage⟩ := hi.follows
  refine ⟨hbase, ?_⟩
  cases h with
  | start hs =>
    obtain ⟨network, startHeight, rfl, rfl⟩ := startProcess_eq_ok hs
    refine ⟨n, S, A, ⟨hf.le, hf.seq, hf.next, hf.uid, hf.rows, hf.files, hf.marked, hf.marks⟩, ?_⟩
    rintro process ⟨⟩
    refine ⟨⟨hf.uid, (applyBlocks_seen hf.seq rfl).symm⟩, fun o e ho => ?_⟩
    cases ho
  | stop => exact ⟨n, S, A, hf, fun process h => by cases h⟩
  | @window disk state next best tuning fetch window hw =>
    refine ⟨n, S, A, hf, ?_⟩
    rintro process ⟨⟩
    have hstart : next = nextHeight config disk.indexStore := hi.base.stage _ rfl
    rw [hstart] at hw
    obtain ⟨done, hspec, hfetched⟩ := catchUpWindow_spec hi.base.files.emit hw
    refine ⟨hspec.windowOn hv hf (hstage _ rfl) fun d hd => ?_, [], rfl, by simp⟩
    obtain ⟨start, count, chunk, hok, hmem⟩ := hfetched d hd
    exact (hhonest tuning best fetch rfl start count chunk hok).subset hmem
  | @write disk state next window p rest =>
    obtain ⟨hflight, -⟩ := hi.base.inFlight rfl
    obtain ⟨hw, written, hp, hfresh⟩ : _ ∧ _ := hstage _ rfl
    obtain ⟨hheight, hlo, hdec, hne⟩ := hflight.write_height hp
    obtain ⟨start, done, hspec⟩ := hflight.spec
    refine ⟨n, S, A, hf.write (hflight.stored_write hp), ?_⟩
    rintro process ⟨⟩
    exact ⟨hw, written ++ [p], by simp [hp], FreshFile.write hspec hp hheight hdec hne hfresh⟩
  | @group disk state next window groups hg =>
    obtain ⟨hflight, -⟩ := hi.base.inFlight rfl
    obtain ⟨hw, written, hp, hfresh⟩ : _ ∧ _ := hstage _ rfl
    rw [List.append_nil] at hp
    refine ⟨n, S, A, hf, ?_⟩
    rintro process ⟨⟩
    refine ⟨hw, hf.marks_group hflight (hp ▸ hfresh),
      fun height m hm => (FileArchive.inGroups_groupSpends hg _ _ _).mp hm, fun height i s hmem => ?_⟩
    have hbound := (hflight.spends_height hmem).2.2
    left
    rw [FileArchive.inGroups_groupSpends hg, UInt32.toNat_ofNat_of_lt'
      (lt_of_le_of_lt hbound (by decide))]
    exact hmem
  | mark hm =>
    obtain ⟨⟨t, hw⟩, htrue, hgroups, hspends⟩ : _ ∧ _ ∧ _ ∧ _ := hstage _ rfl
    obtain ⟨hf', htrue', hgroups', hspends'⟩ := hf.mark hv hw htrue hgroups hspends hm
    refine ⟨n, S, A, hf', ?_⟩
    rintro process ⟨⟩
    exact ⟨⟨t, hw⟩, htrue', hgroups', hspends'⟩
  | commit =>
    obtain ⟨hflight, hwritten⟩ := hi.base.marking rfl
    obtain ⟨⟨t, hw⟩, htrue, -, hspends⟩ : _ ∧ _ ∧ _ ∧ _ := hstage _ rfl
    refine ⟨_, t, _, hf.commit hv hflight hwritten hw htrue fun height i s hmem => ?_, ?_⟩
    · rcases hspends height i s hmem with ⟨ms, hms, -⟩ | hmarked
      · cases hms
      · exact hmarked
    · rintro process ⟨⟩
      have hstate := hflight.state
      simp only at hstate
      simp only [FollowStage]
      rw [hstate]
      exact hw.tracks
  | truncate =>
    refine ⟨n, S, A, ⟨hf.le, hf.seq, hf.next, hf.uid, hf.rows, hf.files, hf.marked, hf.marks⟩, ?_⟩
    rintro process ⟨⟩
    exact hstage _ rfl
  | finish =>
    refine ⟨n, S, A, ⟨hf.le, hf.seq, hf.next, hf.uid, hf.rows, hf.files, hf.marked, hf.marks⟩, ?_⟩
    rintro process ⟨⟩
    exact hstage _ rfl

theorem chainInv_of_run (hv : ValidChain config.emitStartHeight chain) {acts : List Action}
    (hon : OnChain chain acts) {sys : System} (h : run (step config) System.init acts = some sys) :
    ChainInv config chain sys := by
  refine run_invariant (fun a ha s s' hs hstep => ?_)
    ⟨Base.init config, _, _, _, Follows.init config chain, fun process h => by cases h⟩ h
  refine hs.step hv (fun tuning best fetch heq => ?_) (steps_of_step hstep)
  subst heq
  exact hon tuning best fetch ha

/-! ## What a file shows up to a height -/

omit [Externals] in
theorem unmarked_clearAbove (tip : ℕ) (block : StoredLightBlockInput) :
    (block.clearAbove tip).unmarked = block.unmarked := by
  simp only [StoredLightBlockInput.unmarked, StoredLightBlockInput.clearAbove, List.map_map]
  congr 1
  apply List.map_congr_left
  intro output _
  simp only [Function.comp_apply]
  split_ifs <;> rfl

omit [Externals] in
theorem mark_clearAbove (tip i : ℕ) (block : StoredLightBlockInput) :
    (block.clearAbove tip).mark i =
      if (block.mark i).toNat ≤ tip then block.mark i else STORAGE_SPENT_HEIGHT_UNSPENT := by
  cases hout : block.outputs[i]? with
  | none => simp [StoredLightBlockInput.mark, StoredLightBlockInput.clearAbove, hout]
  | some output =>
    simp only [StoredLightBlockInput.mark, StoredLightBlockInput.clearAbove, List.getElem?_map, hout,
      Option.map_some, Option.getD_some]
    split_ifs <;> rfl

/-- Up to a committed height, a committed file shows the spends of the chain. -/
theorem Follows.mark_clearAbove {disk : Disk} {n : ℕ} {S : P2trIndexerState}
    {A : List AppliedBlock} (hv : ValidChain config.emitStartHeight chain)
    (hf : Follows config chain disk n S A) {tip height i : ℕ} {block : StoredLightBlockInput}
    (htip : tip < config.emitStartHeight + n) (hlt : height < config.emitStartHeight + n)
    (hs : disk.archive.Stored height block) (hi : i < block.outputs.length) :
    (∀ index s, index.toNat = i → SpentOn chain height index s → s ≤ tip →
      (block.clearAbove tip).mark i = UInt32.ofNat s) ∧
    ((∀ index s, index.toNat = i → SpentOn chain height index s → tip < s) →
      (block.clearAbove tip).mark i = STORAGE_SPENT_HEIGHT_UNSPENT) := by
  rw [BitcoinData.mark_clearAbove]
  constructor
  · intro index s hindex hspent hle
    have hmem := hspent.of_le hv hf.seq hf.le (by omega)
    have hmark := hf.marked height index s hmem hlt block hs
    rw [hindex] at hmark
    rw [hmark, if_pos]
    exact le_trans (by rw [UInt32.toNat_ofNat']; exact Nat.mod_le _ _) hle
  · intro hnone
    by_cases hmark : block.mark i = STORAGE_SPENT_HEIGHT_UNSPENT
    · rw [hmark, ite_self]
    · obtain ⟨index, hindex, hspent⟩ := hf.marks height block i hlt hs hi hmark
      rw [if_neg (not_le.mpr (hnone index _ hindex hspent))]

/-- Two states of one run, or of two runs over one chain, show the same block up to a
height that both have committed. -/
theorem Follows.clearAbove_eq {disk disk' : Disk} {n n' : ℕ} {S S' : P2trIndexerState}
    {A A' : List AppliedBlock} (hv : ValidChain config.emitStartHeight chain)
    (hf : Follows config chain disk n S A) (hf' : Follows config chain disk' n' S' A')
    {tip k : ℕ} {block block' : StoredLightBlockInput} (hk : k < n) (hk' : k < n')
    (htip : tip < config.emitStartHeight + n) (htip' : tip < config.emitStartHeight + n')
    (hs : disk.archive.Stored (config.emitStartHeight + k) block)
    (hs' : disk'.archive.Stored (config.emitStartHeight + k) block') :
    block.clearAbove tip = block'.clearAbove tip := by
  have hlen := hf.length_applied
  have hlen' := hf'.length_applied
  -- both runs applied the same block at this height
  have hget : A[k]? = A'[k]? := by
    rcases Nat.le_total n n' with h | h
    · obtain ⟨B, rfl, -⟩ := sequential_take_append hf.seq hf'.seq h
      rw [List.getElem?_append_left (by omega)]
    · obtain ⟨B, rfl, -⟩ := sequential_take_append hf'.seq hf.seq h
      rw [List.getElem?_append_left (by omega)]
  obtain ⟨a, ha⟩ : ∃ a, A[k]? = some a := ⟨_, List.getElem?_eq_getElem (by omega)⟩
  obtain ⟨b, hb, hu⟩ := hf.files k a ha
  obtain ⟨b', hb', hu'⟩ := hf'.files k a (hget ▸ ha)
  rw [hs.unique hb, hs'.unique hb'] at *
  have hunmarked : b.unmarked = b'.unmarked := hu.trans hu'.symm
  apply eq_of_unmarked_eq
  · rw [unmarked_clearAbove, unmarked_clearAbove, hunmarked]
  · intro i hi
    rw [outputs_length_of_unmarked (unmarked_clearAbove tip b)] at hi
    have hi' : i < b'.outputs.length := outputs_length_of_unmarked hunmarked ▸ hi
    obtain ⟨hhit, hmiss⟩ := hf.mark_clearAbove hv htip (by omega) hs hi
    obtain ⟨hhit', hmiss'⟩ := hf'.mark_clearAbove hv htip' (by omega) hs' hi'
    by_cases hex : ∃ index s, index.toNat = i ∧
        SpentOn chain (config.emitStartHeight + k) index s ∧ s ≤ tip
    · obtain ⟨index, s, hindex, hspent, hle⟩ := hex
      rw [hhit index s hindex hspent hle, hhit' index s hindex hspent hle]
    · push Not at hex
      rw [hmiss hex, hmiss' hex]

end

end BitcoinData
