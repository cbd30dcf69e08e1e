import BitcoinData.Sanity.Stages

/-! Lookup rows name stored outputs: the row of an outpoint, in memory or in RocksDB,
carries the UID of the output it points to in the block of its creation height. -/

namespace BitcoinData

open Lib

/-- The row points to an output of a block that `src` holds at its creation height. -/
def EntryFrom (src : ℕ → StoredLightBlockInput → Prop) (e : SpendLookup) : Prop :=
  ∃ block, src e.creationHeight block ∧ e.outputIndex.toNat < block.outputs.length ∧
    block.outputUid e.outputIndex.toNat = e.uid.toNat

/-- Every row of a map does. -/
def EntriesFrom (src : ℕ → StoredLightBlockInput → Prop) (m : SpendMap) : Prop :=
  ∀ o e, m.lookup o = some e → EntryFrom src e

/-- The same outputs under the same UIDs. -/
def SameUids (a b : StoredLightBlockInput) : Prop :=
  a.outputs.length = b.outputs.length ∧ ∀ i, a.outputUid i = b.outputUid i

theorem sameUids_of_unmarked {a b : StoredLightBlockInput} (h : a.unmarked = b.unmarked) :
    SameUids a b :=
  ⟨outputs_length_of_unmarked h, outputUid_of_unmarked h⟩

theorem EntryFrom.mono {src src' : ℕ → StoredLightBlockInput → Prop} {e : SpendLookup}
    (h : EntryFrom src e)
    (hsrc : ∀ height block, src height block → ∃ block', src' height block' ∧
      SameUids block' block) : EntryFrom src' e := by
  obtain ⟨block, hb, hlt, huid⟩ := h
  obtain ⟨block', hb', hlen, huids⟩ := hsrc _ _ hb
  exact ⟨block', hb', by rwa [hlen], by rwa [huids]⟩

section
variable [Externals] {src : ℕ → StoredLightBlockInput → Prop}

theorem AppliedSpec.created_entry {state state' : P2trIndexerState} {block : BlockScanInput}
    {applied : AppliedBlock} (hs : AppliedSpec state block state' applied)
    (hsrc : src block.height applied.storageBlock) {created : CreatedScopedUtxo}
    (hc : created ∈ applied.createdUtxos) : EntryFrom src (createdPair created).2 := by
  obtain ⟨i, hi⟩ := List.mem_iff_getElem?.mp hc
  obtain ⟨k, slot, hk, -, -, huid, hidx, -⟩ := hs.created_get hi
  obtain ⟨hlt, -⟩ := List.getElem?_eq_some_iff.mp hi
  refine ⟨applied.storageBlock, ?_, ?_, ?_⟩
  · rw [hs.created_creationHeight hc]
    exact hsrc
  · change created.entry.outputIndex.toNat < _
    rw [hidx, hs.outputs, List.length_map]
    exact hlt
  · change applied.storageBlock.outputUid created.entry.outputIndex.toNat = created.entry.uid.toNat
    rw [hidx, huid, StoredLightBlockInput.outputUid, List.getD_eq_getElem?_getD, hk]
    rfl

/-- The rows a block resolves its spends with, and the rows it leaves. -/
theorem AppliedSpec.entries {state state' : P2trIndexerState} {block : BlockScanInput}
    {applied : AppliedBlock} (hs : AppliedSpec state block state' applied)
    (hsrc : src block.height applied.storageBlock)
    (hm : EntriesFrom src state.outpointToSpend) :
    EntriesFrom src state'.outpointToSpend ∧
      ∀ spent ∈ applied.spentUtxos, EntryFrom src (spentLookup spent) := by
  constructor
  · intro o e ho
    rcases hs.lookup_origin ho with ho | ⟨created, hc, hpair⟩
    · exact hm o e ho
    · have := hs.created_entry hsrc hc
      rwa [hpair] at this
  · intro spent hspent
    rcases hs.spent_origin hspent with ho | ⟨created, hc, hpair⟩
    · exact hm _ _ ho
    · have := hs.created_entry hsrc hc
      rwa [hpair] at this

theorem Built.entries {state state' : P2trIndexerState} {news : List (BlockScanInput × Pending)}
    (h : Built state news state')
    (hsrc : ∀ n ∈ news, src n.1.height n.2.applied.storageBlock)
    (hm : EntriesFrom src state.outpointToSpend) :
    EntriesFrom src state'.outpointToSpend ∧
      ∀ n ∈ news, ∀ spent ∈ n.2.applied.spentUtxos, EntryFrom src (spentLookup spent) := by
  obtain ⟨happly, -⟩ := h
  induction news generalizing state with
  | nil =>
    simp only [List.map_nil, P2trIndexerState.applyBlocks, Except.ok.injEq, Prod.mk.injEq] at happly
    rw [← happly.1]
    exact ⟨hm, by simp⟩
  | cons n news ih =>
    obtain ⟨state₁, first, rest, h₁, h₂, heq⟩ := applyBlocks_cons_eq_ok.mp happly
    obtain ⟨rfl, rfl⟩ := List.cons.inj heq
    obtain ⟨hm₁, hspent⟩ := (applyBlockWithStats_spec h₁).entries (hsrc n List.mem_cons_self) hm
    obtain ⟨hm', hrest⟩ := ih (fun n hn => hsrc n (List.mem_cons_of_mem _ hn)) hm₁ h₂
    refine ⟨hm', fun n' hn' => ?_⟩
    rcases List.mem_cons.mp hn' with rfl | hn'
    · exact hspent
    · exact hrest n' hn'

omit [Externals] in
theorem CachedSpec.entries {db : RocksIndexStore} {state state₁ : P2trIndexerState}
    {blocks : List BlockScanInput} {cached : List OutPointKey}
    (h : CachedSpec db state blocks state₁ cached) (hdb : EntriesFrom src db.outpoints)
    (hm : EntriesFrom src state.outpointToSpend) : EntriesFrom src state₁.outpointToSpend := by
  intro o e ho
  cases hl : state.outpointToSpend.lookup o with
  | some e' =>
    rw [h.hit o e' hl, Option.some.injEq] at ho
    exact ho ▸ hm o e' hl
  | none =>
    by_cases hel : eligible blocks o
    · rw [h.miss o hl hel] at ho
      exact hdb o e ho
    · rw [h.other o hl hel] at ho
      cases ho

theorem WindowTrace.entries {db : RocksIndexStore} {start state : P2trIndexerState}
    {done : List (BlockScanInput × Pending)} (h : WindowTrace db start done state)
    (hsrc : ∀ d ∈ done, src d.1.height d.2.applied.storageBlock)
    (hdb : EntriesFrom src db.outpoints) (hm : EntriesFrom src start.outpointToSpend) :
    EntriesFrom src state.outpointToSpend ∧
      ∀ d ∈ done, ∀ spent ∈ d.2.applied.spentUtxos, EntryFrom src (spentLookup spent) := by
  induction h with
  | nil => exact ⟨hm, by simp⟩
  | chunk _ hcache hbuilt ih =>
    obtain ⟨hm₁, hdone⟩ := ih fun d hd => hsrc d (List.mem_append_left _ hd)
    obtain ⟨hm₂, hnews⟩ := hbuilt.entries (fun n hn => hsrc n (List.mem_append_right _ hn))
      (hcache.entries hdb hm₁)
    refine ⟨fun o e ho => ?_, fun d hd => ?_⟩
    · rw [P2trIndexerState.evictSpendUidCandidates_lookup] at ho
      split_ifs at ho
      exact hm₂ o e ho
    · rcases List.mem_append.mp hd with hd | hd
      · exact hdone d hd
      · exact hnews d hd

/-! ## The commit -/

omit [Externals] in
theorem batchCreated_outpoints (db : RocksIndexStore) (created : List CreatedScopedUtxo)
    (batch : RocksIndexStore) :
    (created.foldl (RocksIndexStore.batchCreated db) batch).outpoints =
      (created.map createdPair).foldl (fun m p => m.insert p.1 p.2) batch.outpoints := by
  induction created generalizing batch with
  | nil => rfl
  | cons c created ih => exact ih _

omit [Externals] in
theorem batchSpent_outpoints (spent : List SpentScopedUtxo) (batch : RocksIndexStore) :
    (spent.foldl RocksIndexStore.batchSpent batch).outpoints =
      (spent.map spentPair).foldl (fun m p => m.erase p.1) batch.outpoints := by
  induction spent generalizing batch with
  | nil => rfl
  | cons s spent ih => exact ih _

omit [Externals] in
/-- The rows of one block in the write batch: its puts, then its takes. -/
theorem batchBlock_outpoints (db batch : RocksIndexStore) (block : AppliedBlock) :
    (RocksIndexStore.batchBlock db batch block).outpoints =
      (block.spentUtxos.map spentPair).foldl (fun m p => m.erase p.1)
        ((block.createdUtxos.map createdPair).foldl (fun m p => m.insert p.1 p.2)
          batch.outpoints) := by
  rw [RocksIndexStore.batchBlock, batchSpent_outpoints, batchCreated_outpoints]

omit [Externals] in
theorem lookup_batchBlock {db batch : RocksIndexStore} {block : AppliedBlock} {o : OutPointKey}
    {e : SpendLookup} (h : (RocksIndexStore.batchBlock db batch block).outpoints.lookup o = some e) :
    batch.outpoints.lookup o = some e ∨ ∃ created ∈ block.createdUtxos,
      createdPair created = (o, e) := by
  rw [batchBlock_outpoints, lookup_foldl_erase] at h
  split_ifs at h
  have hput : ∀ (ps : List (OutPointKey × SpendLookup)) (m : SpendMap),
      (ps.foldl (fun m p => m.insert p.1 p.2) m).lookup o = some e →
      m.lookup o = some e ∨ (o, e) ∈ ps := by
    intro ps
    induction ps with
    | nil => exact fun m h => Or.inl h
    | cons p ps ih =>
      intro m h
      rcases ih _ h with h | h
      · rw [lookup_insert_ite] at h
        split_ifs at h with ho
        · rw [Option.some.injEq] at h
          exact Or.inr (by rw [ho, ← h]; exact List.mem_cons_self)
        · exact Or.inl h
      · exact Or.inr (List.mem_cons_of_mem _ h)
  rcases hput _ _ h with h | h
  · exact Or.inl h
  · exact Or.inr (List.mem_map.mp h)

omit [Externals] in
theorem commit_entries {db : RocksIndexStore} {blocks : List AppliedBlock} {height : ℕ}
    {hash : BlockHashBytes} {uid : UInt64} (hdb : EntriesFrom src db.outpoints)
    (hcreated : ∀ b ∈ blocks, ∀ created ∈ b.createdUtxos, EntryFrom src (createdPair created).2) :
    EntriesFrom src (db.commitAppliedBlocks blocks height hash uid).outpoints := by
  have hfold : ∀ (bs : List AppliedBlock) (batch : RocksIndexStore), (∀ b ∈ bs, b ∈ blocks) →
      EntriesFrom src batch.outpoints →
      EntriesFrom src (bs.foldl (RocksIndexStore.batchBlock db) batch).outpoints := by
    intro bs
    induction bs with
    | nil => exact fun batch _ h => h
    | cons b bs ih =>
      intro batch hbs h
      apply ih _ fun b' hb' => hbs b' (List.mem_cons_of_mem _ hb')
      intro o e ho
      rcases lookup_batchBlock ho with ho | ⟨created, hc, hpair⟩
      · exact h o e ho
      · have := hcreated b (hbs b List.mem_cons_self) created hc
        rwa [hpair] at this
  exact hfold blocks db (fun b hb => hb) hdb

end

end BitcoinData
