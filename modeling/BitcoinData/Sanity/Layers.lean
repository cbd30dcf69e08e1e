import BitcoinData.Sanity.Entries
import BitcoinData.Sanity.Simulation

/-! The three layers a spend is resolved through, against the one map of the sequential
indexer: what memory holds is right, and what it lacks RocksDB holds. -/

namespace BitcoinData

open Lib

/-- Memory `m` and RocksDB `r` against the sequential map `t`. -/
structure Layers (r m t : SpendMap) : Prop where
  sound : ∀ o e, m.lookup o = some e → t.lookup o = some e
  cover : ∀ o e, t.lookup o = some e → m.lookup o = some e ∨ r.lookup o = some e

/-- Where memory and the sequential map differ, RocksDB holds the row and memory none. -/
theorem Layers.missing {r m t : SpendMap} (h : Layers r m t) {o : OutPointKey}
    (hne : m.lookup o ≠ t.lookup o) :
    ∃ e, m.lookup o = none ∧ t.lookup o = some e ∧ r.lookup o = some e := by
  cases hm : m.lookup o with
  | some e => exact absurd (hm.trans (h.sound o e hm).symm) hne
  | none =>
    cases ht : t.lookup o with
    | none => exact absurd (hm.trans ht.symm) hne
    | some e =>
      rcases h.cover o e ht with h' | h'
      · rw [hm] at h'
        cases h'
      · exact ⟨e, rfl, rfl, h'⟩

section
variable [Externals]

/-- A block over a map that holds none of its outputs yet settles its ledger. -/
theorem AppliedSpec.map_eq {s s' : P2trIndexerState} {block : BlockScanInput} {a : AppliedBlock}
    (hs : AppliedSpec s block s' a)
    (hfresh : ∀ o ∈ createdOutpoints [block], s.outpointToSpend.lookup o = none)
    (hnd : (createdOutpoints [block]).Nodup) :
    s'.outpointToSpend = settle s.outpointToSpend (a.createdUtxos.map createdPair)
      (a.spentUtxos.map spentPair) := by
  obtain ⟨log, hexec, hputs, htakes⟩ := hs.ledger
  have hkeys : (puts log).map Prod.fst = a.createdUtxos.map fun c => c.entry.outpoint := by
    rw [hputs, List.map_map]
    rfl
  rw [← hputs, ← htakes]
  apply exec_eq_settle hexec
  · rw [hkeys]
    exact hs.created_sublist.nodup hnd
  · intro o ho
    rw [hkeys] at ho
    exact hfresh o (hs.created_sublist.subset ho)

theorem AppliedSpec.spent_keys {s s' : P2trIndexerState} {block : BlockScanInput} {a : AppliedBlock}
    (hs : AppliedSpec s block s' a) {o : OutPointKey}
    (ho : o ∈ (a.spentUtxos.map spentPair).map Prod.fst) : o ∈ block.inputOutpoints := by
  rw [List.map_map] at ho
  obtain ⟨spent, hspent, rfl⟩ := List.mem_map.mp ho
  exact hs.inputs spent hspent

theorem AppliedSpec.created_keys {s s' : P2trIndexerState} {block : BlockScanInput}
    {a : AppliedBlock} (hs : AppliedSpec s block s' a) {o : OutPointKey}
    (ho : o ∈ (a.createdUtxos.map createdPair).map Prod.fst) : o ∈ createdOutpoints [block] := by
  rw [List.map_map] at ho
  exact hs.created_sublist.subset ho

/-- Outputs still to come are not in the map after a block either. -/
theorem AppliedSpec.fresh_after {s s' : P2trIndexerState} {block : BlockScanInput}
    {a : AppliedBlock} (hs : AppliedSpec s block s' a) {later : List OutPointKey}
    (hfresh : ∀ o ∈ createdOutpoints [block] ++ later, s.outpointToSpend.lookup o = none)
    (hdisj : ∀ o ∈ createdOutpoints [block], ∀ o' ∈ later, o ≠ o') :
    ∀ o ∈ later, s'.outpointToSpend.lookup o = none := by
  intro o ho
  cases hso : s'.outpointToSpend.lookup o with
  | none => rfl
  | some e =>
    rcases hs.lookup_origin hso with hold | ⟨created, hc, hpair⟩
    · rw [hfresh o (List.mem_append_right _ ho)] at hold
      cases hold
    · have hmem : o ∈ createdOutpoints [block] := by
        apply hs.created_keys
        rw [List.map_map]
        exact List.mem_map.mpr ⟨created, hc, congrArg Prod.fst hpair⟩
      exact absurd rfl (hdisj o hmem o ho)

theorem Layers.apply {r : SpendMap} {s s' t t' : P2trIndexerState} {block : BlockScanInput}
    {a : AppliedBlock} (hl : Layers r s.outpointToSpend t.outpointToSpend)
    (hs : AppliedSpec s block s' a) (ht : AppliedSpec t block t' a)
    (hagree : ∀ o ∈ block.inputOutpoints, s.outpointToSpend.lookup o = t.outpointToSpend.lookup o)
    (hfresh : ∀ o ∈ createdOutpoints [block], t.outpointToSpend.lookup o = none)
    (hnd : (createdOutpoints [block]).Nodup) :
    Layers r s'.outpointToSpend t'.outpointToSpend ∧
      ∀ o, s.outpointToSpend.lookup o = t.outpointToSpend.lookup o →
        s'.outpointToSpend.lookup o = t'.outpointToSpend.lookup o := by
  have hfresh' : ∀ o ∈ createdOutpoints [block], s.outpointToSpend.lookup o = none := by
    intro o ho
    cases hso : s.outpointToSpend.lookup o with
    | none => rfl
    | some e => exact absurd (hl.sound o e hso) (by rw [hfresh o ho]; simp)
  rw [hs.map_eq hfresh' hnd, ht.map_eq hfresh hnd]
  -- a key where the sides differ is neither spent nor created by the block
  have hother : ∀ o, s.outpointToSpend.lookup o ≠ t.outpointToSpend.lookup o →
      ∃ e, (settle s.outpointToSpend (a.createdUtxos.map createdPair)
          (a.spentUtxos.map spentPair)).lookup o = none ∧
        (settle t.outpointToSpend (a.createdUtxos.map createdPair)
          (a.spentUtxos.map spentPair)).lookup o = some e ∧ r.lookup o = some e := by
    intro o hne
    obtain ⟨e, hso, hto, hro⟩ := hl.missing hne
    have hc : o ∉ (a.createdUtxos.map createdPair).map Prod.fst := by
      intro hmem
      rw [hfresh o (hs.created_keys hmem)] at hto
      cases hto
    have hsp : o ∉ (a.spentUtxos.map spentPair).map Prod.fst := fun hmem =>
      hne (hagree o (hs.spent_keys hmem))
    exact ⟨e, by rw [settle_of_notMem hc hsp, hso], by rw [settle_of_notMem hc hsp, hto], hro⟩
  refine ⟨⟨fun o e ho => ?_, fun o e ho => ?_⟩, fun o heq => settle_congr _ _ heq⟩
  · by_cases heq : s.outpointToSpend.lookup o = t.outpointToSpend.lookup o
    · rwa [settle_congr _ _ heq] at ho
    · obtain ⟨e', hnone, -, -⟩ := hother o heq
      rw [hnone] at ho
      cases ho
  · by_cases heq : s.outpointToSpend.lookup o = t.outpointToSpend.lookup o
    · exact Or.inl (by rwa [settle_congr _ _ heq])
    · obtain ⟨e', -, hsome, hro⟩ := hother o heq
      rw [hsome] at ho
      exact Or.inr (ho ▸ hro)

theorem Built.layers {os : List OutPointKey} {r : SpendMap} {s s' t : P2trIndexerState}
    {news : List (BlockScanInput × Pending)} (h : Built s news s') (hst : SameBut s t)
    (hl : Layers r s.outpointToSpend t.outpointToSpend)
    (hos : ∀ o ∈ os, s.outpointToSpend.lookup o = t.outpointToSpend.lookup o)
    (hin : ∀ o ∈ spentOutpoints (news.map Prod.fst), o ∈ os)
    (hfresh : ∀ o ∈ createdOutpoints (news.map Prod.fst), t.outpointToSpend.lookup o = none)
    (hnd : (createdOutpoints (news.map Prod.fst)).Nodup) :
    ∃ t', t.applyBlocks (news.map Prod.fst) = .ok (t', news.map (·.2.applied)) ∧ SameBut s' t' ∧
      Layers r s'.outpointToSpend t'.outpointToSpend := by
  obtain ⟨happly, -⟩ := h
  induction news generalizing s t with
  | nil =>
    simp only [List.map_nil, P2trIndexerState.applyBlocks, Except.ok.injEq, Prod.mk.injEq] at happly
    exact ⟨t, rfl, happly.1 ▸ hst, happly.1 ▸ hl⟩
  | cons n news ih =>
    obtain ⟨s₁, first, rest, h₁, h₂, heq⟩ := applyBlocks_cons_eq_ok.mp happly
    obtain ⟨rfl, rfl⟩ := List.cons.inj heq
    rw [List.map_cons, show n.1 :: news.map Prod.fst = [n.1] ++ news.map Prod.fst from rfl,
      createdOutpoints_append] at hfresh hnd
    rw [List.map_cons, show n.1 :: news.map Prod.fst = [n.1] ++ news.map Prod.fst from rfl,
      spentOutpoints_append] at hin
    have hagree : ∀ o ∈ n.1.inputOutpoints,
        s.outpointToSpend.lookup o = t.outpointToSpend.lookup o := by
      intro o ho
      apply hos o (hin o (List.mem_append_left _ ?_))
      exact List.mem_flatMap.mpr ⟨n.1, List.mem_singleton_self _, ho⟩
    -- the sequential side succeeds with the same block
    obtain ⟨t₁, h₁', hst₁⟩ : ∃ t₁, t.applyBlockWithStats n.1 = .ok (t₁, n.2.applied) ∧
        SameBut s₁ t₁ := by
      have := applyBlockWithStats_agree hst hagree
      rw [h₁] at this
      generalize hy : t.applyBlockWithStats n.1 = y at this
      cases this with
      | ok hxy =>
        rename_i y
        refine ⟨y.1, ?_, hxy.1⟩
        have h2 : n.2.applied = y.2 := hxy.2
        rw [h2]
    have hs := applyBlockWithStats_spec h₁
    have ht := applyBlockWithStats_spec h₁'
    have hnd' := List.nodup_append.mp hnd
    obtain ⟨hl₁, hkeep⟩ := hl.apply hs ht hagree
      (fun o ho => hfresh o (List.mem_append_left _ ho)) hnd'.1
    obtain ⟨t', ht', hst', hl'⟩ := ih hst₁ hl₁ (fun o ho => hkeep o (hos o ho))
      (fun o ho => hin o (List.mem_append_right _ ho))
      (ht.fresh_after hfresh hnd'.2.2) hnd'.2.1 h₂
    exact ⟨t', applyBlocks_cons_eq_ok.mpr ⟨t₁, n.2.applied, _, h₁', ht', rfl⟩, hst', hl'⟩

/-! ## A window over a chain -/

omit [Externals] in
theorem mem_createdOutpoints {blocks : List BlockScanInput} {o : OutPointKey}
    (h : o ∈ createdOutpoints blocks) : ChainEvent.create o ∈ chainEvents blocks := by
  obtain ⟨block, hb, h⟩ := List.mem_flatMap.mp h
  obtain ⟨tx, htx, h⟩ := List.mem_flatMap.mp h
  obtain ⟨output, ho, rfl⟩ := List.mem_map.mp h
  refine List.mem_flatMap.mpr ⟨block, hb, List.mem_flatMap.mpr ⟨tx, htx, ?_⟩⟩
  exact List.mem_append_right _ (List.mem_map.mpr ⟨output, ho, rfl⟩)

omit [Externals] in
theorem mem_spentOutpoints {blocks : List BlockScanInput} {o : OutPointKey}
    (h : o ∈ spentOutpoints blocks) : ChainEvent.spend o ∈ chainEvents blocks := by
  obtain ⟨block, hb, h⟩ := List.mem_flatMap.mp h
  obtain ⟨tx, htx, h⟩ := List.mem_flatMap.mp h
  obtain ⟨input, hi, rfl⟩ := List.mem_map.mp h
  refine List.mem_flatMap.mpr ⟨block, hb, List.mem_flatMap.mpr ⟨tx, htx, ?_⟩⟩
  exact List.mem_append_left _ (List.mem_map.mpr ⟨input, hi, rfl⟩)

section
variable {emitStartHeight : ℕ} {chain pre mid news : List BlockScanInput}

omit [Externals] in
theorem ValidChain.created_once (hv : ValidChain emitStartHeight chain) (hpre : pre ++ news <+: chain)
    {o : OutPointKey} (h : o ∈ createdOutpoints pre) : o ∉ createdOutpoints news := by
  obtain ⟨post, rfl⟩ := hpre
  have hnd := hv.createdOnce
  rw [createdOutpoints_append, createdOutpoints_append] at hnd
  have hnd' := List.nodup_append.mp (List.nodup_append.mp hnd).1
  exact fun h' => hnd'.2.2 o h o h' rfl

omit [Externals] in
theorem ValidChain.created_nodup (hv : ValidChain emitStartHeight chain)
    (hpre : pre ++ news <+: chain) : (createdOutpoints news).Nodup := by
  obtain ⟨post, rfl⟩ := hpre
  have hnd := hv.createdOnce
  rw [createdOutpoints_append, createdOutpoints_append] at hnd
  exact (List.nodup_append.mp (List.nodup_append.mp hnd).1).2.1

omit [Externals] in
theorem ValidChain.spent_once (hv : ValidChain emitStartHeight chain)
    (hpre : pre ++ mid ++ news <+: chain) {o : OutPointKey} (hc : o ∈ createdOutpoints pre)
    (hs : o ∈ spentOutpoints mid) : o ∉ spentOutpoints news := by
  intro hs'
  obtain ⟨post, rfl⟩ := hpre
  obtain ⟨before, after, hsplit⟩ := List.append_of_mem (mem_createdOutpoints hc)
  have hmid := List.count_pos_iff.mpr (mem_spentOutpoints hs)
  have hnews := List.count_pos_iff.mpr (mem_spentOutpoints hs')
  have hle := hv.spentOnce before o
    (after ++ (chainEvents mid ++ (chainEvents news ++ chainEvents post))) (by
      rw [chainEvents_append, chainEvents_append, chainEvents_append, hsplit]
      simp only [List.append_assoc, List.cons_append])
  rw [List.count_append, List.count_append, List.count_append] at hle
  omega

theorem sequential_created {S : P2trIndexerState} {A : List AppliedBlock}
    (h : sequential pre = .ok (S, A)) {o : OutPointKey} {e : SpendLookup}
    (ho : S.outpointToSpend.lookup o = some e) : o ∈ createdOutpoints pre := by
  rcases lookup_applyBlocks h ho with h₀ | h₀
  · cases h₀
  · exact h₀

/-- The temporary candidates of a chunk make memory right at every outpoint it spends. -/
theorem CachedSpec.layers {db : RocksIndexStore} {state state₁ S t : P2trIndexerState}
    {cached : List OutPointKey} {A B : List AppliedBlock} (hv : ValidChain emitStartHeight chain)
    (hpre : pre ++ mid ++ news <+: chain) (hS : sequential pre = .ok (S, A))
    (hdb : db.outpoints = S.outpointToSpend) (ht : S.applyBlocks mid = .ok (t, B))
    (hl : Layers db.outpoints state.outpointToSpend t.outpointToSpend)
    (hc : CachedSpec db state news state₁ cached) :
    Layers db.outpoints state₁.outpointToSpend t.outpointToSpend ∧
      ∀ o ∈ spentOutpoints news, state₁.outpointToSpend.lookup o = t.outpointToSpend.lookup o := by
  have hseq : sequential (pre ++ mid) = .ok (t, A ++ B) :=
    applyBlocks_append_eq_ok.mpr ⟨S, A, B, hS, ht, rfl⟩
  have hinput : ∀ o ∈ spentOutpoints news,
      state₁.outpointToSpend.lookup o = t.outpointToSpend.lookup o := by
    intro o ho
    cases hso : state.outpointToSpend.lookup o with
    | some e => rw [hc.hit o e hso, hl.sound o e hso]
    | none =>
      cases hco : o.isCoinbase with
      | true =>
        -- a coinbase input names no output, and memory and the chain agree on that
        rw [hc.other o hso fun hel => absurd hel.2 (by rw [hco]; simp)]
        cases hto : t.outpointToSpend.lookup o with
        | none => rfl
        | some e =>
          have hmem : o ∈ createdOutpoints chain := by
            obtain ⟨post, rfl⟩ := hpre
            rw [createdOutpoints_append, createdOutpoints_append]
            exact List.mem_append_left _ (List.mem_append_left _ (sequential_created hseq hto))
          rw [hv.notNull o hmem] at hco
          cases hco
      | false =>
        rw [hc.miss o hso ⟨ho, hco⟩]
        cases hto : t.outpointToSpend.lookup o with
        | some e =>
          rcases hl.cover o e hto with h | h
          · rw [hso] at h
            cases h
          · exact h
        | none =>
          -- a committed row that the window has lost was spent by it, so not again here
          cases hro : db.outpoints.lookup o with
          | none => rfl
          | some e =>
            rw [hdb] at hro
            have hcreated := sequential_created hS hro
            have hpm : pre ++ mid <+: chain := (List.prefix_append _ _).trans hpre
            by_cases hspent : o ∈ spentOutpoints mid
            · exact absurd ho (hv.spent_once hpre hcreated hspent)
            · rw [lookup_persist ht (hv.created_once hpm hcreated) hspent, hro] at hto
              cases hto
  refine ⟨⟨fun o e ho => ?_, fun o e ho => ?_⟩, hinput⟩
  · cases hso : state.outpointToSpend.lookup o with
    | some e' =>
      rw [hc.hit o e' hso, Option.some.injEq] at ho
      exact ho ▸ hl.sound o e' hso
    | none =>
      by_cases hel : eligible news o
      · rw [← hinput o hel.1]
        exact ho
      · rw [hc.other o hso hel] at ho
        cases ho
  · rcases hl.cover o e ho with h | h
    · exact Or.inl (hc.hit o e h)
    · exact Or.inr h

/-- Evicting the candidates after the chunk loses nothing that RocksDB does not hold. -/
theorem CachedSpec.evict {db : RocksIndexStore} {state state₁ state₂ S t t' : P2trIndexerState}
    {cached : List OutPointKey} {A B' : List AppliedBlock}
    (hv : ValidChain emitStartHeight chain) (hpre : pre ++ mid ++ news <+: chain)
    (hS : sequential pre = .ok (S, A)) (hdb : db.outpoints = S.outpointToSpend)
    (ht' : t.applyBlocks news = .ok (t', B'))
    (hc : CachedSpec db state news state₁ cached)
    (hinput : ∀ o ∈ spentOutpoints news,
      state₁.outpointToSpend.lookup o = t.outpointToSpend.lookup o)
    (hl : Layers db.outpoints state₂.outpointToSpend t'.outpointToSpend) :
    Layers db.outpoints (state₂.evictSpendUidCandidates cached).outpointToSpend
      t'.outpointToSpend := by
  refine ⟨fun o e ho => ?_, fun o e ho => ?_⟩
  · rw [P2trIndexerState.evictSpendUidCandidates_lookup] at ho
    split_ifs at ho
    exact hl.sound o e ho
  · rw [P2trIndexerState.evictSpendUidCandidates_lookup]
    split_ifs with hmem
    · right
      obtain ⟨hso, hel, hro⟩ := (hc.cached o).mp hmem
      rcases lookup_applyBlocks ht' ho with hto | hcreated
      · rw [← hinput o hel.1, hc.miss o hso hel] at hto
        exact hto
      · obtain ⟨e', he'⟩ := Option.ne_none_iff_exists'.mp hro
        rw [hdb] at he'
        rw [List.append_assoc] at hpre
        refine absurd ?_ (hv.created_once hpre (sequential_created hS he'))
        rw [createdOutpoints_append]
        exact List.mem_append_right _ hcreated
    · exact hl.cover o e ho

/-- A window over a chain gives the blocks of the sequential indexer, and leaves memory
right. -/
theorem WindowTrace.layers {db : RocksIndexStore} {start state S : P2trIndexerState}
    {done : List (BlockScanInput × Pending)} {A : List AppliedBlock}
    (hv : ValidChain emitStartHeight chain) (hS : sequential pre = .ok (S, A))
    (hdb : db.outpoints = S.outpointToSpend) (hstart : SameBut start S)
    (hsound : ∀ o e, start.outpointToSpend.lookup o = some e → S.outpointToSpend.lookup o = some e)
    (h : WindowTrace db start done state) (hpre : pre ++ done.map Prod.fst <+: chain) :
    ∃ t, S.applyBlocks (done.map Prod.fst) = .ok (t, done.map (·.2.applied)) ∧ SameBut state t ∧
      Layers db.outpoints state.outpointToSpend t.outpointToSpend := by
  induction h with
  | nil => exact ⟨S, rfl, hstart, hsound, fun o e ho => Or.inr (by rw [hdb]; exact ho)⟩
  | @chunk done news state state₁ state₂ cached _ hcache hbuilt ih =>
    rw [List.map_append, ← List.append_assoc] at hpre
    obtain ⟨t, ht, hst, hl⟩ := ih ((List.prefix_append _ _).trans hpre)
    obtain ⟨hl₁, hinput⟩ := hcache.layers hv hpre hS hdb ht hl
    have hseq : sequential (pre ++ done.map Prod.fst) = .ok (t, A ++ done.map (·.2.applied)) :=
      applyBlocks_append_eq_ok.mpr ⟨S, A, _, hS, ht, rfl⟩
    have hfresh : ∀ o ∈ createdOutpoints (news.map Prod.fst),
        t.outpointToSpend.lookup o = none := by
      intro o ho
      cases hto : t.outpointToSpend.lookup o with
      | none => rfl
      | some e => exact absurd ho (hv.created_once hpre (sequential_created hseq hto))
    have hst₁ : SameBut state₁ t := ⟨hcache.nextUid.trans hst.nextUid, hcache.seen.trans hst.seen⟩
    obtain ⟨t', ht', hst', hl'⟩ := hbuilt.layers hst₁ hl₁ hinput (fun o ho => ho) hfresh
      (hv.created_nodup hpre)
    refine ⟨t', ?_, ?_, hcache.evict hv hpre hS hdb ht' hinput hl'⟩
    · rw [List.map_append, List.map_append]
      exact applyBlocks_append_eq_ok.mpr ⟨t, _, _, ht, ht', rfl⟩
    · obtain ⟨hnext, hseen⟩ := state₂.evictSpendUidCandidates_frame cached
      exact ⟨hnext.trans hst'.nextUid, hseen.trans hst'.seen⟩

/-- The write batch of a window turns the sequential map before it into the one after. -/
theorem commit_outpoints {db batch : RocksIndexStore} {t t' : P2trIndexerState}
    {blocks : List BlockScanInput} {applied : List AppliedBlock}
    (h : t.applyBlocks blocks = .ok (t', applied)) (hb : batch.outpoints = t.outpointToSpend)
    (hfresh : ∀ o ∈ createdOutpoints blocks, t.outpointToSpend.lookup o = none)
    (hnd : (createdOutpoints blocks).Nodup) :
    (applied.foldl (RocksIndexStore.batchBlock db) batch).outpoints = t'.outpointToSpend := by
  induction blocks generalizing t batch applied with
  | nil =>
    rw [P2trIndexerState.applyBlocks, Except.ok.injEq, Prod.mk.injEq] at h
    rw [← h.1, ← h.2]
    exact hb
  | cons block blocks ih =>
    obtain ⟨t₁, first, rest, h₁, h₂, rfl⟩ := applyBlocks_cons_eq_ok.mp h
    rw [show block :: blocks = [block] ++ blocks from rfl, createdOutpoints_append] at hfresh hnd
    have hs := applyBlockWithStats_spec h₁
    have hnd' := List.nodup_append.mp hnd
    rw [List.foldl_cons]
    refine ih h₂ ?_ ?_ hnd'.2.1
    · rw [batchBlock_outpoints, hb,
        hs.map_eq (fun o ho => hfresh o (List.mem_append_left _ ho)) hnd'.1]
      rfl
    · exact hs.fresh_after hfresh hnd'.2.2

end

end

end BitcoinData
