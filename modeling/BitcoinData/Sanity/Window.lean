import BitcoinData.Lib.Ledger
import BitcoinData.Sanity.Apply
import BitcoinData.Spec.LightIndexer

/-! What `catch_up_ranges` has computed when it starts to write: a run of connected
blocks, each applied to the state the one before it left, with historical spend
candidates added before a chunk and evicted after it. -/

namespace BitcoinData

open Lib

/-! ## Candidates of a chunk -/

namespace P2trIndexerState

theorem evictSpendUidCandidates_lookup (state : P2trIndexerState) (cached : List OutPointKey)
    (o : OutPointKey) :
    (state.evictSpendUidCandidates cached).outpointToSpend.lookup o =
      if o ∈ cached then none else state.outpointToSpend.lookup o := by
  unfold evictSpendUidCandidates
  induction cached generalizing state with
  | nil => rfl
  | cons k cached ih =>
    rw [List.foldl_cons, ih, lookup_erase_ite]
    by_cases hk : o = k
    · simp [hk]
    · rw [if_neg hk]
      simp only [List.mem_cons, hk, false_or]

theorem evictSpendUidCandidates_frame (state : P2trIndexerState) (cached : List OutPointKey) :
    (state.evictSpendUidCandidates cached).nextUid = state.nextUid ∧
      (state.evictSpendUidCandidates cached).seenP2trKeys = state.seenP2trKeys := by
  unfold evictSpendUidCandidates
  induction cached generalizing state with
  | nil => exact ⟨rfl, rfl⟩
  | cons k cached ih => exact ih _

/-- One candidate: it enters the map, and the list for eviction, when its outpoint is
not in the map yet. -/
def cacheOne (acc : P2trIndexerState × List OutPointKey) (candidate : OutPointKey × SpendLookup) :
    P2trIndexerState × List OutPointKey :=
  match acc.1.outpointToSpend.lookup candidate.1 with
  | some _ => acc
  | none => ({ acc.1 with
      outpointToSpend := acc.1.outpointToSpend.insert candidate.1 candidate.2 },
      acc.2 ++ [candidate.1])

theorem cacheSpendUidCandidates_eq (state : P2trIndexerState)
    (candidates : List (OutPointKey × SpendLookup)) :
    state.cacheSpendUidCandidates candidates = candidates.foldl cacheOne (state, []) := rfl

theorem cacheOne_foldl {candidates : List (OutPointKey × SpendLookup)}
    (hnd : (candidates.map Prod.fst).Nodup) (acc : P2trIndexerState × List OutPointKey) :
    (∀ o, (candidates.foldl cacheOne acc).1.outpointToSpend.lookup o =
      (acc.1.outpointToSpend.lookup o).or
        ((candidates.find? fun c => c.1 = o).map Prod.snd)) ∧
    (∀ o, o ∈ (candidates.foldl cacheOne acc).2 ↔ o ∈ acc.2 ∨
      acc.1.outpointToSpend.lookup o = none ∧ o ∈ candidates.map Prod.fst) ∧
    (candidates.foldl cacheOne acc).1.nextUid = acc.1.nextUid ∧
    (candidates.foldl cacheOne acc).1.seenP2trKeys = acc.1.seenP2trKeys := by
  induction candidates generalizing acc with
  | nil => simp
  | cons c candidates ih =>
    simp only [List.map_cons, List.nodup_cons] at hnd
    obtain ⟨hlook, hmem, hnext, hseen⟩ := ih hnd.2 (cacheOne acc c)
    rw [List.foldl_cons]
    cases hc : acc.1.outpointToSpend.lookup c.1 with
    | some e =>
      have hone : cacheOne acc c = acc := by simp [cacheOne, hc]
      rw [hone] at hlook hmem hnext hseen ⊢
      refine ⟨fun o => ?_, fun o => ?_, hnext, hseen⟩
      · rw [hlook, List.find?_cons]
        by_cases ho : c.1 = o
        · subst ho
          simp [hc]
        · simp [ho]
      · rw [hmem, List.map_cons, List.mem_cons]
        by_cases ho : o = c.1
        · subst ho
          simp [hc]
        · simp [ho]
    | none =>
      have hone : cacheOne acc c = ({ acc.1 with
          outpointToSpend := acc.1.outpointToSpend.insert c.1 c.2 }, acc.2 ++ [c.1]) := by
        simp [cacheOne, hc]
      rw [hone] at hlook hmem hnext hseen ⊢
      refine ⟨fun o => ?_, fun o => ?_, hnext, hseen⟩
      · rw [hlook, lookup_insert_ite, List.find?_cons]
        by_cases ho : o = c.1
        · subst ho
          simp [hc]
        · simp [ho, Ne.symm ho]
      · rw [hmem, lookup_insert_ite, List.map_cons, List.mem_cons, List.mem_append,
          List.mem_singleton]
        by_cases ho : o = c.1
        · subst ho
          simp [hc]
        · simp [ho]

end P2trIndexerState

/-- The outpoints of a chunk that may be looked up. -/
def eligible (blocks : List BlockScanInput) (o : OutPointKey) : Prop :=
  o ∈ spentOutpoints blocks ∧ o.isCoinbase = false

section
variable {db : RocksIndexStore} {state state₁ : P2trIndexerState} {blocks : List BlockScanInput}
  {cached : List OutPointKey}

theorem lookupOutpointUids_cons (db : RocksIndexStore) (k : OutPointKey) (os : List OutPointKey) :
    db.lookupOutpointUids (k :: os) = ((db.outpoints.lookup k).map fun e => (k, e)).toList ++
      db.lookupOutpointUids os := by
  unfold RocksIndexStore.lookupOutpointUids
  rw [List.filterMap_cons]
  cases db.outpoints.lookup k <;> rfl

theorem lookupOutpointUids_find (db : RocksIndexStore) (os : List OutPointKey) (o : OutPointKey) :
    ((db.lookupOutpointUids os).find? fun c => c.1 = o).map Prod.snd =
      if o ∈ os then db.outpoints.lookup o else none := by
  induction os with
  | nil => rfl
  | cons k os ih =>
    rw [lookupOutpointUids_cons]
    cases hl : db.outpoints.lookup k with
    | none =>
      rw [Option.map_none, Option.toList_none, List.nil_append, ih]
      by_cases hk : o = k
      · subst hk
        simp [hl]
      · simp [hk]
    | some e =>
      rw [Option.map_some, Option.toList_some, List.singleton_append, List.find?_cons]
      by_cases hk : o = k
      · subst hk
        simp [hl]
      · simp only [decide_eq_false (Ne.symm hk), ih, List.mem_cons, hk, false_or]

theorem mem_lookupOutpointUids_map (db : RocksIndexStore) (os : List OutPointKey)
    (o : OutPointKey) :
    o ∈ (db.lookupOutpointUids os).map Prod.fst ↔ o ∈ os ∧ db.outpoints.lookup o ≠ none := by
  simp only [RocksIndexStore.lookupOutpointUids, List.mem_map, List.mem_filterMap,
    Option.map_eq_some_iff, Prod.exists, Prod.mk.injEq]
  constructor
  · rintro ⟨k, e, ⟨k', hk, e', he, rfl, rfl⟩, rfl⟩
    exact ⟨hk, by simp [he]⟩
  · rintro ⟨ho, hne⟩
    obtain ⟨e, he⟩ := Option.ne_none_iff_exists'.mp hne
    exact ⟨o, e, ⟨o, ho, e, he, rfl, rfl⟩, rfl⟩

theorem nodup_lookupOutpointUids (db : RocksIndexStore) {os : List OutPointKey} (h : os.Nodup) :
    ((db.lookupOutpointUids os).map Prod.fst).Nodup := by
  have hsub : ((db.lookupOutpointUids os).map Prod.fst).Sublist os := by
    unfold RocksIndexStore.lookupOutpointUids
    induction os with
    | nil => exact List.Sublist.refl _
    | cons k os ih =>
      rw [List.filterMap_cons]
      cases hl : db.outpoints.lookup k with
      | none => exact (ih (List.nodup_cons.mp h).2).cons k
      | some e => exact (ih (List.nodup_cons.mp h).2).cons_cons k
  exact hsub.nodup h

/-- The map a chunk is applied to: RocksDB stands in for what the memory map lacks, at
the outpoints the chunk spends; exactly these additions are evicted afterwards. -/
structure CachedSpec (db : RocksIndexStore) (state : P2trIndexerState)
    (blocks : List BlockScanInput) (state₁ : P2trIndexerState) (cached : List OutPointKey) :
    Prop where
  hit : ∀ o e, state.outpointToSpend.lookup o = some e → state₁.outpointToSpend.lookup o = some e
  miss : ∀ o, state.outpointToSpend.lookup o = none → eligible blocks o →
    state₁.outpointToSpend.lookup o = db.outpoints.lookup o
  other : ∀ o, state.outpointToSpend.lookup o = none → ¬ eligible blocks o →
    state₁.outpointToSpend.lookup o = none
  cached : ∀ o, o ∈ cached ↔ state.outpointToSpend.lookup o = none ∧ eligible blocks o ∧
    db.outpoints.lookup o ≠ none
  nextUid : state₁.nextUid = state.nextUid
  seen : state₁.seenP2trKeys = state.seenP2trKeys

theorem lookupSpendUidsForChunk_spec
    (h : lookupSpendUidsForChunk db state blocks = (state₁, cached)) :
    CachedSpec db state blocks state₁ cached := by
  unfold lookupSpendUidsForChunk at h
  rw [P2trIndexerState.cacheSpendUidCandidates_eq] at h
  set os := ((spentOutpoints blocks).filter fun outpoint =>
    !outpoint.isCoinbase && !state.containsOutpoint outpoint).dedup with hos
  have hmem : ∀ o, o ∈ os ↔ eligible blocks o ∧ state.outpointToSpend.lookup o = none := by
    intro o
    simp [hos, eligible, P2trIndexerState.containsOutpoint, and_assoc]
  obtain ⟨hlook, hcached, hnext, hseen⟩ := P2trIndexerState.cacheOne_foldl
    (nodup_lookupOutpointUids db (List.nodup_dedup _)) (state, [])
  rw [h] at hlook hcached hnext hseen
  refine ⟨fun o e ho => ?_, fun o ho hel => ?_, fun o ho hel => ?_, fun o => ?_, hnext, hseen⟩
  · rw [hlook, ho]
    rfl
  · rw [hlook, ho, Option.none_or, lookupOutpointUids_find, if_pos ((hmem o).mpr ⟨hel, ho⟩)]
  · rw [hlook, ho, Option.none_or, lookupOutpointUids_find,
      if_neg fun hin => hel ((hmem o).mp hin).1]
  · rw [hcached, mem_lookupOutpointUids_map, hmem]
    simp only [List.not_mem_nil, false_or]
    tauto

end

/-! ## Blocks of a chunk -/

/-- Every block connects to the one before it, and the first one to `previous`. -/
def Linked : Option BlockHashBytes → List BlockScanInput → Prop
  | _, [] => True
  | previous, block :: blocks =>
    (∀ hash ∈ previous, block.previousBlockHash = hash) ∧ Linked (some block.blockHash) blocks

/-- The hash that a block on top of `blocks` has to connect to. -/
def tipHash (previous : Option BlockHashBytes) (blocks : List BlockScanInput) :
    Option BlockHashBytes :=
  match blocks.getLast? with
  | some block => some block.blockHash
  | none => previous

theorem linked_append (previous : Option BlockHashBytes) (xs ys : List BlockScanInput) :
    Linked previous (xs ++ ys) ↔ Linked previous xs ∧ Linked (tipHash previous xs) ys := by
  induction xs generalizing previous with
  | nil => simp [Linked, tipHash]
  | cons x xs ih =>
    have htip : tipHash previous (x :: xs) = tipHash (some x.blockHash) xs := by
      cases xs using List.reverseRecOn with
      | nil => rfl
      | append_singleton xs y =>
        rw [tipHash, tipHash, ← List.cons_append, List.getLast?_concat, List.getLast?_concat]
    rw [List.cons_append, Linked, Linked, ih, htip, and_assoc]

theorem validateLinks_ok {block : BlockScanInput} {blocks : List BlockScanInput} {u : Unit}
    (h : validateLinks (block :: blocks) = .ok u) :
    blocks.map (·.height) = List.range' (block.height + 1) blocks.length ∧
      Linked (some block.blockHash) blocks := by
  induction blocks generalizing block with
  | nil => exact ⟨rfl, trivial⟩
  | cons next blocks ih =>
    simp only [validateLinks, bind_eq_ok, ensure_eq_ok] at h
    obtain ⟨_, hheight, _, hlink, h⟩ := h
    obtain ⟨hheights, hlinked⟩ := ih h
    refine ⟨?_, ?_, hlinked⟩
    · rw [List.map_cons, hheights, hheight]
      rfl
    · intro hash hhash
      rw [hlink]
      exact Option.mem_some_iff.mp hhash

theorem validateDecodedChunk_ok {decoded : List BlockScanInput} {start : ℕ}
    {previous : Option BlockHashBytes} {u : Unit}
    (h : validateDecodedChunk decoded start previous = .ok u) :
    decoded ≠ [] ∧ decoded.map (·.height) = List.range' start decoded.length ∧
      Linked previous decoded := by
  simp only [validateDecodedChunk, bind_eq_ok, okOr_eq_ok, ensure_eq_ok] at h
  obtain ⟨first, hfirst, _, hheight, _, hprev, h⟩ := h
  cases decoded with
  | nil => cases hfirst
  | cons block blocks =>
    rw [List.head?_cons, Option.some.injEq] at hfirst
    subst hfirst
    obtain ⟨hheights, hlinked⟩ := validateLinks_ok h
    refine ⟨List.cons_ne_nil _ _, ?_, hprev, hlinked⟩
    rw [List.map_cons, hheights, hheight]
    rfl

section
variable [Externals]

/-- `news` are applied in order to `state`, and each is encoded. -/
structure Built (state : P2trIndexerState) (news : List (BlockScanInput × Pending))
    (state' : P2trIndexerState) : Prop where
  applied : state.applyBlocks (news.map Prod.fst) = .ok (state', news.map (·.2.applied))
  payload : ∀ n ∈ news, storedBlockBytes n.2.applied.storageBlock = .ok n.2.payload

theorem applyScans_built {emitStartHeight : ℕ} {blocks : List BlockScanInput}
    {acc acc' : P2trIndexerState × List Pending × ℕ}
    (hemit : ∀ block ∈ blocks, emitStartHeight ≤ block.height)
    (h : blocks.foldlM (applyScan emitStartHeight) acc = .ok acc') :
    ∃ news, news.map Prod.fst = blocks ∧ acc'.2.1 = acc.2.1 ++ news.map Prod.snd ∧
      Built acc.1 news acc'.1 := by
  induction blocks generalizing acc with
  | nil =>
    rw [List.foldlM_nil, pure_eq_ok, Except.ok.injEq] at h
    subst h
    exact ⟨[], rfl, by simp, rfl, by simp⟩
  | cons block blocks ih =>
    rw [List.foldlM_cons, bind_eq_ok] at h
    obtain ⟨acc₁, h₁, h₂⟩ := h
    unfold applyScan at h₁
    rw [if_pos (hemit block List.mem_cons_self)] at h₁
    simp only [bind_eq_ok, pure_eq_ok, Except.ok.injEq] at h₁
    obtain ⟨⟨state, applied⟩, happly, payload, hpayload, rfl⟩ := h₁
    obtain ⟨news, hfst, hsnd, hbuilt⟩ := ih (fun b hb => hemit b (List.mem_cons_of_mem _ hb)) h₂
    refine ⟨(block, ⟨applied, payload⟩) :: news, ?_, ?_, ?_, ?_⟩
    · rw [List.map_cons, hfst]
    · rw [hsnd, List.append_assoc]
      rfl
    · exact applyBlocks_cons_eq_ok.mpr ⟨state, applied, _, happly, hbuilt.applied, rfl⟩
    · intro n hn
      rcases List.mem_cons.mp hn with rfl | hn
      · exact hpayload
      · exact hbuilt.payload n hn

/-- The chunks of one window: `done` lists the blocks with what was built from them. -/
inductive WindowTrace (db : RocksIndexStore) (start : P2trIndexerState) :
    List (BlockScanInput × Pending) → P2trIndexerState → Prop
  | nil : WindowTrace db start [] start
  | chunk {done news : List (BlockScanInput × Pending)} {state state₁ state₂ : P2trIndexerState}
      {cached : List OutPointKey} (h : WindowTrace db start done state)
      (hcache : CachedSpec db state (news.map Prod.fst) state₁ cached)
      (hbuilt : Built state₁ news state₂) :
      WindowTrace db start (done ++ news) (state₂.evictSpendUidCandidates cached)

theorem Built.mem {state state' : P2trIndexerState} {news : List (BlockScanInput × Pending)}
    (h : Built state news state') {n : BlockScanInput × Pending} (hn : n ∈ news) :
    ∃ s s', AppliedSpec s n.1 s' n.2.applied := by
  obtain ⟨happly, -⟩ := h
  induction news generalizing state with
  | nil => cases hn
  | cons m news ih =>
    obtain ⟨state₁, first, rest, h₁, h₂, heq⟩ := applyBlocks_cons_eq_ok.mp happly
    obtain ⟨rfl, rfl⟩ := List.cons.inj heq
    rcases List.mem_cons.mp hn with rfl | hn
    · exact ⟨state, state₁, applyBlockWithStats_spec h₁⟩
    · exact ih hn h₂

theorem WindowTrace.mem {db : RocksIndexStore} {start state : P2trIndexerState}
    {done : List (BlockScanInput × Pending)} (h : WindowTrace db start done state)
    {n : BlockScanInput × Pending} (hn : n ∈ done) :
    (∃ s s', AppliedSpec s n.1 s' n.2.applied) ∧
      storedBlockBytes n.2.applied.storageBlock = .ok n.2.payload := by
  induction h with
  | nil => cases hn
  | chunk h hcache hbuilt ih =>
    rcases List.mem_append.mp hn with hn | hn
    · exact ih hn
    · exact ⟨hbuilt.mem hn, hbuilt.payload n hn⟩

/-- The chunk loop so far. -/
structure ChunkInv (db : RocksIndexStore) (start : P2trIndexerState) (startHeight : ℕ)
    (done : List (BlockScanInput × Pending)) (cs : ChunkState) : Prop where
  trace : WindowTrace db start done cs.state
  pending : cs.pending = done.map Prod.snd
  heights : done.map (·.1.height) = List.range' startHeight done.length
  linked : Linked db.previousTipHash (done.map Prod.fst)
  previousTipHash : cs.previousTipHash = tipHash db.previousTipHash (done.map Prod.fst)
  lastBlock : cs.lastBlock = (done.map Prod.fst).getLast?.map fun b => (b.height, b.blockHash)
  chunkStart : cs.chunkStart = startHeight + done.length

theorem ChunkInv.processChunk {db : RocksIndexStore} {start : P2trIndexerState}
    {startHeight emitStartHeight : ℕ} {done : List (BlockScanInput × Pending)} {cs cs' : ChunkState}
    {chunk : DecodedChunk} (hi : ChunkInv db start startHeight done cs)
    (hemit : emitStartHeight ≤ startHeight)
    (h : processChunk emitStartHeight db cs chunk = .ok cs') :
    ∃ news, news ≠ [] ∧ news.map Prod.fst = chunk.blocks ∧
      ChunkInv db start startHeight (done ++ news) cs' := by
  unfold BitcoinData.processChunk at h
  simp only [bind_eq_ok, okOr_eq_ok, pure_eq_ok, Except.ok.injEq] at h
  obtain ⟨_, hvalid, chunkLast, hlast, acc', hfold, rfl⟩ := h
  obtain ⟨hne, hheights, hlinked⟩ := validateDecodedChunk_ok hvalid
  rw [hi.chunkStart] at hheights
  have hcache : CachedSpec db cs.state chunk.blocks
      (lookupSpendUidsForChunk db cs.state chunk.blocks).1
      (lookupSpendUidsForChunk db cs.state chunk.blocks).2 := lookupSpendUidsForChunk_spec rfl
  obtain ⟨news, hfst, hsnd, hbuilt⟩ := applyScans_built (fun block hb => by
    have hmem : block.height ∈ chunk.blocks.map (·.height) := List.mem_map_of_mem hb
    rw [hheights, List.mem_range'_1] at hmem
    omega) hfold
  have hlen : news.length = chunk.blocks.length := by rw [← hfst, List.length_map]
  have hlast' : (done ++ news).map Prod.fst = done.map Prod.fst ++ chunk.blocks := by
    rw [List.map_append, hfst]
  have hgetLast : (done.map Prod.fst ++ chunk.blocks).getLast? = some chunkLast := by
    rw [List.getLast?_append, hlast]
    rfl
  refine ⟨news, fun hnil => hne (by rw [← hfst, hnil]; rfl), hfst, ?_⟩
  exact {
    trace := WindowTrace.chunk hi.trace (by rw [hfst]; exact hcache) hbuilt
    pending := by rw [hsnd, hi.pending, List.map_append]
    heights := by
      have hnews : news.map (·.1.height) = chunk.blocks.map (·.height) := by
        rw [← hfst, List.map_map]
        rfl
      rw [List.map_append, hi.heights, hnews, hheights, List.length_append, hlen,
        List.range'_append_1]
    linked := by
      rw [hlast', linked_append]
      exact ⟨hi.linked, hi.previousTipHash ▸ hlinked⟩
    previousTipHash := by rw [hlast', tipHash, hgetLast]
    lastBlock := by rw [hlast', hgetLast, Option.map_some]
    chunkStart := by
      have hmem : chunkLast.height = startHeight + done.length + chunk.blocks.length - 1 := by
        have h₁ : (chunk.blocks.map (·.height)).getLast? = some chunkLast.height := by
          rw [List.getLast?_map, hlast]
          rfl
        rw [hheights, List.getLast?_range'] at h₁
        have hpos : chunk.blocks.length ≠ 0 := fun h0 => hne (List.length_eq_zero_iff.mp h0)
        simp only [hpos, if_false, Option.some.injEq] at h₁
        omega
      have hpos := List.length_pos_iff.mpr hne
      rw [List.length_append, hlen]
      change chunkLast.height + 1 = _
      omega }

/-- The source answered some request with this block. -/
def Fetched (fetch : FetchChunk) (block : BlockScanInput) : Prop :=
  ∃ start count chunk, fetch start count = .ok chunk ∧ block ∈ chunk.blocks

theorem ChunkInv.chunkLoop {db : RocksIndexStore} {start : P2trIndexerState}
    {startHeight emitStartHeight flushEndHeight : ℕ} {config : CatchUpConfig} {fetch : FetchChunk}
    (hemit : emitStartHeight ≤ startHeight) (fuel : ℕ) :
    ∀ {done : List (BlockScanInput × Pending)} {cs cs' : ChunkState},
      ChunkInv db start startHeight done cs → (∀ d ∈ done, Fetched fetch d.1) →
      chunkLoop emitStartHeight config db fetch flushEndHeight fuel cs = .ok cs' →
      ∃ done', ChunkInv db start startHeight done' cs' ∧ ∀ d ∈ done', Fetched fetch d.1 := by
  induction fuel with
  | zero =>
    intro done cs cs' hi hf h
    rw [BitcoinData.chunkLoop, Except.ok.injEq] at h
    exact ⟨done, h ▸ hi, hf⟩
  | succ fuel ih =>
    intro done cs cs' hi hf h
    unfold BitcoinData.chunkLoop at h
    split_ifs at h with hle
    · simp only [bind_eq_ok] at h
      obtain ⟨chunk, hfetch, cs₁, hchunk, h⟩ := h
      obtain ⟨news, -, hfst, hi₁⟩ := hi.processChunk hemit hchunk
      have hf₁ : ∀ d ∈ done ++ news, Fetched fetch d.1 := by
        intro d hd
        rcases List.mem_append.mp hd with hd | hd
        · exact hf d hd
        · exact ⟨_, _, chunk, hfetch, hfst ▸ List.mem_map_of_mem hd⟩
      split_ifs at h with hbudget
      · rw [pure_eq_ok, Except.ok.injEq] at h
        exact ⟨_, h ▸ hi₁, hf₁⟩
      · exact ih hi₁ hf₁ h
    · rw [Except.ok.injEq] at h
      exact ⟨done, h ▸ hi, hf⟩

/-- A window that is ready to be written. -/
structure WindowSpec (db : RocksIndexStore) (start : P2trIndexerState) (startHeight : ℕ)
    (window : Window) (done : List (BlockScanInput × Pending)) : Prop where
  trace : WindowTrace db start done window.state
  pending : window.pending = done.map Prod.snd
  heights : done.map (·.1.height) = List.range' startHeight done.length
  linked : Linked db.previousTipHash (done.map Prod.fst)
  last : (done.map Prod.fst).getLast?.map (fun b => (b.height, b.blockHash)) =
    some (window.lastHeight, window.lastHash)

theorem catchUpWindow_spec {db : RocksIndexStore} {state : P2trIndexerState}
    {emitStartHeight startHeight finalizedTip : ℕ} {config : CatchUpConfig} {fetch : FetchChunk}
    {window : Window} (hemit : emitStartHeight ≤ startHeight)
    (h : catchUpWindow emitStartHeight config db fetch state startHeight finalizedTip = .ok window) :
    ∃ done, WindowSpec db state startHeight window done ∧ ∀ d ∈ done, Fetched fetch d.1 := by
  unfold catchUpWindow at h
  simp only [bind_eq_ok, okOr_eq_ok, pure_eq_ok, Except.ok.injEq] at h
  obtain ⟨cs, hloop, ⟨lastHeight, lastHash⟩, hlast, rfl⟩ := h
  obtain ⟨done, hi, hf⟩ := ChunkInv.chunkLoop hemit _
    (ChunkInv.mk WindowTrace.nil rfl rfl trivial rfl rfl rfl) (by simp) hloop
  exact ⟨done, ⟨hi.trace, hi.pending, hi.heights, hi.linked, by rw [← hi.lastBlock, hlast]⟩, hf⟩

end

end BitcoinData
