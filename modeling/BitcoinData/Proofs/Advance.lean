import BitcoinData.Proofs.Marks
import BitcoinData.Proofs.Storable
import BitcoinData.Sanity.Applies
import BitcoinData.Sanity.ChainRun

/-! No step of an indexer that follows an indexable chain fails: the sequential indexer
gets through the chain, a window over a source that serves it is computed, and its
disk effects succeed. -/

namespace BitcoinData

open Lib

/-! ## Chunks that pass -/

theorem validateLinks_of {block : BlockScanInput} {blocks : List BlockScanInput}
    (hheights : blocks.map (·.height) = List.range' (block.height + 1) blocks.length)
    (hlinked : Linked (some block.blockHash) blocks) : validateLinks (block :: blocks) = .ok () := by
  induction blocks generalizing block with
  | nil => rfl
  | cons next blocks ih =>
    rw [List.map_cons, List.length_cons, List.range'_succ, List.cons.injEq] at hheights
    obtain ⟨hheight, hheights⟩ := hheights
    simp only [validateLinks, ensure_of hheight, ensure_of (hlinked.1 _ rfl), ok_bind]
    exact ih (by rw [hheights, hheight]) hlinked.2

theorem validateDecodedChunk_of {decoded : List BlockScanInput} {start : ℕ}
    {previous : Option BlockHashBytes} (hne : decoded ≠ [])
    (hheights : decoded.map (·.height) = List.range' start decoded.length)
    (hlinked : Linked previous decoded) : validateDecodedChunk decoded start previous = .ok () := by
  cases decoded with
  | nil => exact absurd rfl hne
  | cons block blocks =>
    rw [List.map_cons, List.length_cons, List.range'_succ, List.cons.injEq] at hheights
    obtain ⟨hheight, hheights⟩ := hheights
    simp only [validateDecodedChunk, List.head?_cons, okOr_some, ok_bind, ensure_of hheight,
      ensure_of hlinked.1]
    exact validateLinks_of (by rw [hheights, hheight]) hlinked.2

theorem linked_of_append {previous : Option BlockHashBytes} {xs ys : List BlockScanInput}
    (h : Linked previous ys) (hpre : xs <+: ys) : Linked previous xs := by
  obtain ⟨rest, rfl⟩ := hpre
  exact ((linked_append previous xs rest).mp h).1

theorem linked_of_get {blocks : List BlockScanInput} {previous : Option BlockHashBytes}
    (hlinks : ∀ (k : ℕ) (a b : BlockScanInput), blocks[k]? = some a → blocks[k + 1]? = some b →
      b.previousBlockHash = a.blockHash)
    (hhead : ∀ hash ∈ previous, ∀ block, blocks[0]? = some block → block.previousBlockHash = hash) :
    Linked previous blocks := by
  induction blocks generalizing previous with
  | nil => trivial
  | cons first rest ih =>
    refine ⟨fun hash hh => hhead hash hh first rfl, ih (fun k a b ha hb => hlinks (k + 1) a b ha hb) ?_⟩
    rintro hash hh block hb
    rw [Option.mem_some_iff] at hh
    rw [← hh]
    exact hlinks 0 first block rfl hb

/-! ## The sequential indexer -/

section
variable [Externals] {emitStartHeight : ℕ} {chain : List BlockScanInput} {n : ℕ}
  {S : P2trIndexerState} {A : List AppliedBlock}

omit [Externals] in
theorem IndexableChain.room (hc : IndexableChain emitStartHeight chain) (hn : n < chain.length)
    {uid : ℕ} (huid : uid ≤ n * U16_MAX) : uid + 1 + U16_MAX < U64_MAX := by
  have hheights := hc.heights
  rw [U32_MAX] at hheights
  rw [U16_MAX] at *
  rw [U64_MAX]
  omega

theorem IndexableChain.sequential_ok (hc : IndexableChain emitStartHeight chain)
    (hn : n ≤ chain.length) : ∃ S A, sequential (chain.take n) = .ok (S, A) ∧
      RowsBelow S (emitStartHeight + n) ∧ S.nextUid.toNat ≤ n * U16_MAX := by
  induction n with
  | zero =>
    refine ⟨P2trIndexerState.restoreAtUid 0, [], rfl, ⟨?_, ?_, ?_⟩, by simp [P2trIndexerState.restoreAtUid]⟩
    · rintro o e ho
      cases ho
    · rintro o o' e e' ho
      cases ho
    · rintro o e ho
      cases ho
  | succ n ih =>
    obtain ⟨S, A, hS, hrows, huid⟩ := ih (by omega)
    have hlt : n < chain.length := by omega
    have hmem : chain[n] ∈ chain := List.getElem_mem hlt
    have hheight := hc.valid.height_get (List.getElem?_eq_getElem hlt)
    have hroom := hc.room hlt huid
    have hfit : chain[n].height ≤ U32_MAX := by
      have := hc.heights
      omega
    rw [← hheight] at hrows
    obtain ⟨S', a, ha⟩ := applyBlockWithStats_ok (hc.blocks _ hmem) hrows hfit hroom.le
    obtain ⟨hrows', huid'⟩ := hrows.next (applyBlockWithStats_spec ha) (hc.blocks _ hmem).slots hroom
    have hslots := (hc.blocks _ hmem).slots
    refine ⟨S', A ++ [a], ?_, ?_, ?_⟩
    · rw [List.take_succ_eq_append_getElem hlt]
      exact applyBlocks_append_eq_ok.mpr ⟨S, A, [a], hS,
        applyBlocks_cons_eq_ok.mpr ⟨S', a, [], ha, rfl, rfl⟩, rfl⟩
    · rwa [hheight, Nat.add_assoc] at hrows'
    · rw [huid', Nat.succ_mul]
      omega

theorem IndexableChain.rows (hc : IndexableChain emitStartHeight chain) (hn : n ≤ chain.length)
    (hS : sequential (chain.take n) = .ok (S, A)) :
    RowsBelow S (emitStartHeight + n) ∧ S.nextUid.toNat ≤ n * U16_MAX := by
  obtain ⟨S', A', hS', hrows⟩ := hc.sequential_ok hn
  rw [hS, Except.ok.injEq, Prod.mk.injEq] at hS'
  rw [hS'.1]
  exact hrows

theorem IndexableChain.block_ok (hc : IndexableChain emitStartHeight chain)
    (hS : sequential (chain.take n) = .ok (S, A)) {block : BlockScanInput}
    (hb : chain[n]? = some block) : ∃ S' a payload, S.applyBlockWithStats block = .ok (S', a) ∧
      storedBlockBytes a.storageBlock = .ok payload := by
  obtain ⟨hlt, -⟩ := List.getElem?_eq_some_iff.mp hb
  obtain ⟨hrows, huid⟩ := hc.rows hlt.le hS
  have hmem := List.mem_of_getElem? hb
  have hheight := hc.valid.height_get hb
  have hfit : block.height ≤ U32_MAX := by
    have := hc.heights
    omega
  rw [← hheight] at hrows
  obtain ⟨S', a, ha⟩ := applyBlockWithStats_ok (hc.blocks _ hmem) hrows hfit (hc.room hlt huid).le
  obtain ⟨payload, hp⟩ := storedBlockBytes_of_valid ((applyBlockWithStats_spec ha).storedValid hfit
    (hc.blocks _ hmem).slots fun o e ho => (hrows.height o e ho).le)
  exact ⟨S', a, payload, ha, hp⟩

/-! ## A window -/

theorem ValidChain.created_fresh (hv : ValidChain emitStartHeight chain)
    (hS : sequential (chain.take n) = .ok (S, A)) (m : ℕ) :
    ∀ o ∈ createdOutpoints ((chain.drop n).take m), S.outpointToSpend.lookup o = none := by
  intro o ho
  have hpre : chain.take n ++ (chain.drop n).take m <+: chain := by
    rw [← List.take_add]
    exact List.take_prefix _ _
  cases hso : S.outpointToSpend.lookup o with
  | none => rfl
  | some e => exact absurd ho (hv.created_once hpre (sequential_created hS hso))

/-- The apply loop of a chunk gets through whatever memory holds of the map. -/
theorem applyScans_ok (hc : IndexableChain emitStartHeight chain) {blocks : List BlockScanInput}
    {os : List OutPointKey} {r : SpendMap} {acc : P2trIndexerState × List Pending × ℕ}
    (hblocks : blocks <+: chain.drop n) (hS : sequential (chain.take n) = .ok (S, A))
    (hsame : SameBut acc.1 S) (hl : Layers r acc.1.outpointToSpend S.outpointToSpend)
    (hos : ∀ o ∈ os, acc.1.outpointToSpend.lookup o = S.outpointToSpend.lookup o)
    (hin : ∀ o ∈ spentOutpoints blocks, o ∈ os) :
    ∃ acc', blocks.foldlM (applyScan emitStartHeight) acc = .ok acc' := by
  induction blocks generalizing n S A acc with
  | nil => exact ⟨acc, rfl⟩
  | cons block blocks ih =>
    obtain ⟨rest, hrest⟩ := hblocks
    have hb : chain[n]? = some block := by
      have h := congrArg (·[0]?) hrest
      simpa using h.symm
    obtain ⟨hlt, -⟩ := List.getElem?_eq_some_iff.mp hb
    have hone : [block] = (chain.drop n).take 1 := by rw [← hrest]; rfl
    obtain ⟨S', a, payload, ha, hpayload⟩ := hc.block_ok hS hb
    have hagree : ∀ o ∈ block.inputOutpoints,
        acc.1.outpointToSpend.lookup o = S.outpointToSpend.lookup o := by
      intro o ho
      apply hos o (hin o _)
      rw [show block :: blocks = [block] ++ blocks from rfl, spentOutpoints_append]
      exact List.mem_append_left _ (List.mem_flatMap.mpr ⟨block, List.mem_singleton_self _, ho⟩)
    -- memory applies the block as the sequential indexer does
    obtain ⟨s', hs', hsame'⟩ : ∃ s', acc.1.applyBlockWithStats block = .ok (s', a) ∧
        SameBut s' S' := by
      have h := applyBlockWithStats_agree hsame hagree
      rw [ha] at h
      generalize acc.1.applyBlockWithStats block = x at h
      cases h with
      | ok hxy =>
        rename_i x
        refine ⟨x.1, ?_, hxy.1⟩
        rw [← show x.2 = a from hxy.2]
    have hstep : applyScan emitStartHeight acc block = .ok (s',
        acc.2.1 ++ [{ applied := a, payload }], saturatingAdd acc.2.2 payload.length) := by
      unfold applyScan
      rw [if_pos (by rw [hc.valid.height_get hb]; omega), hs', ok_bind]
      simp only [hpayload, ok_bind, pure_eq_ok]
    have hpre : chain.take n ++ [block] <+: chain := by
      rw [hone, ← List.take_add]
      exact List.take_prefix _ _
    obtain ⟨hl', hkeep⟩ := hl.apply (applyBlockWithStats_spec hs') (applyBlockWithStats_spec ha) hagree
      (by rw [hone]; exact hc.valid.created_fresh hS 1) (hc.valid.created_nodup hpre)
    have hS' : sequential (chain.take (n + 1)) = .ok (S', A ++ [a]) := by
      rw [List.take_add, ← hone]
      exact applyBlocks_append_eq_ok.mpr ⟨S, A, [a], hS,
        applyBlocks_cons_eq_ok.mpr ⟨S', a, [], ha, rfl, rfl⟩, rfl⟩
    have hdrop : blocks <+: chain.drop (n + 1) := by
      rw [← List.drop_drop, ← hrest]
      exact List.prefix_append _ _
    rw [List.foldlM_cons, hstep, ok_bind]
    refine ih hdrop hS' hsame' hl' (fun o ho => hkeep o (hos o ho)) fun o ho => hin o ?_
    rw [show block :: blocks = [block] ++ blocks from rfl, spentOutpoints_append]
    exact List.mem_append_right _ ho

end

/-! ## A window over a source that serves the chain -/

section
variable [Externals] {config : IndexerConfig} {chain : List BlockScanInput} {disk : Disk} {n : ℕ}
  {start S : P2trIndexerState} {A : List AppliedBlock} {done : List (BlockScanInput × Pending)}
  {cs : ChunkState}

theorem Follows.tip_hash (hf : Follows config chain disk n S A)
    (hfiles : ChainFiles config disk.archive disk.indexStore) {hash : BlockHashBytes}
    (hhash : disk.indexStore.previousTipHash = some hash) :
    ∃ k block, n = k + 1 ∧ chain[k]? = some block ∧ block.blockHash = hash := by
  obtain ⟨tip, htip, rfl⟩ := Option.map_eq_some_iff.mp hhash
  obtain ⟨hemit, stored, hs, hhash'⟩ := hfiles.tip tip htip
  have hnext := hf.next
  rw [nextHeight_of_tip htip] at hnext
  have hlen := hf.length_applied
  have hle := hf.le
  obtain ⟨k, rfl⟩ : ∃ k, n = k + 1 := ⟨n - 1, by omega⟩
  have hA : A[k]? = some A[k] := List.getElem?_eq_getElem (by omega)
  have hb : chain[k]? = some chain[k] := List.getElem?_eq_getElem (by omega)
  obtain ⟨stored', hs', hu⟩ := hf.files k _ hA
  rw [show tip.height = config.emitStartHeight + k by omega] at hs
  obtain ⟨st, st', hspec⟩ := applyBlocks_get hf.seq
    (by rw [List.getElem?_take_of_lt (by omega)]; exact hb) hA
  refine ⟨k, chain[k], rfl, hb, ?_⟩
  rw [← hspec.blockHash, ← hhash', hs.unique hs']
  exact (header_of_unmarked hu).2.1.symm

theorem Follows.linked (hc : IndexableChain config.emitStartHeight chain)
    (hf : Follows config chain disk n S A)
    (hfiles : ChainFiles config disk.archive disk.indexStore) :
    Linked disk.indexStore.previousTipHash (chain.drop n) := by
  refine linked_of_get (fun k a b ha hb => ?_) fun hash hhash block hb => ?_
  · rw [List.getElem?_drop] at ha hb
    exact hc.linked (n + k) a b ha hb
  · obtain ⟨k, tip, rfl, htip, rfl⟩ := hf.tip_hash hfiles hhash
    rw [List.getElem?_drop] at hb
    exact hc.linked k tip block htip hb

omit [Externals] in
theorem ValidChain.prefix_heights {emitStartHeight : ℕ} (hv : ValidChain emitStartHeight chain)
    {blocks : List BlockScanInput} (hpre : blocks <+: chain.drop n) :
    blocks.map (·.height) = List.range' (emitStartHeight + n) blocks.length := by
  apply List.ext_getElem?
  intro k
  rw [List.getElem?_map]
  by_cases hk : k < blocks.length
  · have hget : chain[n + k]? = some blocks[k] := by
      rw [← List.getElem?_drop, ← List.prefix_iff_getElem?.mp hpre k hk]
    rw [List.getElem?_eq_getElem hk, Option.map_some, hv.height_get hget, List.getElem?_range' hk,
      Nat.one_mul, Nat.add_assoc]
  · rw [List.getElem?_eq_none (by omega), List.getElem?_eq_none (by simp; omega)]
    rfl

theorem processChunk_ok (hc : IndexableChain config.emitStartHeight chain)
    (hf : Follows config chain disk n S A) (htracks : Tracks start S)
    (hlinked : Linked disk.indexStore.previousTipHash (chain.drop n))
    (hi : ChunkInv disk.indexStore start (config.emitStartHeight + n) done cs)
    {blocks : List BlockScanInput} (hne : blocks ≠ [])
    (hblocks : done.map Prod.fst ++ blocks <+: chain.drop n) (rawBytes : ℕ) :
    ∃ cs', processChunk config.emitStartHeight disk.indexStore cs { blocks, rawBytes } = .ok cs' := by
  have hlink := ((linked_append _ _ _).mp (linked_of_append hlinked hblocks)).2
  rw [← hi.previousTipHash] at hlink
  obtain ⟨rest, hrest⟩ := hblocks
  rw [List.append_assoc] at hrest
  have hdone : done.map Prod.fst = (chain.drop n).take done.length := by
    rw [← hrest, List.take_left' (List.length_map _)]
  have hdrop : chain.drop (n + done.length) = blocks ++ rest := by
    rw [← List.drop_drop, ← hrest, List.drop_left' (List.length_map _)]
  have htake : chain.take (n + done.length) = chain.take n ++ done.map Prod.fst := by
    rw [List.take_add, hdone]
  have hpre : chain.take n ++ done.map Prod.fst ++ blocks <+: chain :=
    ⟨rest, by rw [← htake, List.append_assoc, ← hdrop, List.take_append_drop]⟩
  obtain ⟨t, ht, hsame, hl⟩ := hi.trace.layers hc.valid hf.seq hf.rows htracks.same htracks.sound
    ((List.prefix_append _ _).trans hpre)
  have hseq : sequential (chain.take (n + done.length)) = .ok (t, A ++ done.map (·.2.applied)) := by
    rw [htake]
    exact applyBlocks_append_eq_ok.mpr ⟨S, A, _, hf.seq, ht, rfl⟩
  have hcache : CachedSpec disk.indexStore cs.state blocks
      (lookupSpendUidsForChunk disk.indexStore cs.state blocks).1
      (lookupSpendUidsForChunk disk.indexStore cs.state blocks).2 := lookupSpendUidsForChunk_spec rfl
  obtain ⟨hl', hos⟩ := hcache.layers hc.valid hpre hf.seq hf.rows ht hl
  have hsame' : SameBut (lookupSpendUidsForChunk disk.indexStore cs.state blocks).1 t :=
    ⟨hcache.nextUid.trans hsame.nextUid, hcache.seen.trans hsame.seen⟩
  have hblocks' : blocks <+: chain.drop (n + done.length) := hdrop ▸ List.prefix_append _ _
  obtain ⟨acc', hfold⟩ : ∃ acc', blocks.foldlM (applyScan config.emitStartHeight)
      ((lookupSpendUidsForChunk disk.indexStore cs.state blocks).1, cs.pending,
        cs.pendingPayloadBytes) = .ok acc' :=
    applyScans_ok hc hblocks' hseq hsame' hl' hos fun o ho => ho
  have hheights := hc.valid.prefix_heights hblocks'
  rw [← Nat.add_assoc, ← hi.chunkStart] at hheights
  obtain ⟨last, hlast⟩ : ∃ last, blocks.getLast? = some last := by
    cases h : blocks.getLast? with
    | none => exact absurd (List.getLast?_eq_none_iff.mp h) hne
    | some last => exact ⟨last, rfl⟩
  unfold processChunk
  simp only [validateDecodedChunk_of hne hheights hlink, hlast, okOr_some, ok_bind, hfold]
  exact ⟨_, rfl⟩

/-- The chunk loop reaches the end of the window or the memory budget. -/
theorem chunkLoop_ok (hc : IndexableChain config.emitStartHeight chain)
    (hf : Follows config chain disk n S A) (htracks : Tracks start S)
    (hlinked : Linked disk.indexStore.previousTipHash (chain.drop n)) {fetch : FetchChunk}
    (hserves : Serves config.emitStartHeight chain fetch) (tuning : CatchUpConfig)
    {flushEndHeight : ℕ} (hend : flushEndHeight < config.emitStartHeight + chain.length) (fuel : ℕ) :
    ∀ {done : List (BlockScanInput × Pending)} {cs : ChunkState},
      ChunkInv disk.indexStore start (config.emitStartHeight + n) done cs →
      done.map Prod.fst <+: chain.drop n → cs.chunkStart ≤ flushEndHeight + 1 →
      ∃ cs' done', chunkLoop config.emitStartHeight tuning disk.indexStore fetch flushEndHeight fuel
          cs = .ok cs' ∧
        ChunkInv disk.indexStore start (config.emitStartHeight + n) done' cs' ∧
        cs'.chunkStart ≤ flushEndHeight + 1 ∧ done.length ≤ done'.length ∧
        (0 < fuel → cs.chunkStart ≤ flushEndHeight → done.length < done'.length) := by
  induction fuel with
  | zero =>
    intro done cs hi _ hle
    exact ⟨cs, done, rfl, hi, hle, le_rfl, fun h => absurd h (lt_irrefl 0)⟩
  | succ fuel ih =>
    intro done cs hi hdone hle
    unfold BitcoinData.chunkLoop
    by_cases hin : cs.chunkStart ≤ flushEndHeight
    · have hpos := tuning.fetchBatchSize_pos
      have hstart := hi.chunkStart
      have hcount : 0 < min (flushEndHeight - cs.chunkStart + 1) tuning.fetchBatchSize := by omega
      have hbound : min (flushEndHeight - cs.chunkStart + 1) tuning.fetchBatchSize ≤
          flushEndHeight - cs.chunkStart + 1 := Nat.min_le_left _ _
      generalize min (flushEndHeight - cs.chunkStart + 1) tuning.fetchBatchSize = count at hcount hbound ⊢
      obtain ⟨rawBytes, hfetch⟩ := hserves.answers cs.chunkStart count (by omega) hcount (by omega)
      rw [show cs.chunkStart - config.emitStartHeight = n + done.length by omega] at hfetch
      have hlen : ((chain.drop (n + done.length)).take count).length = count := by
        rw [List.length_take, List.length_drop]
        omega
      have hpre : done.map Prod.fst ++ (chain.drop (n + done.length)).take count <+:
          chain.drop n := by
        obtain ⟨rest, hrest⟩ := hdone
        rw [← List.drop_drop, ← hrest, List.drop_left' (List.length_map _)]
        exact (List.prefix_append_right_inj _).mpr (List.take_prefix _ _)
      generalize (chain.drop (n + done.length)).take count = blocks at hfetch hlen hpre
      obtain ⟨cs₁, h₁⟩ := processChunk_ok hc hf htracks hlinked hi
        (List.ne_nil_of_length_pos (by omega)) hpre rawBytes
      obtain ⟨news, -, hnews, hi₁⟩ := hi.processChunk (by omega) h₁
      have hnewsLen : news.length = count := by
        rw [← hlen, ← show news.map Prod.fst = blocks from hnews, List.length_map]
      have hstart₁ := hi₁.chunkStart
      rw [List.length_append] at hstart₁
      rw [if_pos hin]
      simp only [hfetch, ok_bind, h₁]
      split_ifs
      · refine ⟨cs₁, done ++ news, rfl, hi₁, by omega, ?_, fun _ _ => ?_⟩
        · rw [List.length_append]
          omega
        · rw [List.length_append]
          omega
      · obtain ⟨cs', done', hloop, hi', hle', hlen', -⟩ := ih hi₁
          (by rw [List.map_append, show news.map Prod.fst = blocks from hnews]; exact hpre) (by omega)
        rw [List.length_append] at hlen'
        exact ⟨cs', done', hloop, hi', hle', by omega, fun _ _ => by omega⟩
    · rw [if_neg hin]
      exact ⟨cs, done, rfl, hi, hle, le_rfl, fun _ h => absurd h hin⟩

theorem catchUpWindow_ok (hc : IndexableChain config.emitStartHeight chain)
    (hf : Follows config chain disk n S A)
    (hfiles : ChainFiles config disk.archive disk.indexStore) (htracks : Tracks start S)
    {fetch : FetchChunk} (hserves : Serves config.emitStartHeight chain fetch)
    (tuning : CatchUpConfig) {finalizedTip : ℕ} (hnext : config.emitStartHeight + n ≤ finalizedTip)
    (hbest : finalizedTip < config.emitStartHeight + chain.length) :
    ∃ window, catchUpWindow config.emitStartHeight tuning disk.indexStore fetch start
        (config.emitStartHeight + n) finalizedTip = .ok window ∧ window.lastHeight ≤ finalizedTip := by
  have hpos := tuning.flushBlocks_pos
  have hcount : 0 < min (finalizedTip - (config.emitStartHeight + n) + 1) tuning.flushBlocks := by omega
  have hbound : min (finalizedTip - (config.emitStartHeight + n) + 1) tuning.flushBlocks ≤
      finalizedTip - (config.emitStartHeight + n) + 1 := Nat.min_le_left _ _
  unfold catchUpWindow
  generalize min (finalizedTip - (config.emitStartHeight + n) + 1) tuning.flushBlocks = count
    at hcount hbound ⊢
  have hinit : ChunkInv disk.indexStore start (config.emitStartHeight + n) []
      { state := start
        pending := []
        lastBlock := none
        previousTipHash := disk.indexStore.previousTipHash
        processedRawBytesSinceFlush := 0
        pendingPayloadBytes := 0
        chunkStart := config.emitStartHeight + n } :=
    ⟨WindowTrace.nil, rfl, rfl, trivial, rfl, rfl, rfl⟩
  have hend : config.emitStartHeight + n + count - 1 < config.emitStartHeight + chain.length := by
    omega
  obtain ⟨cs, done, hloop, hi, hle, -, hdone⟩ := chunkLoop_ok hc hf htracks (hf.linked hc hfiles)
    hserves tuning hend count hinit List.nil_prefix (by simp only; omega)
  have hpos' := hdone hcount (by simp only; omega)
  have hchunk := hi.chunkStart
  rw [List.length_nil] at hpos'
  obtain ⟨last, hlast⟩ : ∃ last, (done.map Prod.fst).getLast? = some last := by
    cases h : (done.map Prod.fst).getLast? with
    | none =>
      rw [List.getLast?_eq_none_iff, List.map_eq_nil_iff] at h
      rw [h] at hpos'
      exact absurd hpos' (lt_irrefl 0)
    | some last => exact ⟨last, rfl⟩
  have hlastBlock := hi.lastBlock
  rw [hlast, Option.map_some] at hlastBlock
  simp only [hloop, ok_bind, hlastBlock, okOr_some]
  refine ⟨_, rfl, ?_⟩
  have hheight : last.height ∈ done.map (·.1.height) := by
    have hmem := List.mem_of_getLast? hlast
    obtain ⟨d, hd, rfl⟩ := List.mem_map.mp hmem
    exact List.mem_map.mpr ⟨d, hd, rfl⟩
  rw [hi.heights, List.mem_range'_1] at hheight
  simp only
  omega

/-! ## Disk effects -/

theorem markCreationBlock_ok {archive : FileArchive} {height : ℕ} {marks : List (UInt32 × UInt32)}
    {block : StoredLightBlockInput} (hs : archive.Stored height block)
    (hlt : ∀ m ∈ marks, m.1.toNat < block.outputs.length) :
    ∃ archive' updated, archive.markCreationBlock (height, marks) = .ok (archive', updated) := by
  obtain ⟨bytes, hl, hdec⟩ := hs
  obtain ⟨acc, hfold, -⟩ := foldlM_progress (f := FileArchive.markOutput height)
    (fun _ acc => acc.1.outputs.length = block.outputs.length) (l := marks)
    (fun pre m post acc hmarks hlen => by
      have hm : m.1.toNat < acc.1.outputs.length := by
        rw [hlen]
        exact hlt m (by rw [hmarks]; simp)
      exact ⟨_, FileArchive.markOutput_of_lt (k := acc.2) hm, by rw [marked_outputs_length, hlen]⟩)
    (s := (block, 0)) rfl
  have hacc := (FileArchive.markOutputs_eq_ok hfold).1
  have hvalid : StoredValid acc.1 := by
    rw [hacc]
    exact (decode_fields hdec).1.congr rfl (applyMarks_length marks block.outputs)
  obtain ⟨bytes', hbytes⟩ := storedBlockBytes_of_valid hvalid
  unfold FileArchive.markCreationBlock
  simp only [hl, hdec, ok_bind, hfold, hbytes]
  exact ⟨_, _, rfl⟩

theorem Follows.window_file (hf : Follows config chain disk n S A) {process : Process}
    {window : Window} (hflight : Flight config disk.indexStore process window)
    (hwritten : ∀ p ∈ window.pending, Written disk.archive p) {k : ℕ} {a : AppliedBlock}
    (ha : (A ++ window.pending.map (·.applied))[k]? = some a) :
    ∃ block, disk.archive.Stored (config.emitStartHeight + k) block ∧
      block.unmarked = a.storageBlock.normalised.unmarked := by
  obtain ⟨start, done, hspec⟩ := hflight.spec
  have hlen := hf.length_applied
  by_cases hk : k < A.length
  · rw [List.getElem?_append_left hk] at ha
    exact hf.files k a ha
  · rw [List.getElem?_append_right (not_lt.mp hk), List.getElem?_map, hspec.pending,
      List.getElem?_map, Option.map_map] at ha
    obtain ⟨d, hd, rfl⟩ := Option.map_eq_some_iff.mp ha
    have hmem := List.mem_of_getElem? hd
    obtain ⟨block, hs, hu⟩ := hwritten d.2 (hspec.pending ▸ List.mem_map_of_mem hmem)
    rw [(hspec.stored_height hmem).1, hspec.height_get hd, hf.next, Nat.add_assoc,
      show n + (k - A.length) = k by omega] at hs
    exact ⟨block, hs, hu⟩

/-- What a window spends is an output of a stored block. -/
theorem Follows.spend_target (hv : ValidChain config.emitStartHeight chain)
    (hf : Follows config chain disk n S A) {process : Process} {window : Window}
    {t : P2trIndexerState} (hflight : Flight config disk.indexStore process window)
    (hwritten : ∀ p ∈ window.pending, Written disk.archive p) (hw : WindowOn chain n S window t)
    {height s : ℕ} {i : UInt32} (h : (height, i, s) ∈ window.spends) :
    ∃ block, disk.archive.Stored height block ∧ i.toNat < block.outputs.length := by
  have hseq := hw.seq hf.seq
  obtain ⟨b, hb, hmem⟩ := List.mem_flatMap.mp (Window.mem_spends (A := A) h)
  obtain ⟨spent, hspent, heq⟩ := List.mem_map.mp hmem
  -- the spend resolved an output that one of these blocks created
  obtain ⟨a, ha, hcreated⟩ := List.mem_flatMap.mp ((hv.runSpends hseq).created (spentPair spent)
    (List.mem_flatMap.mpr ⟨b, hb, List.mem_map_of_mem hspent⟩))
  obtain ⟨created, hc, hpair⟩ := List.mem_map.mp hcreated
  obtain ⟨k, hk⟩ := List.mem_iff_getElem?.mp ha
  obtain ⟨-, block, st, st', hspec, hheight⟩ := hv.applied_get hseq hk
  obtain ⟨stored, hs, hu⟩ := hf.window_file hflight hwritten hk
  obtain ⟨hcreation₀, hrest⟩ := Prod.mk.inj heq
  have hplace : (createdPair created).2.place = (height, i) := by
    rw [hpair]
    exact Prod.ext hcreation₀ (Prod.mk.inj hrest).1
  have hcreation : config.emitStartHeight + k = height := by
    rw [← hheight, ← hspec.created_creationHeight hc]
    exact congrArg Prod.fst hplace
  refine ⟨stored, hcreation ▸ hs, ?_⟩
  have hidx : created.entry.outputIndex.toNat ∈ List.range a.createdUtxos.length := by
    rw [← hspec.index]
    exact List.mem_map_of_mem hc
  have hi : created.entry.outputIndex = i := congrArg Prod.snd hplace
  rw [List.mem_range, hi] at hidx
  have hout : stored.outputs.length = a.storageBlock.normalised.outputs.length :=
    outputs_length_of_unmarked hu
  rw [hout]
  change i.toNat < a.storageBlock.outputs.length
  rwa [hspec.outputs, List.length_map]

omit [Externals] in
theorem pushSpend_length_le (groups : List (ℕ × List (UInt32 × UInt32))) (height : ℕ)
    (spend : UInt32 × UInt32) :
    (FileArchive.pushSpend height spend groups).length ≤ groups.length + 1 := by
  induction groups with
  | nil => rfl
  | cons group groups ih =>
    unfold FileArchive.pushSpend
    split_ifs
    · rfl
    · exact Nat.le_succ _
    · simp only [List.length_cons]
      omega

omit [Externals] in
theorem groupSpends_length_le {spends : List (ℕ × UInt32 × ℕ)}
    {groups : List (ℕ × List (UInt32 × UInt32))} (h : FileArchive.groupSpends spends = .ok groups) :
    groups.length ≤ spends.length := by
  refine foldlM_prefix_invariant (fun pre groups => groups.length ≤ pre.length) spends [] [] groups
    ?_ (le_refl 0) h
  intro spend _ pre groups groups' hle hstep
  simp only [bind_eq_ok, pure_eq_ok, Except.ok.injEq] at hstep
  obtain ⟨s, -, rfl⟩ := hstep
  have := pushSpend_length_le groups spend.1 (spend.2.1, s)
  rw [List.length_append, List.length_singleton]
  omega

/-! ## Metadata -/

/-- The metadata is not written yet, or is that of the configuration. -/
structure MetaOk (config : IndexerConfig) (db : RocksIndexStore) : Prop where
  network : ∀ network, db.network = some network → network = config.network
  startHeight : ∀ height, db.startHeight = some height → height = config.emitStartHeight

omit [Externals] in
theorem ensureMetaValue_ok {α : Type} [DecidableEq α] {existing : Option α} {value : α}
    (h : ∀ v, existing = some v → v = value) (key : String) :
    RocksIndexStore.ensureMetaValue existing value key = .ok (some value) := by
  cases existing with
  | none => rfl
  | some v =>
    obtain rfl := h v rfl
    simp [RocksIndexStore.ensureMetaValue]

omit [Externals] in
theorem MetaOk.startProcess {disk : Disk} (h : MetaOk config disk.indexStore) :
    ∃ disk' process, BitcoinData.startProcess config disk = .ok (disk', process) := by
  unfold BitcoinData.startProcess RocksIndexStore.ensureMeta
  simp only [ensureMetaValue_ok h.network, ensureMetaValue_ok h.startHeight, ok_bind, pure_eq_ok]
  exact ⟨_, _, rfl⟩

omit [Externals] in
theorem batchBlock_meta (db : RocksIndexStore) (applied : List AppliedBlock) (batch : RocksIndexStore) :
    (applied.foldl (RocksIndexStore.batchBlock db) batch).network = batch.network ∧
      (applied.foldl (RocksIndexStore.batchBlock db) batch).startHeight = batch.startHeight := by
  have hspent : ∀ (l : List SpentScopedUtxo) (b : RocksIndexStore),
      (l.foldl RocksIndexStore.batchSpent b).network = b.network ∧
        (l.foldl RocksIndexStore.batchSpent b).startHeight = b.startHeight := by
    intro l
    induction l with
    | nil => exact fun _ => ⟨rfl, rfl⟩
    | cons s l ih => exact fun b => ih _
  have hcreated : ∀ (l : List CreatedScopedUtxo) (b : RocksIndexStore),
      (l.foldl (RocksIndexStore.batchCreated db) b).network = b.network ∧
        (l.foldl (RocksIndexStore.batchCreated db) b).startHeight = b.startHeight := by
    intro l
    induction l with
    | nil => exact fun _ => ⟨rfl, rfl⟩
    | cons c l ih => exact fun b => ih _
  induction applied generalizing batch with
  | nil => exact ⟨rfl, rfl⟩
  | cons a applied ih =>
    rw [List.foldl_cons]
    obtain ⟨h₁, h₂⟩ := ih (RocksIndexStore.batchBlock db batch a)
    obtain ⟨h₃, h₄⟩ := hspent a.spentUtxos (a.createdUtxos.foldl (RocksIndexStore.batchCreated db) batch)
    obtain ⟨h₅, h₆⟩ := hcreated a.createdUtxos batch
    exact ⟨h₁.trans (h₃.trans h₅), h₂.trans (h₄.trans h₆)⟩

theorem MetaOk.step {sys sys' : System} {action : Action} (h : MetaOk config sys.disk.indexStore)
    (hstep : Steps config sys action sys') : MetaOk config sys'.disk.indexStore := by
  cases hstep with
  | start hs =>
    unfold BitcoinData.startProcess RocksIndexStore.ensureMeta at hs
    simp only [ensureMetaValue_ok h.network, ensureMetaValue_ok h.startHeight, ok_bind, pure_eq_ok,
      Except.ok.injEq, Prod.mk.injEq] at hs
    rw [← hs.1]
    exact ⟨fun v hv => (Option.some.inj hv).symm, fun v hv => (Option.some.inj hv).symm⟩
  | @commit disk state next window =>
    obtain ⟨h₁, h₂⟩ := batchBlock_meta disk.indexStore (window.pending.map (·.applied)) disk.indexStore
    exact ⟨fun v hv => h.network v (h₁ ▸ hv), fun v hv => h.startHeight v (h₂ ▸ hv)⟩
  | _ => exact h

end

end BitcoinData
