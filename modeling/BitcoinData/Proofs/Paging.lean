import BitcoinData.Proofs.Balance
import BitcoinData.Sanity.Server

/-! Paged cut-through. Every page goes by the tip of its own time: an output is left out when it is
spent up to that tip, while its spend is always left out. What a later block spends of an earlier
page stays in the wallet. -/

namespace BitcoinData

open Lib

section
variable [Externals] {config : IndexerConfig} {chain : List BlockScanInput} {sys sys' : System}
variable {maxRangeCount : UInt32} {maxResponseBytes first next count : ℕ} {pages : List SyncedPage}

/-! ## One page -/

/-- An answered page of a sync: its heights go from the next one up to the served tip at most, and
its messages are their responses. -/
structure PageServed (config : IndexerConfig) (archive : FileArchive) (first next : ℕ) (tip : ChainTip)
    (labels : Option UInt16) (r : RangeResponse) : Prop where
  start : r.start = next
  next_le : next ≤ r.last
  last_le : r.last ≤ tip.height
  low : config.emitStartHeight ≤ next
  length : r.messages.length = r.last + 1 - next
  message : ∀ j m, r.messages[j]? = some m → ∃ served,
    archive.readBlockFilteredWithHash (next + j) (cutthroughFilter first tip.height labels) = .ok served ∧
      served.payload = m

theorem OnRun.page (hr : OnRun config chain sys count) {q : SyncRangeQuery} {accept : Option (List Char)}
    {r : RangeResponse} {tip : ChainTip} (hq : PageQuery first next q)
    (hans : blockRange ⟨sys.disk.archive, maxRangeCount, maxResponseBytes⟩ q accept = .ok r)
    (htip : sys.disk.archive.tip = some tip) :
    (∃ manifest, sys.disk.archive.readManifest = .ok manifest) ∧ TipFrom config tip.height sys ∧
      PageServed config sys.disk.archive first next tip q.labels r := by
  obtain ⟨format, tip', manifest, cut, haccepted, ha⟩ := blockRange_eq_ok.mp hans
  obtain rfl : tip = tip' := Option.some.inj (htip.symm.trans ha.tip_eq)
  have hboundary : q.boundary = some first := by
    rw [SyncRangeQuery.boundary, hq.cutthroughStart]
    rfl
  have hresolved := resolveCutthroughTip_eq_ok.mp ha.resolved
  rw [hboundary, hq.cutthroughTip] at hresolved
  obtain ⟨hnone, -⟩ | ⟨b, -, rfl, -⟩ := hresolved
  · cases hnone
  have hfilter : q.responseFilter (some tip.height) = cutthroughFilter first tip.height q.labels := by
    rw [SyncRangeQuery.responseFilter, hboundary, hq.filterReuse]
    rfl
  have hloop := ha.loop
  rw [Option.getD_none, hfilter, hq.start] at hloop
  obtain ⟨added, hadded, hlen, hmessage⟩ := rangeMessages_spec hloop
  rw [List.nil_append] at hadded
  subst hadded
  have hpos : 0 < r.messages.length := List.length_pos_iff.mpr ha.progress
  change r.messages.length ≤ q.clampedCount maxRangeCount tip at hlen
  have hclamp : q.clampedCount maxRangeCount tip ≤ tip.height - next + 1 := by
    rw [SyncRangeQuery.clampedCount, hq.start]
    omega
  have hstart := ha.start_le
  have hlast := ha.last
  have hcount := ha.count
  rw [hq.start] at hstart hlast
  obtain ⟨served, hread, -⟩ := hmessage 0 _ (List.getElem?_eq_getElem hpos)
  refine ⟨⟨_, ha.manifest_eq⟩, .of_served hr.inv.base ha.manifest_eq htip, ⟨ha.start.trans hq.start, ?_, ?_, ?_, ?_, hmessage⟩⟩
  · omega
  · omega
  · -- a response comes out of a file
    unfold FileArchive.readBlockFilteredWithHash at hread
    obtain ⟨bytes, hbytes, -⟩ := bind_eq_ok.mp hread
    exact (hr.drafts.bounds _ (mem_keys_of_lookup (okOr_eq_ok.mp hbytes))).1
  · omega

/-! ## All pages -/

/-- A served block of a page. -/
structure SyncItem where
  page : SyncedPage
  height : ℕ
  message : Bytes

def SyncedPage.items (page : SyncedPage) : List SyncItem :=
  (page.messages.zipIdx page.start).map fun p => ⟨page, p.2, p.1⟩

def syncItems (pages : List SyncedPage) : List SyncItem := pages.flatMap SyncedPage.items

omit [Externals] in
theorem mem_syncItems {item : SyncItem} : item ∈ syncItems pages ↔
    item.page ∈ pages ∧ (item.message, item.height) ∈ item.page.messages.zipIdx item.page.start := by
  simp only [syncItems, SyncedPage.items, List.mem_flatMap, List.mem_map]
  constructor
  · rintro ⟨page, hpage, p, hp, rfl⟩
    exact ⟨hpage, hp⟩
  · rintro ⟨hpage, hp⟩
    exact ⟨item.page, hpage, _, hp, rfl⟩

omit [Externals] in
theorem SyncedPage.items_heights (page : SyncedPage) :
    page.items.map (·.height) = List.range' page.start page.messages.length := by
  rw [SyncedPage.items, List.map_map]
  exact List.zipIdx_map_snd page.start page.messages

theorem Client.sync_eq (client : Client) (pages : List SyncedPage) : client.sync pages =
    (syncItems pages).foldlM (fun wallet item => client.block wallet item.height item.message) ∅ := by
  have hitems : (pages.flatMap fun page => page.messages.zipIdx page.start) =
      (syncItems pages).map fun item => (item.message, item.height) := by
    rw [syncItems, List.map_flatMap]
    congr 1
    funext page
    rw [SyncedPage.items, List.map_map]
    exact (List.map_id' _).symm
  rw [Client.sync, hitems, List.foldlM_map]

def ChainBlock (config : IndexerConfig) (chain : List BlockScanInput) (height : ℕ) (a : AppliedBlock) : Prop :=
  ∃ n S A k, sequential (chain.take n) = .ok (S, A) ∧ A[k]? = some a ∧ height = config.emitStartHeight + k

theorem ChainBlock.get {a : AppliedBlock} {k m : ℕ} (h : ChainBlock config chain (config.emitStartHeight + k) a)
    {T : P2trIndexerState} {B : List AppliedBlock} (hB : sequential (chain.take m) = .ok (T, B)) (hk : k < B.length) :
    B[k]? = some a := by
  obtain ⟨n, S, A, j, hA, ha, hj⟩ := h
  obtain rfl : k = j := by omega
  have hlt := (List.getElem?_eq_some_iff.mp ha).1
  rcases le_total n m with hle | hle
  · obtain ⟨C, rfl, -⟩ := sequential_take_append hA hB hle
    rw [List.getElem?_append_left hlt, ha]
  · obtain ⟨C, rfl, -⟩ := sequential_take_append hB hA hle
    rwa [List.getElem?_append_left hk] at ha

/-- The pages of a sync, in terms of the archive as it is now. -/
structure Synced (config : IndexerConfig) (chain : List BlockScanInput) (first : ℕ) (pages : List SyncedPage)
    (sys : System) (next : ℕ) : Prop where
  onRun : ∃ count, OnRun config chain sys count
  first_le : first ≤ next
  heights : (syncItems pages).map (·.height) = List.range' first (next - first)
  low : pages ≠ [] → config.emitStartHeight ≤ first
  bounds : ∀ page ∈ pages, page.start ≤ page.last ∧ page.last ≤ page.tip ∧
    page.messages.length = page.last + 1 - page.start
  tips : ∀ page ∈ pages, TipFrom config page.tip sys
  ends : ∀ last, pages.getLast? = some last → next = last.last + 1 ∧ ∀ page ∈ pages, page.tip ≤ last.tip
  served : ∀ item ∈ syncItems pages, ∃ a, ChainBlock config chain item.height a ∧
    ServedAs a.storageBlock item.message
      (sys.disk.archive.servedSets (cutthroughFilter first item.page.tip item.page.labels) item.height).1
      (sys.disk.archive.servedSets (cutthroughFilter first item.page.tip item.page.labels) item.height).2

theorem Synced.item (h : Synced config chain first pages sys next) {item : SyncItem} (hitem : item ∈ syncItems pages) :
    item.page ∈ pages ∧ config.emitStartHeight ≤ first ∧ first ≤ item.height ∧ item.height < next ∧
      item.height ≤ item.page.last ∧ item.page.last ≤ item.page.tip := by
  obtain ⟨hpage, hmem⟩ := mem_syncItems.mp hitem
  have hheight : item.height ∈ List.range' first (next - first) := h.heights ▸ List.mem_map_of_mem hitem
  have hpos : item.height ∈ List.range' item.page.start item.page.messages.length :=
    List.zipIdx_map_snd item.page.start item.page.messages ▸ List.mem_map_of_mem hmem
  rw [List.mem_range'_1] at hheight hpos
  obtain ⟨hlast, htip, hlength⟩ := h.bounds _ hpage
  exact ⟨hpage, h.low (List.ne_nil_of_mem hpage), hheight.1, by omega, by omega, htip⟩

/-- What has been synced stays synced while the indexer goes on. -/
theorem Synced.later (hv : ValidChain config.emitStartHeight chain)
    (h : Synced config chain first pages sys next) {acts : List Action} (hon : OnChain chain acts)
    (hrun : run (step config) sys acts = some sys') : Synced config chain first pages sys' next := by
  obtain ⟨count, hr⟩ := h.onRun
  obtain ⟨count', -, hr', hnext⟩ := hr.later hv hon hrun
  refine ⟨⟨count', hr'⟩, h.first_le, h.heights, h.low, h.bounds, ?_, h.ends, fun item hitem => ?_⟩
  · exact fun page hpage => (h.tips page hpage).run hr.inv.base hrun
  · obtain ⟨hpage, hlow, hfirst, -, hlast, htip⟩ := h.item hitem
    rw [hr.servedSets_later hv hr' hnext rfl (h.tips _ hpage).committed (by omega) (by omega)]
    exact h.served item hitem

theorem OnRun.page_served (hv : ValidChain config.emitStartHeight chain) (hr : OnRun config chain sys count)
    {tip : ChainTip} {labels : Option UInt16} {r : RangeResponse}
    (htip : tip.height < nextHeight config sys.disk.indexStore)
    (hp : PageServed config sys.disk.archive first next tip labels r) {height : ℕ} {message : Bytes}
    (hmem : (message, height) ∈ r.messages.zipIdx r.start) :
    ∃ a, ChainBlock config chain height a ∧ ServedAs a.storageBlock message
      (sys.disk.archive.servedSets (cutthroughFilter first tip.height labels) height).1
      (sys.disk.archive.servedSets (cutthroughFilter first tip.height labels) height).2 := by
  obtain ⟨n, S, A, hf, -⟩ := hr.inv.follows
  have hproduced := hf.produced hv
  have hc : Consecutive config.emitStartHeight (chain.take n) := Consecutive.take hv.heights n
  have hlen := hproduced.length_eq
  rw [hf.length_take] at hlen
  rw [hf.next] at htip
  obtain ⟨hlo, hget⟩ := List.mk_mem_zipIdx_iff_le_and_getElem?_sub.mp hmem
  have hj := (List.getElem?_eq_some_iff.mp hget).1
  obtain ⟨served, hread, rfl⟩ := hp.message _ _ hget
  have hstart := hp.start
  have hlow := hp.low
  have hlast := hp.last_le
  have hlength := hp.length
  obtain ⟨k, hk⟩ := Nat.exists_eq_add_of_le (show config.emitStartHeight ≤ height by omega)
  have ha : A[k]? = some A[k] := List.getElem?_eq_getElem (by omega)
  obtain ⟨-, served', hread', hserved⟩ := hproduced.serves hc ha (cutthroughFilter first tip.height labels)
  rw [show next + (height - r.start) = config.emitStartHeight + k by omega, hread', Except.ok.injEq] at hread
  subst hread hk
  exact ⟨A[k], ⟨n, S, A, k, hf.seq, ha, rfl⟩, hserved⟩

theorem Synced.page (hv : ValidChain config.emitStartHeight chain)
    (h : Synced config chain first pages sys next) {q : SyncRangeQuery} {accept : Option (List Char)}
    {r : RangeResponse} {tip : ChainTip} (hq : PageQuery first next q)
    (hans : blockRange ⟨sys.disk.archive, maxRangeCount, maxResponseBytes⟩ q accept = .ok r)
    (htip : sys.disk.archive.tip = some tip) :
    Synced config chain first (pages ++ [⟨r.start, r.last, tip.height, q.labels, r.messages⟩]) sys (r.last + 1) := by
  obtain ⟨count, hr⟩ := h.onRun
  obtain ⟨⟨manifest, hmanifest⟩, hfrom, hp⟩ := hr.page hq hans htip
  obtain ⟨new, hnew⟩ : ∃ new : SyncedPage, new = ⟨r.start, r.last, tip.height, q.labels, r.messages⟩ := ⟨_, rfl⟩
  have hfirst := h.first_le
  have hnext := hp.next_le
  have hlength := hp.length
  have hitems : syncItems (pages ++ [new]) = syncItems pages ++ new.items := by
    rw [syncItems, List.flatMap_append, List.flatMap_singleton, ← syncItems]
  have hpages : ∀ {P : SyncedPage → Prop}, (∀ page ∈ pages, P page) → P new → ∀ page ∈ pages ++ [new], P page := by
    intro P hall hone page hpage
    rcases List.mem_append.mp hpage with hpage | hpage
    · exact hall page hpage
    · exact List.mem_singleton.mp hpage ▸ hone
  rw [← hnew]
  refine ⟨h.onRun, by omega, ?_, fun _ => ?_, hpages h.bounds ?_, hpages h.tips ?_, ?_, fun item hitem => ?_⟩
  · rw [hitems, List.map_append, h.heights, new.items_heights, hnew, hlength, hp.start]
    obtain ⟨done, rfl⟩ := Nat.exists_eq_add_of_le hfirst
    rw [Nat.add_sub_cancel_left, List.range'_append_1]
    congr 1
    omega
  · by_cases hnil : pages = []
    · subst hnil
      -- the first page starts at the boundary
      have hheights := h.heights
      have hlow := hp.low
      simp only [syncItems, List.flatMap_nil, List.map_nil] at hheights
      have := congrArg List.length hheights
      rw [List.length_nil, List.length_range'] at this
      omega
    · exact h.low hnil
  · rw [hnew, hp.start]
    exact ⟨hp.next_le, hp.last_le, hlength⟩
  · rw [hnew]
    exact hfrom
  · intro last hlast
    rw [List.getLast?_append, List.getLast?_singleton, Option.some_or, Option.some.injEq] at hlast
    subst hlast
    refine ⟨by rw [hnew], hpages (fun page hpage => ?_) le_rfl⟩
    rw [hnew]
    exact (h.tips page hpage).le_served hr.inv.base hmanifest htip
  · rw [hitems, List.mem_append] at hitem
    rcases hitem with hitem | hitem
    · exact h.served item hitem
    · obtain ⟨⟨message, height⟩, hmem, rfl⟩ := List.mem_map.mp hitem
      rw [hnew] at hmem ⊢
      exact hr.page_served hv hfrom.committed hp hmem

theorem Sync.synced (hv : ValidChain config.emitStartHeight chain)
    (h : Sync config chain maxRangeCount maxResponseBytes first pages sys next) :
    Synced config chain first pages sys next := by
  induction h with
  | nil => exact ⟨⟨0, onRun_init⟩, le_rfl, by simp [syncItems], by simp, by simp, by simp, by simp, by simp [syncItems]⟩
  | page _ hon hrun hq hans htip ih => exact (ih.later hv hon hrun).page hv hq hans htip

/-! ## The wallet -/

/-- What the archive keeps of an item, and what it removes there. -/
def FileArchive.itemSets (archive : FileArchive) (first : ℕ) (item : SyncItem) : Finset ℕ × Finset ℕ :=
  archive.servedSets (cutthroughFilter first item.page.tip item.page.labels) item.height

variable {T : P2trIndexerState} {B : List AppliedBlock} {m : ℕ}

theorem Synced.block (h : Synced config chain first pages sys next) (hB : sequential (chain.take m) = .ok (T, B))
    (hm : m ≤ chain.length) (hend : next ≤ config.emitStartHeight + m) {item : SyncItem}
    (hitem : item ∈ syncItems pages) : ∃ k a, item.height = config.emitStartHeight + k ∧ B[k]? = some a ∧
      ServedAs a.storageBlock item.message (sys.disk.archive.itemSets first item).1
        (sys.disk.archive.itemSets first item).2 := by
  obtain ⟨-, hlow, hfirst, hlt, -⟩ := h.item hitem
  obtain ⟨a, hchain, hserved⟩ := h.served item hitem
  obtain ⟨k, hk⟩ := Nat.exists_eq_add_of_le (hlow.trans hfirst)
  have hlen : B.length = m := by rw [applyBlocks_length hB, List.length_take, Nat.min_eq_left hm]
  exact ⟨k, a, hk, (hk ▸ hchain).get hB (by omega), hserved⟩

/-- A client goes through a sync if it takes every response for what it retains. -/
theorem Synced.client_eq_ok (hv : ValidChain config.emitStartHeight chain)
    (h : Synced config chain first pages sys next) (hB : sequential (chain.take m) = .ok (T, B))
    (hm : m ≤ chain.length) (hend : next ≤ config.emitStartHeight + m) {found wallet : Finset ℕ} :
    (runClient B found).sync pages = .ok wallet ↔
      (∀ item ∈ syncItems pages, ∃ a, B[item.height - config.emitStartHeight]? = some a ∧
        Accepts a.storageBlock item.message found) ∧
      wallet = ((syncItems pages).map fun item => (runUids B (item.height - config.emitStartHeight) ∩ found,
        (sys.disk.archive.itemSets first item).2)).foldl (fun s step => (s ∪ step.1) \ step.2) ∅ := by
  have hc : Consecutive config.emitStartHeight (chain.take m) := Consecutive.take hv.heights m
  rw [Client.sync_eq]
  refine foldlM_exchange_eq_ok fun item hitem wallet wallet' => ?_
  obtain ⟨k, a, hk, ha, hserved⟩ := h.block hB hm hend hitem
  rw [hk, Nat.add_sub_cancel_left, hserved.block_eq_ok (runClient_blockAt hB hc ha found), runUids_eq ha, ha]
  simp only [Option.some.injEq, exists_eq_left']
  rfl

/-- Nothing that a sync adds is removed again: only outputs from below the boundary are. -/
theorem Synced.mem_wallet (hv : ValidChain config.emitStartHeight chain)
    (h : Synced config chain first pages sys next)
    (hp : Produced config.emitStartHeight (chain.take m) sys.disk.archive T B) (hm : m ≤ chain.length)
    (hend : next ≤ config.emitStartHeight + m) {adds : SyncItem → Finset ℕ}
    (hadds : ∀ item ∈ syncItems pages, adds item ⊆ runUids B (item.height - config.emitStartHeight)) {uid : ℕ} :
    uid ∈ ((syncItems pages).map fun item => (adds item, (sys.disk.archive.itemSets first item).2)).foldl
        (fun s step => (s ∪ step.1) \ step.2) ∅ ↔ ∃ item ∈ syncItems pages, uid ∈ adds item := by
  have hc : Consecutive config.emitStartHeight (chain.take m) := Consecutive.take hv.heights m
  have hadded : ∀ item ∈ syncItems pages, ∀ uid ∈ adds item,
      ∃ i, RunOutput B (item.height - config.emitStartHeight) i uid :=
    fun item hitem uid hmem => mem_runUids.mp (hadds item hitem hmem)
  have hremoved : ∀ item ∈ syncItems pages, ∀ uid ∈ (sys.disk.archive.itemSets first item).2, ∃ j i,
      RunOutput B j i uid ∧ SpentAt B (config.emitStartHeight + j) i item.height ∧
        config.emitStartHeight + j < first := by
    intro item hitem uid hremove
    obtain ⟨-, -, -, -, hle, htip⟩ := h.item hitem
    obtain ⟨k, a, hk, ha, -⟩ := h.block hp.sequential hm hend hitem
    rw [FileArchive.itemSets, hk, hp.cut_removes hc (List.getElem?_eq_some_iff.mp ha).1] at hremove
    obtain ⟨j, i, hout, hspent, hkept⟩ := hremove
    refine ⟨j, i, hout, hk ▸ hspent, ?_⟩
    by_contra hfirst
    exact hkept ⟨by omega, by omega⟩
  rw [@Produced.mem_exchange _ config.emitStartHeight (chain.take m) _ T B hp hc _ (syncItems pages)
    (fun item => item.height - config.emitStartHeight)]
  · constructor
    · rintro ⟨hin, _⟩
      exact hin.resolve_left (Finset.notMem_empty uid)
    · rintro ⟨item, hitem, hadd⟩
      refine ⟨.inr ⟨item, hitem, hadd⟩, fun item' hitem' hremove => ?_⟩
      obtain ⟨i, hout⟩ := hadded item hitem uid hadd
      obtain ⟨j, i', hout', -, hbelow⟩ := hremoved item' hitem' uid hremove
      obtain ⟨rfl, -⟩ := hout.unique hp.sequential hout'
      obtain ⟨-, hlow, hfirst, -⟩ := h.item hitem
      omega
  · have hpairwise : ((syncItems pages).map (·.height)).Pairwise (· < ·) := h.heights ▸ List.pairwise_lt_range'
    refine List.Pairwise.imp_of_mem ?_ (List.pairwise_map.mp hpairwise)
    intro item item' hitem hitem' hlt
    obtain ⟨-, hlow, hfirst, -⟩ := h.item hitem
    obtain ⟨-, -, hfirst', -⟩ := h.item hitem'
    omega
  · exact hadded
  · intro item hitem uid hremove
    obtain ⟨j, i, hout, hspent, -⟩ := hremoved item hitem uid hremove
    obtain ⟨-, hlow, hfirst, -⟩ := h.item hitem
    refine ⟨j, i, hout, ?_⟩
    rwa [Nat.add_sub_cancel' (hlow.trans hfirst)]

/-- The outputs that the archive keeps of an item: those that no block up to its tip spends. -/
theorem Synced.mem_kept (hv : ValidChain config.emitStartHeight chain)
    (h : Synced config chain first pages sys next)
    (hp : Produced config.emitStartHeight (chain.take m) sys.disk.archive T B)
    (hm : m ≤ chain.length) (htips : ∀ page ∈ pages, page.tip < config.emitStartHeight + m) {item : SyncItem}
    (hitem : item ∈ syncItems pages) {k i uid : ℕ} (hk : item.height = config.emitStartHeight + k)
    (hout : RunOutput B k i uid) : uid ∈ (sys.disk.archive.itemSets first item).1 ↔
      ¬ ∃ s, SpentAt B (config.emitStartHeight + k) i s ∧ s ≤ item.page.tip ∧ s ≠ U32_MAX := by
  have hc : Consecutive config.emitStartHeight (chain.take m) := Consecutive.take hv.heights m
  obtain ⟨hpage, -, hfirst, -⟩ := h.item hitem
  have htip := htips _ hpage
  rw [FileArchive.itemSets, hk]
  refine hp.mem_cut_adds hc ?_ hout (hk ▸ hfirst)
  rw [List.length_take, Nat.min_eq_left hm]
  exact htip

/-- The response of every served block has outputs with different hashes in each transaction. -/
def PagesApart (A : List AppliedBlock) (pages : List SyncedPage) : Prop :=
  ∀ page ∈ pages, ∀ p ∈ page.messages.zipIdx page.start, ∀ a ∈ A, a.storageBlock.height = p.2 →
    ∀ response, decodeLightBlock p.1 = .ok response → a.storageBlock.HashesApart response

/-- An indexed output created at or above `first` that none of the blocks spends. -/
def UnspentFrom (start first : ℕ) (A : List AppliedBlock) (uid : ℕ) : Prop :=
  ∃ k i, RunOutput A k i uid ∧ first ≤ start + k ∧ ∀ s, ¬ SpentAt A (start + k) i s

/-- Whatever is spent of the blocks of a page is spent up to the tip of that page, and not at the
height that stands for unspent. -/
def SpentByPages (A : List AppliedBlock) (pages : List SyncedPage) : Prop :=
  ∀ page ∈ pages, ∀ height i s, page.start ≤ height → height ≤ page.last → SpentAt A height i s →
    s ≤ page.tip ∧ s ≠ U32_MAX

theorem Synced.mem_client (hv : ValidChain config.emitStartHeight chain)
    (h : Synced config chain first pages sys next)
    (hp : Produced config.emitStartHeight (chain.take m) sys.disk.archive T B) (hm : m ≤ chain.length)
    (hend : next ≤ config.emitStartHeight + m) {found wallet : Finset ℕ}
    (hsync : (runClient B found).sync pages = .ok wallet) (uid : ℕ) :
    uid ∈ wallet ↔ ∃ item ∈ syncItems pages, uid ∈ runUids B (item.height - config.emitStartHeight) ∩ found := by
  obtain ⟨-, rfl⟩ := (h.client_eq_ok hv hp.sequential hm hend).mp hsync
  exact h.mem_wallet hv hp hm hend fun _ _ => Finset.inter_subset_left

theorem Synced.exists_client (hv : ValidChain config.emitStartHeight chain)
    (h : Synced config chain first pages sys next)
    (hp : Produced config.emitStartHeight (chain.take m) sys.disk.archive T B) (hm : m ≤ chain.length)
    (hend : next ≤ config.emitStartHeight + m) :
    ∃ found wallet, (runClient B found).sync pages = .ok wallet ∧
      ∀ uid, uid ∈ wallet ↔ ∃ item ∈ syncItems pages, uid ∈ (sys.disk.archive.itemSets first item).1 := by
  have hkept : ∀ item ∈ syncItems pages, (sys.disk.archive.itemSets first item).1 ⊆
      runUids B (item.height - config.emitStartHeight) := by
    intro item hitem
    obtain ⟨k, a, hk, ha, hserved⟩ := h.block hp.sequential hm hend hitem
    rw [hk, Nat.add_sub_cancel_left, runUids_eq ha]
    exact hserved.subset
  have hsorted : (syncItems pages).Pairwise fun x y =>
      x.height - config.emitStartHeight < y.height - config.emitStartHeight := by
    have hpairwise : ((syncItems pages).map (·.height)).Pairwise (· < ·) := h.heights ▸ List.pairwise_lt_range'
    refine List.Pairwise.imp_of_mem ?_ (List.pairwise_map.mp hpairwise)
    intro item item' hitem hitem' hlt
    obtain ⟨-, hlow, hfirst, -⟩ := h.item hitem
    omega
  obtain ⟨found, hfound⟩ := exists_found hp.sequential hsorted hkept
  refine ⟨found, _, (h.client_eq_ok hv hp.sequential hm hend).mpr ⟨fun item hitem => ?_, rfl⟩, fun uid => ?_⟩
  · obtain ⟨k, a, hk, ha, hserved⟩ := h.block hp.sequential hm hend hitem
    have hsame := hfound item hitem
    rw [hk, Nat.add_sub_cancel_left] at hsame ⊢
    exact ⟨a, ha, hserved.accepts (runUids_eq ha ▸ hsame)⟩
  · rw [h.mem_wallet hv hp hm hend fun _ _ => Finset.inter_subset_left]
    refine exists_congr fun item => and_congr_right fun hitem => ?_
    rw [hfound item hitem]

/-- A client that finds no more than the archive keeps finds all of that. -/
theorem Synced.found_eq (hv : ValidChain config.emitStartHeight chain)
    (h : Synced config chain first pages sys next) (hB : sequential (chain.take m) = .ok (T, B))
    (hm : m ≤ chain.length) (hend : next ≤ config.emitStartHeight + m) {found wallet : Finset ℕ}
    (hsync : (runClient B found).sync pages = .ok wallet) {item : SyncItem} (hitem : item ∈ syncItems pages)
    (hle : runUids B (item.height - config.emitStartHeight) ∩ found ⊆ (sys.disk.archive.itemSets first item).1) :
    runUids B (item.height - config.emitStartHeight) ∩ found = (sys.disk.archive.itemSets first item).1 := by
  obtain ⟨haccepts, -⟩ := (h.client_eq_ok hv hB hm hend).mp hsync
  obtain ⟨a, ha, haccepts⟩ := haccepts item hitem
  obtain ⟨k, a', hk, ha', hserved⟩ := h.block hB hm hend hitem
  rw [hk, Nat.add_sub_cancel_left] at ha
  obtain rfl := Option.some.inj (ha.symm.trans ha')
  rw [hk, Nat.add_sub_cancel_left, runUids_eq ha] at hle ⊢
  exact hserved.eq_of_le haccepts hle

theorem Synced.found_unique (hv : ValidChain config.emitStartHeight chain)
    (h : Synced config chain first pages sys next) (hB : sequential (chain.take m) = .ok (T, B))
    (hm : m ≤ chain.length) (hend : next ≤ config.emitStartHeight + m) (hapart : PagesApart B pages)
    {found wallet : Finset ℕ} (hsync : (runClient B found).sync pages = .ok wallet) {item : SyncItem}
    (hitem : item ∈ syncItems pages) :
    runUids B (item.height - config.emitStartHeight) ∩ found = (sys.disk.archive.itemSets first item).1 := by
  obtain ⟨haccepts, -⟩ := (h.client_eq_ok hv hB hm hend).mp hsync
  obtain ⟨a, ha, haccepts⟩ := haccepts item hitem
  obtain ⟨k, a', hk, ha', hserved⟩ := h.block hB hm hend hitem
  rw [hk, Nat.add_sub_cancel_left] at ha
  obtain rfl := Option.some.inj (ha.symm.trans ha')
  rw [hk, Nat.add_sub_cancel_left, runUids_eq ha]
  obtain ⟨hpage, hmem⟩ := mem_syncItems.mp hitem
  obtain ⟨-, scan, s, s', hspec, hscan⟩ := sequential_get hB (Consecutive.take hv.heights m) ha
  exact hserved.unique haccepts (hapart item.page hpage _ hmem a (List.mem_of_getElem? ha)
    ((hspec.height.trans hscan).trans hk.symm))

theorem Synced.run_at_end (hv : ValidChain config.emitStartHeight chain)
    (h : Synced config chain first pages sys next) {last : SyncedPage}
    (hlast : pages.getLast? = some last) (hend : last.last = last.tip) :
    last.last < config.emitStartHeight + chain.length ∧ ∃ m T B, last.last + 1 - config.emitStartHeight = m ∧
      m ≤ chain.length ∧ next = config.emitStartHeight + m ∧
      (∀ page ∈ pages, page.tip < config.emitStartHeight + m) ∧
      Produced config.emitStartHeight (chain.take m) sys.disk.archive T B := by
  obtain ⟨count, hr⟩ := h.onRun
  obtain ⟨n, S, A, hf, -⟩ := hr.inv.follows
  have hmem := List.mem_of_getLast? hlast
  obtain ⟨hnext, htips⟩ := h.ends last hlast
  have hcommitted := (h.tips last hmem).committed
  have hlow := h.low (List.ne_nil_of_mem hmem)
  have hfirst := h.first_le
  have hle := hf.le
  rw [hf.next] at hcommitted
  have hstart : config.emitStartHeight ≤ last.last := by
    obtain ⟨hlo, -, hlength⟩ := h.bounds last hmem
    obtain ⟨message, hget⟩ : ∃ message, last.messages[0]? = some message :=
      ⟨_, List.getElem?_eq_getElem (by omega)⟩
    have hitem : (⟨last, last.start, message⟩ : SyncItem) ∈ syncItems pages :=
      mem_syncItems.mpr ⟨hmem, List.mk_mem_zipIdx_iff_le_and_getElem?_sub.mpr ⟨le_rfl, by simpa using hget⟩⟩
    obtain ⟨-, -, hfirst', -⟩ := h.item hitem
    exact hlow.trans (hfirst'.trans hlo)
  obtain ⟨m, hm⟩ : ∃ m, last.last + 1 - config.emitStartHeight = m := ⟨_, rfl⟩
  obtain ⟨T, B, hB⟩ := sequential_take hf.seq (show m ≤ n by omega)
  refine ⟨by omega, m, T, B, hm, by omega, by omega, fun page hpage => ?_, hf.produced_take hv (by omega) hB⟩
  have := htips page hpage
  omega

/-- If nothing is spent after its page, what the archive keeps is unspent. -/
theorem Synced.unspent_of_spentByPages (hv : ValidChain config.emitStartHeight chain)
    (h : Synced config chain first pages sys next)
    (hp : Produced config.emitStartHeight (chain.take m) sys.disk.archive T B) (hm : m ≤ chain.length)
    (hend : next = config.emitStartHeight + m) (htips : ∀ page ∈ pages, page.tip < config.emitStartHeight + m)
    (hspent : SpentByPages B pages) :
    ∃ found wallet, (runClient B found).sync pages = .ok wallet ∧
      ∀ uid, uid ∈ wallet ↔ UnspentFrom config.emitStartHeight first B uid := by
  have hlen := hp.length_eq
  rw [List.length_take, Nat.min_eq_left hm] at hlen
  obtain ⟨found, wallet, hsync, hwallet⟩ := h.exists_client hv hp hm hend.le
  refine ⟨found, wallet, hsync, fun uid => (hwallet uid).trans ?_⟩
  constructor
  · rintro ⟨item, hitem, hmem⟩
    obtain ⟨hpage, -, hfirst, -, hle, -⟩ := h.item hitem
    obtain ⟨k, a, hk, ha, hserved⟩ := h.block hp.sequential hm hend.le hitem
    obtain ⟨i, hi, huid⟩ := mem_uids.mp (hserved.subset hmem)
    have hout : RunOutput B k i uid := ⟨a, ha, hi, huid⟩
    rw [h.mem_kept hv hp hm htips hitem hk hout] at hmem
    refine ⟨k, i, hout, hk ▸ hfirst, fun s hs => hmem ⟨s, hs, ?_⟩⟩
    obtain ⟨-, hitem⟩ := mem_syncItems.mp hitem
    have hlo := (List.mk_mem_zipIdx_iff_le_and_getElem?_sub.mp hitem).1
    exact hspent item.page hpage item.height i s hlo hle (hk ▸ hs)
  · rintro ⟨k, i, hout, hk, hnone⟩
    have hlt := hout.lt
    have hrange : config.emitStartHeight + k ∈ (syncItems pages).map (·.height) := by
      rw [h.heights, List.mem_range'_1]
      omega
    obtain ⟨item, hitem, heq⟩ := List.mem_map.mp hrange
    refine ⟨item, hitem, (h.mem_kept hv hp hm htips hitem heq hout).mpr ?_⟩
    rintro ⟨s, hs, -⟩
    exact hnone s hs

/-- A client that ends with the unspent outputs has seen every spend. -/
theorem Synced.spentByPages_of_unspent (hv : ValidChain config.emitStartHeight chain)
    (h : Synced config chain first pages sys next)
    (hp : Produced config.emitStartHeight (chain.take m) sys.disk.archive T B) (hm : m ≤ chain.length)
    (hend : next = config.emitStartHeight + m) (htips : ∀ page ∈ pages, page.tip < config.emitStartHeight + m)
    {found wallet : Finset ℕ} (hsync : (runClient B found).sync pages = .ok wallet)
    (hall : ∀ uid, uid ∈ wallet ↔ UnspentFrom config.emitStartHeight first B uid) : SpentByPages B pages := by
  have hc : Consecutive config.emitStartHeight (chain.take m) := Consecutive.take hv.heights m
  intro page hpage height i s hlo hhi hspent
  by_contra hlate
  obtain ⟨-, -, hlength⟩ := h.bounds page hpage
  obtain ⟨message, hget⟩ : ∃ message, page.messages[height - page.start]? = some message :=
    ⟨_, List.getElem?_eq_getElem (by omega)⟩
  have hitem : (⟨page, height, message⟩ : SyncItem) ∈ syncItems pages :=
    mem_syncItems.mpr ⟨hpage, List.mk_mem_zipIdx_iff_le_and_getElem?_sub.mpr ⟨hlo, hget⟩⟩
  obtain ⟨k, a, rfl, ha, -⟩ := h.block hp.sequential hm hend.le hitem
  obtain ⟨uid, hout⟩ := hp.spentAt_output hc hspent
  -- what the client finds is unspent, so it finds what the archive keeps
  have hfound := h.found_eq hv hp.sequential hm hend.le hsync hitem fun uid' hmem => by
    obtain ⟨k', i', hout', -, hnone⟩ := (hall uid').mp ((h.mem_client hv hp hm hend.le hsync uid').mpr ⟨_, hitem, hmem⟩)
    obtain ⟨i₁, hout₁⟩ := mem_runUids.mp (Finset.mem_inter.mp hmem).1
    obtain ⟨rfl, rfl⟩ := hout'.unique hp.sequential hout₁
    simp only [Nat.add_sub_cancel_left] at hnone hout₁
    rw [h.mem_kept hv hp hm htips hitem rfl hout₁]
    rintro ⟨s', hs', -⟩
    exact hnone s' hs'
  -- and the archive keeps the output
  have hkept : uid ∈ (sys.disk.archive.itemSets first ⟨page, config.emitStartHeight + k, message⟩).1 := by
    rw [h.mem_kept hv hp hm htips hitem rfl hout]
    rintro ⟨s', hspent', hearly⟩
    exact hlate (hp.spentAt_unique hc hspent hspent' ▸ hearly)
  rw [← hfound] at hkept
  obtain ⟨k', i', hout', -, hnone⟩ := (hall uid).mp ((h.mem_client hv hp hm hend.le hsync uid).mpr ⟨_, hitem, hkept⟩)
  obtain ⟨rfl, rfl⟩ := hout.unique hp.sequential hout'
  exact hnone s hspent

theorem Synced.unspent_iff (hv : ValidChain config.emitStartHeight chain)
    (h : Synced config chain first pages sys next) {last : SyncedPage}
    (hlast : pages.getLast? = some last) (hend : last.last = last.tip) :
    ∃ state A, last.last < config.emitStartHeight + chain.length ∧
      sequential (chain.take (last.last + 1 - config.emitStartHeight)) = .ok (state, A) ∧
      (∃ found wallet, (runClient A found).sync pages = .ok wallet) ∧
      ((∃ found wallet, (runClient A found).sync pages = .ok wallet ∧
        ∀ uid, uid ∈ wallet ↔ UnspentFrom config.emitStartHeight first A uid) ↔ SpentByPages A pages) ∧
      (PagesApart A pages → ∀ found found' wallet wallet', (runClient A found).sync pages = .ok wallet →
        (runClient A found').sync pages = .ok wallet' → wallet = wallet') := by
  obtain ⟨hlt, m, T, B, hm, hle, hnext, htips, hp⟩ := h.run_at_end hv hlast hend
  obtain ⟨found, wallet, hsync, -⟩ := h.exists_client hv hp hle hnext.le
  refine ⟨T, B, hlt, hm ▸ hp.sequential, ⟨found, wallet, hsync⟩, ⟨?_, ?_⟩, ?_⟩
  · rintro ⟨found, wallet, hsync, hall⟩
    exact h.spentByPages_of_unspent hv hp hle hnext htips hsync hall
  · exact h.unspent_of_spentByPages hv hp hle hnext htips
  · intro hapart found found' wallet wallet' hsync hsync'
    ext uid
    rw [h.mem_client hv hp hle hnext.le hsync, h.mem_client hv hp hle hnext.le hsync']
    refine exists_congr fun item => and_congr_right fun hitem => ?_
    rw [h.found_unique hv hp.sequential hle hnext.le hapart hsync hitem,
      h.found_unique hv hp.sequential hle hnext.le hapart hsync' hitem]

/-- A client of a paged sync can end with the unspent outputs if and only if no block that came after
a page spends an output of it. There is always a client that goes through, and one wallet for all of
them wherever the hashes of each transaction differ. -/
theorem sync_unspent_iff (config : IndexerConfig) (chain : List BlockScanInput)
    (hv : ValidChain config.emitStartHeight chain) (maxRangeCount : UInt32) (maxResponseBytes first : ℕ)
    (pages : List SyncedPage) (sys : System) (next : ℕ)
    (hsync : Sync config chain maxRangeCount maxResponseBytes first pages sys next) (last : SyncedPage)
    (hlast : pages.getLast? = some last) (hend : last.last = last.tip) :
    ∃ state A, last.last < config.emitStartHeight + chain.length ∧
      sequential (chain.take (last.last + 1 - config.emitStartHeight)) = .ok (state, A) ∧
      (∃ found wallet, (runClient A found).sync pages = .ok wallet) ∧
      ((∃ found wallet, (runClient A found).sync pages = .ok wallet ∧
        ∀ uid, uid ∈ wallet ↔ UnspentFrom config.emitStartHeight first A uid) ↔ SpentByPages A pages) ∧
      (PagesApart A pages → ∀ found found' wallet wallet', (runClient A found).sync pages = .ok wallet →
        (runClient A found').sync pages = .ok wallet' → wallet = wallet') :=
  (hsync.synced hv).unspent_iff hv hlast hend

end

/-! ## Two pages over the sample chain -/

section
attribute [local instance] sampleExternals

/-- A page of at most `count` blocks from `next` on, with the boundary 100. -/
def pageQuery (next : ℕ) (count : UInt32) : SyncRangeQuery :=
  { start := next, count := some count, cutthrough := false, cutthroughStart := some 100, cutthroughTip := none,
    filterReuse := false, labels := none, maxBytes := none }

theorem pageQuery_page (next : ℕ) (count : UInt32) : PageQuery 100 next (pageQuery next count) :=
  ⟨rfl, rfl, rfl, rfl⟩

def samplePage (sys : System) (next : ℕ) (count : UInt32) : Option SyncedPage := do
  let r ← (blockRange ⟨sys.disk.archive, 1000, 4194304⟩ (pageQuery next count) none).toOption
  let tip ← sys.disk.archive.tip
  return ⟨r.start, r.last, tip.height, none, r.messages⟩

/-- The window that indexes block 102. -/
def thirdBlockActions : List Action := sampleCatchUp 103 sampleChain :: List.replicate 6 .effect

theorem thirdBlockActions_onChain : OnChain sampleChain thirdBlockActions := by
  intro tuning best fetch hmem
  rcases List.mem_cons.mp hmem with heq | hmem
  · obtain ⟨-, -, rfl⟩ := Action.catchUp.inj heq
    exact sampleFetch_honest
  · exact effects_onChain 6 tuning best fetch hmem

theorem samplePage_eq_some {sys : System} {next : ℕ} {count : UInt32} {page : SyncedPage}
    (h : samplePage sys next count = some page) : ∃ r tip,
    blockRange ⟨sys.disk.archive, 1000, 4194304⟩ (pageQuery next count) none = .ok r ∧
      sys.disk.archive.tip = some tip ∧ page = ⟨r.start, r.last, tip.height, none, r.messages⟩ := by
  simp only [samplePage, Option.bind_eq_bind, Option.bind_eq_some_iff, Option.pure_def, Option.some.injEq,
    toOption_eq_some] at h
  obtain ⟨r, hr, tip, htip, hpage⟩ := h
  exact ⟨r, tip, hr, htip, hpage.symm⟩

theorem sync_two_pages {sys sys' : System} {before acts : List Action} (hbefore : OnChain sampleChain before)
    (hrun : run (step sampleConfig) System.init before = some sys) (hon : OnChain sampleChain acts)
    (hrun' : run (step sampleConfig) sys acts = some sys') {page page' : SyncedPage}
    (hpage : samplePage sys 100 1 = some page) (hpage' : samplePage sys' (page.last + 1) 1000 = some page') :
    Sync sampleConfig sampleChain 1000 4194304 100 [page, page'] sys' (page'.last + 1) := by
  obtain ⟨r, tip, hr, htip, rfl⟩ := samplePage_eq_some hpage
  obtain ⟨r', tip', hr', htip', rfl⟩ := samplePage_eq_some hpage'
  exact (Sync.nil.page hbefore hrun (pageQuery_page 100 1) hr htip).page hon hrun'
    (pageQuery_page (r.last + 1) 1000) hr' htip'

theorem sampleChain_spends : ∃ state A, sequential sampleChain = .ok (state, A) ∧
    allSpends A = [(100, 1, 101), (100, 0, 102)] := by
  have h : ((sequential sampleChain).toOption.any fun p =>
      decide (allSpends p.2 = [(100, 1, 101), (100, 0, 102)])) = true := by
    decide +kernel
  obtain ⟨p, hp, hspends⟩ := (Option.any_eq_true _ _).mp h
  exact ⟨p.1, p.2, toOption_eq_some.mp hp, of_decide_eq_true hspends⟩

/-- A page of one block at tip 101, then block 102, which spends an output of that page, then the
second page up to 102: the client that finds the outputs 1 and 3 goes through, and the spent output
stays in its wallet. -/
theorem late_spend_kept : ∃ sys sys' messages messages' state A,
    run (step sampleConfig) System.init twoBlockActions = some sys ∧
    run (step sampleConfig) sys thirdBlockActions = some sys' ∧
    Sync sampleConfig sampleChain 1000 4194304 100
      [⟨100, 100, 101, none, messages⟩, ⟨101, 102, 102, none, messages'⟩] sys' 103 ∧
    sequential sampleChain = .ok (state, A) ∧
    (runClient A {1, 3}).sync [⟨100, 100, 101, none, messages⟩, ⟨101, 102, 102, none, messages'⟩] = .ok {1, 3} ∧
    ¬ ∃ found wallet,
      (runClient A found).sync [⟨100, 100, 101, none, messages⟩, ⟨101, 102, 102, none, messages'⟩] = .ok wallet ∧
      ∀ uid, uid ∈ wallet ↔ UnspentFrom 100 100 A uid := by
  have hrun : ((run (step sampleConfig) System.init twoBlockActions).any fun sys =>
      (samplePage sys 100 1).any fun p => (run (step sampleConfig) sys thirdBlockActions).any fun sys' =>
        (samplePage sys' (p.last + 1) 1000).any fun p' => (sequential sampleChain).toOption.any fun run =>
          decide (p = ⟨100, 100, 101, none, p.messages⟩ ∧ p' = ⟨101, 102, 102, none, p'.messages⟩ ∧
            ((runClient run.2 {1, 3}).sync [p, p']).toOption = some {1, 3})) = true := by
    decide +kernel
  obtain ⟨sys, hsys, hrun⟩ := (Option.any_eq_true _ _).mp hrun
  obtain ⟨page, hpage, hrun⟩ := (Option.any_eq_true _ _).mp hrun
  obtain ⟨sys', hsys', hrun⟩ := (Option.any_eq_true _ _).mp hrun
  obtain ⟨page', hpage', hrun⟩ := (Option.any_eq_true _ _).mp hrun
  obtain ⟨⟨state, A⟩, hseq, hfacts⟩ := (Option.any_eq_true _ _).mp hrun
  obtain ⟨hp, hp', hkept⟩ := of_decide_eq_true hfacts
  have hsync := sync_two_pages twoBlockActions_onChain hsys thirdBlockActions_onChain hsys' hpage hpage'
  rw [hp, hp'] at hsync hkept
  obtain ⟨state₁, A₁, -, hseq₁, -, hiff, -⟩ := (hsync.synced sampleChain_valid).unspent_iff sampleChain_valid rfl rfl
  obtain ⟨state₂, A₂, hseq₂, hspends⟩ := sampleChain_spends
  have hseq := toOption_eq_some.mp hseq
  obtain ⟨rfl, rfl⟩ := Prod.mk.inj (Except.ok.inj (hseq₁.symm.trans hseq))
  obtain ⟨rfl, rfl⟩ := Prod.mk.inj (Except.ok.inj (hseq.symm.trans hseq₂))
  refine ⟨sys, sys', _, _, _, _, hsys, hsys', hsync, hseq, toOption_eq_some.mp hkept, fun hall => ?_⟩
  have hspent : SpentAt A₁ 100 0 102 := ⟨0, rfl, by rw [hspends]; decide⟩
  have hearly : 102 ≤ 101 :=
    (hiff.mp hall ⟨100, 100, 101, none, page.messages⟩ (by simp) 100 0 102 le_rfl le_rfl hspent).1
  exact absurd hearly (by decide)

/-- Both pages at tip 102. -/
theorem sync_unspent_sample : ∃ sys messages messages' state A,
    Sync sampleConfig sampleChain 1000 4194304 100
      [⟨100, 100, 102, none, messages⟩, ⟨101, 102, 102, none, messages'⟩] sys 103 ∧
    sequential sampleChain = .ok (state, A) ∧ ∃ found wallet,
      (runClient A found).sync [⟨100, 100, 102, none, messages⟩, ⟨101, 102, 102, none, messages'⟩] = .ok wallet ∧
      ∀ uid, uid ∈ wallet ↔ UnspentFrom 100 100 A uid := by
  have hrun : ((run (step sampleConfig) System.init (twoBlockActions ++ thirdBlockActions)).any fun sys =>
      (samplePage sys 100 1).any fun p => (samplePage sys (p.last + 1) 1000).any fun p' =>
        decide (p = ⟨100, 100, 102, none, p.messages⟩ ∧ p' = ⟨101, 102, 102, none, p'.messages⟩)) = true := by
    decide +kernel
  obtain ⟨sys, hsys, hrun⟩ := (Option.any_eq_true _ _).mp hrun
  obtain ⟨page, hpage, hrun⟩ := (Option.any_eq_true _ _).mp hrun
  obtain ⟨page', hpage', hfacts⟩ := (Option.any_eq_true _ _).mp hrun
  obtain ⟨hp, hp'⟩ := of_decide_eq_true hfacts
  have hon : OnChain sampleChain (twoBlockActions ++ thirdBlockActions) := by
    intro tuning best fetch hmem
    rcases List.mem_append.mp hmem with hmem | hmem
    · exact twoBlockActions_onChain tuning best fetch hmem
    · exact thirdBlockActions_onChain tuning best fetch hmem
  have hnone : run (step sampleConfig) sys [] = some sys := rfl
  have hsync := sync_two_pages hon hsys (fun _ _ _ h => by cases h) hnone hpage hpage'
  rw [hp, hp'] at hsync
  obtain ⟨state, A, -, hseq, -, hiff, -⟩ := sync_unspent_iff sampleConfig sampleChain sampleChain_valid 1000 4194304
    100 _ sys 103 hsync ⟨101, 102, 102, none, page'.messages⟩ rfl rfl
  obtain ⟨state', A', hseq', hspends⟩ := sampleChain_spends
  obtain ⟨rfl, rfl⟩ := Prod.mk.inj (Except.ok.inj (hseq.symm.trans hseq'))
  refine ⟨sys, _, _, state, A, hsync, hseq', hiff.mpr ?_⟩
  rintro page hpage height i s _ _ ⟨index, _, hmem⟩
  rw [hspends] at hmem
  have htip : page.tip = 102 := by
    rcases List.mem_cons.mp hpage with rfl | hpage
    · rfl
    · rw [List.mem_singleton.mp hpage]
  have hs : s ≤ 102 := by
    simp only [List.mem_cons, Prod.mk.injEq, List.not_mem_nil, or_false] at hmem
    omega
  exact ⟨htip ▸ hs, fun hmax => by rw [hmax] at hs; exact absurd hs (by decide)⟩

end

end BitcoinData
