import BitcoinData.Proofs.StableResponses
import BitcoinData.Sanity.Served
import BitcoinData.Spec.Sync

/-! What a request of the server goes through when it is answered, and the tips that it sees along
a run. -/

namespace BitcoinData

open Lib

theorem internal_eq_ok {α : Type} {x : Except String α} {a : α} : internal x = .ok a ↔ x = .ok a := by
  cases x with
  | error e => simp [internal]
  | ok b => simp [internal]

theorem ensureRequest_eq_ok {c : Prop} [Decidable c] {message : String} {u : Unit} :
    ensureRequest c message = .ok u ↔ c := by
  unfold ensureRequest
  split_ifs with h
  · simp [h]
  · simp [h]

/-- The cut-through tip of a request: absent without a boundary, else between the boundary and the
served tip. -/
theorem resolveCutthroughTip_eq_ok {boundary cutthroughTip resolved : Option ℕ} {tip : ChainTip} :
    resolveCutthroughTip boundary cutthroughTip tip = .ok resolved ↔
      boundary = none ∧ resolved = none ∨ ∃ first, boundary = some first ∧
        resolved = some (cutthroughTip.getD tip.height) ∧ first ≤ tip.height ∧
        first ≤ cutthroughTip.getD tip.height ∧ cutthroughTip.getD tip.height ≤ tip.height := by
  cases boundary with
  | none => simp [resolveCutthroughTip, eq_comm]
  | some first =>
    simp only [resolveCutthroughTip, bind_eq_ok, ensureRequest_eq_ok, pure_eq_ok, Except.ok.injEq,
      exists_const, reduceCtorEq, false_and, false_or, Option.some.injEq, exists_eq_left']
    constructor
    · rintro ⟨h₁, h₂, h₃, h₄⟩
      exact ⟨h₄.symm, h₁, h₂, h₃⟩
    · rintro ⟨h₄, h₁, h₂, h₃⟩
      exact ⟨h₁, h₂, h₃, h₄.symm⟩

theorem ensureCutthroughTipCoversHeight_eq_ok {cutthroughTip : Option ℕ} {height : ℕ} {u : Unit} :
    ensureCutthroughTipCoversHeight cutthroughTip height = .ok u ↔
      ∀ tip, cutthroughTip = some tip → height ≤ tip := by
  cases cutthroughTip with
  | none => simp [ensureCutthroughTipCoversHeight]
  | some tip => simp [ensureCutthroughTipCoversHeight, ensureRequest_eq_ok]

section
variable [Externals] {archive archive' : FileArchive} {filter : StoredBlockResponseFilter} {cap : ℕ}

/-- The messages that the loop adds are the responses of the next heights. -/
theorem rangeMessages_spec {offsets height framed : ℕ} {messages out : List Bytes}
    (h : rangeMessages archive filter cap offsets height messages framed = .ok out) :
    ∃ added, out = messages ++ added ∧ added.length ≤ offsets ∧
      ∀ j m, added[j]? = some m →
        ∃ served, archive.readBlockFilteredWithHash (height + j) filter = .ok served ∧ served.payload = m := by
  induction offsets generalizing height framed messages with
  | zero =>
    obtain rfl := Except.ok.inj h
    exact ⟨[], by simp⟩
  | succ offsets ih =>
    rw [rangeMessages, bind_eq_ok] at h
    obtain ⟨served, hread, h⟩ := h
    rw [bind_eq_ok] at h
    obtain ⟨projected, -, h⟩ := h
    split_ifs at h with hstop hfirst
    · obtain rfl := Except.ok.inj h
      exact ⟨[], by simp⟩
    · obtain rfl := Except.ok.inj h
      refine ⟨[served.payload], rfl, by simp, fun j m hj => ?_⟩
      obtain rfl : j = 0 := by
        have := (List.getElem?_eq_some_iff.mp hj).1
        simpa using this
      exact ⟨served, hread, by simpa using hj⟩
    · obtain ⟨added, rfl, hlen, hadded⟩ := ih h
      refine ⟨served.payload :: added, by simp, by simpa using hlen, fun j m hj => ?_⟩
      cases j with
      | zero => exact ⟨served, hread, by simpa using hj⟩
      | succ j =>
        obtain ⟨served', hread', hm⟩ := hadded j m (by simpa using hj)
        exact ⟨served', by rwa [show height + (j + 1) = height + 1 + j by omega], hm⟩

theorem rangeMessages_again {offsets offsets' height framed : ℕ} {messages out : List Bytes}
    (h : rangeMessages archive filter cap offsets height messages framed = .ok out)
    (hmore : offsets' = offsets ∨ offsets ≤ offsets' ∧ out.length < messages.length + offsets)
    (hread : ∀ j < offsets, archive'.readBlockFilteredWithHash (height + j) filter =
      archive.readBlockFilteredWithHash (height + j) filter) :
    rangeMessages archive' filter cap offsets' height messages framed = .ok out := by
  induction offsets generalizing height framed messages offsets' with
  | zero =>
    obtain rfl := Except.ok.inj h
    rcases hmore with rfl | ⟨-, hlt⟩
    · rfl
    · simp at hlt
  | succ offsets ih =>
    obtain ⟨more, rfl⟩ : ∃ more, offsets' = more + 1 := ⟨offsets' - 1, by omega⟩
    rw [rangeMessages, bind_eq_ok] at h
    obtain ⟨served, hserved, h⟩ := h
    rw [bind_eq_ok] at h
    obtain ⟨projected, hprojected, h⟩ := h
    have hhere := hread 0 (by omega)
    rw [Nat.add_zero] at hhere
    rw [rangeMessages, hhere, hserved, ok_bind, hprojected, ok_bind]
    split_ifs at h with hstop hfirst
    · rw [if_pos hstop]
      exact h
    · rw [if_neg hstop, if_pos hfirst]
      exact h
    · rw [if_neg hstop, if_neg hfirst]
      refine ih h ?_ fun j hj => ?_
      · rw [List.length_append, List.length_singleton]
        omega
      · have := hread (j + 1) (by omega)
        rwa [show height + (j + 1) = height + 1 + j by omega] at this

variable {state : AppState} {q : SyncRangeQuery} {accept : Option (List Char)}

/-- The filter that a range request resolves to. -/
def SyncRangeQuery.responseFilter (q : SyncRangeQuery) (cutthroughTip : Option ℕ) : StoredBlockResponseFilter :=
  ⟨q.boundary, cutthroughTip, q.filterReuse, q.labels⟩

/-- What a range request passes that does not depend on the archive. -/
structure RangeAccepted (state : AppState) (q : SyncRangeQuery) (accept : Option (List Char))
    (format : ResponseFormat) : Prop where
  count_ne : q.requestedCount state.maxRangeCount ≠ 0
  count_le : q.requestedCount state.maxRangeCount ≤ state.maxRangeCount
  bytes_ne : q.maxBytes.getD state.maxResponseBytes ≠ 0
  bytes_le : q.maxBytes.getD state.maxResponseBytes ≤ state.maxResponseBytes
  format_eq : responseFormat accept = .ok format

/-- An answered range request. -/
structure RangeAnswered (state : AppState) (q : SyncRangeQuery) (format : ResponseFormat) (tip : ChainTip)
    (manifest : Manifest) (cutthroughTip : Option ℕ) (r : RangeResponse) : Prop where
  tip_eq : state.archive.tip = some tip
  manifest_eq : state.archive.readManifest = .ok manifest
  start_le : q.start ≤ tip.height
  resolved : resolveCutthroughTip q.boundary q.cutthroughTip tip = .ok cutthroughTip
  covers : ∀ height, cutthroughTip = some height → r.requestedEnd ≤ height
  loop : rangeMessages state.archive (q.responseFilter cutthroughTip) (q.maxBytes.getD state.maxResponseBytes)
    (q.clampedCount state.maxRangeCount tip) q.start [] rangeFrameHeaderLen = .ok r.messages
  progress : r.messages ≠ []
  count : r.count.toNat = r.messages.length
  start : r.start = q.start
  requestedEnd : r.requestedEnd = q.start + q.clampedCount state.maxRangeCount tip - 1
  last : r.last = q.start + r.count.toNat - 1
  complete : r.complete = decide (r.requestedEnd ≤ r.last)
  nextStart : r.nextStart = if r.complete then none else some (r.last + 1)
  cache : r.cacheControl = filteredCacheControl manifest tip r.last q.boundary q.cutthroughTip
  body : rangeBody format q.start r.last r.requestedEnd r.count.toNat r.complete r.nextStart r.messages =
    .ok r.body

theorem blockRange_eq_ok {r : RangeResponse} : blockRange state q accept = .ok r ↔
    ∃ format tip manifest cutthroughTip, RangeAccepted state q accept format ∧
      RangeAnswered state q format tip manifest cutthroughTip r := by
  simp only [blockRange, bind_eq_ok, ensureRequest_eq_ok, internal_eq_ok, exists_const, servedTip, okOr_eq_ok,
    ensureCutthroughTipCoversHeight_eq_ok, ensure_eq_ok, tryU32_eq_ok, pure_eq_ok, Except.ok.injEq]
  constructor
  · rintro ⟨h₁, h₂, h₃, h₄, format, h₅, tip, h₆, manifest, h₇, h₈, cut, h₉, h₁₀, messages, h₁₁, h₁₂, count, h₁₃,
      body, h₁₄, h₁₅⟩
    subst h₁₅
    exact ⟨format, tip, manifest, cut, ⟨h₁, h₂, h₃, h₄, h₅⟩,
      ⟨h₆, h₇, h₈, h₉, h₁₀, h₁₁, h₁₂, h₁₃, rfl, rfl, rfl, rfl, by simp, rfl, h₁₄⟩⟩
  · rintro ⟨format, tip, manifest, cut, ha, hr⟩
    obtain ⟨messages, body, cache, start, last, requestedEnd, count, complete, nextStart⟩ := r
    obtain ⟨h₆, h₇, h₈, h₉, h₁₀, h₁₁, h₁₂, h₁₃, hstart, hend, hlast, hcomplete, hnext, hcache, h₁₄⟩ := hr
    simp only at hstart hend hlast hcomplete hnext hcache h₁₀ h₁₁ h₁₂ h₁₃ h₁₄
    subst hstart hend hlast
    replace hcomplete : complete = decide (q.start + q.clampedCount state.maxRangeCount tip - 1 ≤ q.start + count.toNat - 1) :=
      hcomplete
    subst hcomplete hnext hcache
    refine ⟨ha.count_ne, ha.count_le, ha.bytes_ne, ha.bytes_le, format, ha.format_eq, tip, h₆, manifest, h₇, h₈,
      cut, h₉, h₁₀, messages, h₁₁, h₁₂, count, h₁₃, body, h₁₄, ?_⟩
    simp

/-- An answered request for one block. -/
structure BlockAnswered (state : AppState) (height : ℕ) (q : SingleBlockQuery) (format : ResponseFormat)
    (tip : ChainTip) (manifest : Manifest) (cutthroughTip : Option ℕ) (r : BlockResponse) : Prop where
  tip_eq : state.archive.tip = some tip
  height_le : height ≤ tip.height
  manifest_eq : state.archive.readManifest = .ok manifest
  resolved : resolveCutthroughTip (q.boundary height) q.cutthroughTip tip = .ok cutthroughTip
  covers : ∀ covered, cutthroughTip = some covered → height ≤ covered
  served : ∃ served, state.archive.readBlockFilteredWithHash height
      ⟨q.boundary height, cutthroughTip, q.filterReuse, q.labels⟩ = .ok served ∧
    blockBody format served.payload = .ok r.body ∧ r.blockHash = served.blockHash
  cache : r.cacheControl = filteredCacheControl manifest tip height (q.boundary height) q.cutthroughTip
  height : r.height = height

theorem singleBlock_eq_ok {height : ℕ} {q : SingleBlockQuery} {r : BlockResponse} :
    singleBlock state height q accept = .ok r ↔ ∃ format tip manifest cutthroughTip,
      responseFormat accept = .ok format ∧ BlockAnswered state height q format tip manifest cutthroughTip r := by
  simp only [singleBlock, bind_eq_ok, internal_eq_ok, exists_const, servedTip, okOr_eq_ok, ensureHeightServed,
    ensureCutthroughTipCoversHeight_eq_ok, ensure_eq_ok, pure_eq_ok, Except.ok.injEq]
  constructor
  · rintro ⟨format, h₁, tip, h₂, h₃, manifest, h₄, cut, h₅, h₆, served, h₇, body, h₈, h₉⟩
    subst h₉
    exact ⟨format, tip, manifest, cut, h₁, ⟨h₂, h₃, h₄, h₅, h₆, ⟨served, h₇, h₈, rfl⟩, rfl, rfl⟩⟩
  · rintro ⟨format, tip, manifest, cut, h₁, hr⟩
    obtain ⟨body, cache, height', hash⟩ := r
    obtain ⟨h₂, h₃, h₄, h₅, h₆, ⟨served, h₇, h₈, hhash⟩, hcache, hheight⟩ := hr
    simp only at h₈ hhash hcache hheight
    subst hhash hcache hheight
    exact ⟨format, h₁, tip, h₂, h₃, manifest, h₄, cut, h₅, h₆, served, h₇, body, h₈, rfl⟩

/-! ## The served tip along a run -/

variable {config : IndexerConfig} {sys sys' : System} {bound : ℕ}

/-- Every manifest from here on has a tip of at least `bound`. -/
structure TipFrom (config : IndexerConfig) (bound : ℕ) (sys : System) : Prop where
  committed : bound < nextHeight config sys.disk.indexStore
  manifest : ∀ m, sys.disk.archive.manifest = .complete m → ∃ tip, m.tip = some tip ∧ bound ≤ tip.height

theorem TipFrom.step {a : Action} (hb : Base config sys) (ht : TipFrom config bound sys)
    (h : Steps config sys a sys') : TipFrom config bound sys' := by
  refine ⟨lt_of_lt_of_le ht.committed (h.nextHeight_le hb), ?_⟩
  cases h with
  | start hs =>
    obtain ⟨network, startHeight, rfl, -⟩ := startProcess_eq_ok hs
    exact ht.manifest
  | mark hm =>
    intro m h
    rw [FileArchive.markCreationBlock_manifest hm] at h
    exact ht.manifest m h
  | truncate => exact fun m h => ManifestFile.noConfusion h
  | finish =>
    -- the manifest of a window has the tip that the window committed
    intro m h
    obtain rfl := ManifestFile.complete.inj h
    have hs : Settled _ _ _ := hb.stage _ rfl
    have hlt := ht.committed
    rw [nextHeight_of_tip hs.tip] at hlt
    exact ⟨_, rfl, Nat.lt_succ_iff.mp hlt⟩
  | stop => exact ht.manifest
  | window _ => exact ht.manifest
  | write => exact ht.manifest
  | group _ => exact ht.manifest
  | commit => exact ht.manifest

theorem TipFrom.run {acts : List Action} (hb : Base config sys) (ht : TipFrom config bound sys)
    (h : run (BitcoinData.step config) sys acts = some sys') : TipFrom config bound sys' := by
  refine (run_invariant (I := fun s => Base config s ∧ TipFrom config bound s)
    (fun a _ s s' hs hstep => ?_) ⟨hb, ht⟩ h).2
  exact ⟨hs.1.step (steps_of_step hstep), hs.2.step hs.1 (steps_of_step hstep)⟩

omit [Externals] in
theorem FileArchive.manifest_of_read {manifest : Manifest} (h : archive.readManifest = .ok manifest) :
    archive.manifest = .complete manifest := by
  unfold FileArchive.readManifest at h
  cases hfile : archive.manifest with
  | absent => rw [hfile] at h; cases h
  | torn => rw [hfile] at h; cases h
  | complete m =>
    rw [hfile] at h
    rw [Except.ok.inj h]

/-- A readable manifest gives the served tip, and it is committed. -/
theorem Base.served (hb : Base config sys) {manifest : Manifest} {tip : ChainTip}
    (hm : sys.disk.archive.readManifest = .ok manifest) (ht : sys.disk.archive.tip = some tip) :
    sys.disk.archive.manifest = .complete manifest ∧ manifest.tip = some tip ∧
      tip.height < nextHeight config sys.disk.indexStore := by
  have hcomplete := FileArchive.manifest_of_read hm
  obtain ⟨chainTip, indexTip, hmt, hindex, hle⟩ := hb.manifest _ hcomplete
  simp only [FileArchive.tip, hm, hmt, Option.some.injEq] at ht
  subst ht
  refine ⟨hcomplete, hmt, ?_⟩
  rw [nextHeight_of_tip hindex]
  omega

theorem TipFrom.of_served (hb : Base config sys) {manifest : Manifest} {tip : ChainTip}
    (hm : sys.disk.archive.readManifest = .ok manifest) (ht : sys.disk.archive.tip = some tip) :
    TipFrom config tip.height sys := by
  obtain ⟨hcomplete, hmt, hlt⟩ := hb.served hm ht
  refine ⟨hlt, fun m h => ?_⟩
  rw [hcomplete] at h
  obtain rfl := ManifestFile.complete.inj h
  exact ⟨tip, hmt, le_rfl⟩

/-- The tip that a server with a readable manifest serves never falls. -/
theorem TipFrom.le_served (ht : TipFrom config bound sys) (hb : Base config sys) {manifest : Manifest}
    {tip : ChainTip} (hm : sys.disk.archive.readManifest = .ok manifest)
    (htip : sys.disk.archive.tip = some tip) : bound ≤ tip.height := by
  obtain ⟨hcomplete, hmt, -⟩ := hb.served hm htip
  obtain ⟨tip', htip', hle⟩ := ht.manifest _ hcomplete
  rw [hmt, Option.some.injEq] at htip'
  exact htip' ▸ hle

/-- Every manifest of a run has the finality depth of its configuration. -/
theorem finalityDepth_of_run {acts : List Action} (h : run (step config) System.init acts = some sys)
    {manifest : Manifest} (hm : sys.disk.archive.manifest = .complete manifest) :
    manifest.finalityDepth = config.finalityDepth := by
  refine run_invariant (I := fun s => ∀ m, s.disk.archive.manifest = .complete m →
    m.finalityDepth = config.finalityDepth) (fun a _ s s' hs hstep => ?_) (fun m hm => by cases hm) h manifest hm
  cases steps_of_step hstep with
  | start hstart =>
    obtain ⟨network, startHeight, rfl, -⟩ := startProcess_eq_ok hstart
    exact hs
  | mark hmark =>
    intro m h
    rw [FileArchive.markCreationBlock_manifest hmark] at h
    exact hs m h
  | truncate => exact fun m h => ManifestFile.noConfusion h
  | finish =>
    intro m h
    obtain rfl := ManifestFile.complete.inj h
    rfl
  | stop => exact hs
  | window _ => exact hs
  | write => exact hs
  | group _ => exact hs
  | commit => exact hs

/-! ## What a page shows -/

variable {chain : List BlockScanInput} {block block' : StoredLightBlockInput}

omit [Externals] in
theorem retained_of_clearAbove {tip uid : ℕ} (htip : filter.cutthroughTip = some tip)
    (h : block.clearAbove tip = block'.clearAbove tip) (hmem : uid ∈ block.retainedUids filter) :
    uid ∈ block'.retainedUids filter := by
  have hunmarked : block.unmarked = block'.unmarked := by
    rw [← unmarked_clearAbove tip block, h, unmarked_clearAbove]
  rw [mem_retainedUids] at hmem ⊢
  obtain ⟨i, output, hi, hkept, huid⟩ := hmem
  have houtputs := congrArg (fun b : StoredLightBlockInput => b.outputs[i]?) h
  simp only [StoredLightBlockInput.clearAbove, List.getElem?_map, hi, Option.map_some] at houtputs
  obtain ⟨output', hi', heq⟩ := Option.map_eq_some_iff.mp houtputs.symm
  refine ⟨i, output', hi', ?_, (outputUid_of_unmarked hunmarked i) ▸ huid⟩
  rw [← shouldOmit_clear htip, heq, shouldOmit_clear htip, ← (header_of_unmarked hunmarked).1]
  exact hkept

theorem OnRun.servedSets_later {count count' tip height : ℕ} (hv : ValidChain config.emitStartHeight chain)
    (hr : OnRun config chain sys count) (hr' : OnRun config chain sys' count')
    (hnext : nextHeight config sys.disk.indexStore ≤ nextHeight config sys'.disk.indexStore)
    (htip : filter.cutthroughTip = some tip) (hlt : tip < nextHeight config sys.disk.indexStore)
    (hlow : config.emitStartHeight ≤ height) (hle : height ≤ tip) :
    sys'.disk.archive.servedSets filter height = sys.disk.archive.servedSets filter height := by
  obtain ⟨k, rfl⟩ := Nat.exists_eq_add_of_le hlow
  obtain ⟨n, S, A, hf, -⟩ := hr.inv.follows
  obtain ⟨n', S', A', hf', -⟩ := hr'.inv.follows
  have hcount := hr.drafts.committed hr.inv.base.files hf.next
  have hcount' := hr'.drafts.committed hr'.inv.base.files hf'.next
  have hn := hf.next
  have hn' := hf'.next
  obtain ⟨block, -, hs, -, -⟩ := hr.drafts.file k (by omega)
  obtain ⟨block', -, hs', -, -⟩ := hr'.drafts.file k (by omega)
  have hclear := hr.clearAbove_eq hv hr' hnext hlt (by omega) (by omega) hs hs'
  have hunmarked : block.unmarked = block'.unmarked := by
    rw [← unmarked_clearAbove tip block, hclear, unmarked_clearAbove]
  rw [servedSets_eq hs, servedSets_eq hs', Prod.mk.injEq]
  constructor
  · ext uid
    rw [List.mem_toFinset, List.mem_toFinset]
    exact ⟨retained_of_clearAbove htip hclear.symm, retained_of_clearAbove htip hclear⟩
  · unfold StoredLightBlockInput.keptSpentUids
    rw [spends_of_unmarked hunmarked, (header_of_unmarked hunmarked).1]

end

end BitcoinData
