import BitcoinData.Proofs.Paging

/-! Immutable answers. The cache decision looks at the last height that was served, while a range
also depends on the height it would have gone on to: the JSON names it, and an explicit cut-through
tip has to cover it. -/

namespace BitcoinData

open Lib

/-! ## The end of a range in its JSON -/

theorem jsonNumber_bytes_injective {n m : ℕ} (h : jsonBytes (jsonNumber n) = jsonBytes (jsonNumber m)) : n = m := by
  have hback : ∀ n, (jsonBytes (jsonNumber n)).map (fun b => Char.ofNat b.toNat) = jsonNumber n := by
    intro n
    unfold jsonBytes
    rw [List.map_map]
    conv_rhs => rw [← List.map_id (jsonNumber n)]
    refine List.map_congr_left fun c hc => ?_
    have hdigit : c.isDigit = true := Nat.isDigit_of_mem_toDigits (by decide) (by decide) hc
    have hlt : c.toNat < 256 := by
      simp only [Char.isDigit, Bool.and_eq_true, decide_eq_true_eq] at hdigit
      have := hdigit.2
      rw [UInt32.le_iff_toNat_le] at this
      exact lt_of_le_of_lt this (by decide)
    simp only [Function.comp_apply, id_eq]
    rw [UInt8.toNat_ofNat_of_lt' hlt, Char.ofNat_toNat]
  have hdigits : jsonNumber n = jsonNumber m := by rw [← hback n, h, hback m]
  have hvalue := congrArg (fun l => Nat.ofDigitChars 10 l 0) hdigits
  simpa only [jsonNumber, Nat.ofDigitChars_toDigits (show 1 < 10 by decide) (show 10 ≤ 10 by decide)] using hvalue

theorem rangeJson_requestedEnd {start last e e' count : ℕ} {complete : Bool} {nextStart : Option ℕ}
    {blocks : List (List Char)}
    (h : jsonBytes (rangeJson start last e count complete nextStart blocks) =
      jsonBytes (rangeJson start last e' count complete nextStart blocks)) : e = e' := by
  apply jsonNumber_bytes_injective
  simp only [rangeJson, jsonObject, jsonLines, List.map_cons, List.map_nil, reduceCtorEq, if_false,
    List.intercalate, List.intersperse, List.flatten_cons, List.flatten_nil, jsonBytes, List.map_append,
    List.append_assoc, List.append_cancel_left_eq] at h
  exact List.append_cancel_right h

section
variable [Externals] {config : IndexerConfig} {chain : List BlockScanInput} {sys sys' : System}

/-! ## Requests at two states -/

inductive LightRequest
  | block (height : ℕ) (q : SingleBlockQuery)
  | range (q : SyncRangeQuery)

/-- The body of an answer and its cache header. -/
def answer (state : AppState) (request : LightRequest) (accept : Option (List Char)) :
    Except ApiError (Bytes × CacheControl) :=
  match request with
  | .block height q => do
    let r ← singleBlock state height q accept
    return (r.body, r.cacheControl)
  | .range q => do
    let r ← blockRange state q accept
    return (r.body, r.cacheControl)

/-- A range goes up to the same height at both tips; or its body does not name that height, and an
explicit cut-through tip covers it at the later tip. -/
def SameEnd (maxRangeCount : UInt32) (q : SyncRangeQuery) (accept : Option (List Char)) (tip tip' : ChainTip) :
    Prop :=
  q.clampedCount maxRangeCount tip' = q.clampedCount maxRangeCount tip ∨
    responseFormat accept = .ok .capnp ∧ ∀ cutthroughTip, q.boundary.isSome →
      q.cutthroughTip = some cutthroughTip → q.start + q.clampedCount maxRangeCount tip' - 1 ≤ cutthroughTip

/-- The later state can answer the request as the earlier one did. -/
def Repeatable (maxRangeCount : UInt32) (archive archive' : FileArchive) (request : LightRequest)
    (accept : Option (List Char)) : Prop :=
  (∃ manifest, archive'.readManifest = .ok manifest) ∧
    match request with
    | .block _ _ => True
    | .range q => ∀ tip tip', archive.tip = some tip → archive'.tip = some tip' →
        SameEnd maxRangeCount q accept tip tip'

/-- A later state of the archive, as far as requests see it. -/
structure Grown (sys sys' : System) (tip : ChainTip) : Prop where
  index : ∃ indexTip, sys.disk.indexStore.tip = some indexTip ∧ tip.height ≤ indexTip.height
  reads : ∀ height ≤ tip.height, ∀ filter, CutthroughCommitted sys.disk.indexStore filter →
    sys'.disk.archive.readBlockFilteredWithHash height filter =
      sys.disk.archive.readBlockFilteredWithHash height filter
  tips : ∀ manifest, sys'.disk.archive.readManifest = .ok manifest →
    ∃ tip', sys'.disk.archive.tip = some tip' ∧ tip.height ≤ tip'.height

theorem grown_of_run (hv : ValidChain config.emitStartHeight chain) {acts acts' : List Action}
    (hon : OnChain chain acts) (hon' : OnChain chain acts')
    (hrun : run (step config) System.init acts = some sys) (hrun' : run (step config) sys acts' = some sys')
    {manifest : Manifest} {tip : ChainTip} (hm : sys.disk.archive.readManifest = .ok manifest)
    (htip : sys.disk.archive.tip = some tip) : Grown sys sys' tip := by
  obtain ⟨count, -, hr, -⟩ := onRun_init.later hv hon hrun
  obtain ⟨count', hcount, hr', hnext⟩ := hr.later hv hon' hrun'
  obtain ⟨hcomplete, hmt, -⟩ := hr.inv.base.served hm htip
  refine ⟨?_, fun height hle filter hc => hr.readBlock_later hv hr' hcount hnext htip hle hc, fun manifest' hm' => ?_⟩
  · obtain ⟨chainTip, indexTip, hct, hindex, hle⟩ := hr.inv.base.manifest _ hcomplete
    rw [hmt, Option.some.injEq] at hct
    exact ⟨indexTip, hindex, hct ▸ hle⟩
  · have hfrom := (TipFrom.of_served hr.inv.base hm htip).run hr.inv.base hrun'
    have hcomplete' : sys'.disk.archive.manifest = .complete manifest' := FileArchive.manifest_of_read hm'
    obtain ⟨tip', hmt', hle⟩ := hfrom.manifest _ hcomplete'
    refine ⟨tip', ?_, hle⟩
    simp only [FileArchive.tip, hm', hmt']

omit [Externals] in
/-- A cut-through tip that an immutable answer resolved to is resolved to again. -/
theorem resolved_later {boundary cutthroughTip resolved : Option ℕ} {tip tip' : ChainTip}
    (h : resolveCutthroughTip boundary cutthroughTip tip = .ok resolved)
    (hexplicit : ¬ (boundary.isSome ∧ cutthroughTip.isNone)) (hle : tip.height ≤ tip'.height) :
    resolveCutthroughTip boundary cutthroughTip tip' = .ok resolved := by
  rw [resolveCutthroughTip_eq_ok] at h ⊢
  rcases h with h | ⟨first, rfl, hresolved, h₁, h₂, h₃⟩
  · exact .inl h
  · cases cutthroughTip with
    | none => exact absurd ⟨rfl, rfl⟩ hexplicit
    | some explicit =>
      rw [Option.getD_some] at hresolved h₂ h₃
      exact .inr ⟨first, rfl, hresolved, h₁.trans hle, h₂, h₃.trans hle⟩

theorem resolved_committed {boundary cutthroughTip resolved : Option ℕ} {tip : ChainTip} {filterReuse : Bool}
    {labels : Option UInt16} (h : resolveCutthroughTip boundary cutthroughTip tip = .ok resolved)
    (hgrown : Grown sys sys' tip) :
    CutthroughCommitted sys.disk.indexStore ⟨boundary, resolved, filterReuse, labels⟩ := by
  obtain ⟨indexTip, hindex, hle⟩ := hgrown.index
  rcases resolveCutthroughTip_eq_ok.mp h with ⟨rfl, -⟩ | ⟨first, -, hresolved, -, -, h₃⟩
  · exact .inl rfl
  · exact .inr ⟨_, indexTip, hresolved, hindex, h₃.trans hle⟩

omit [Externals] in
theorem filteredCacheControl_eq_immutable {manifest : Manifest} {tip : ChainTip} {height : ℕ} {boundary cutthroughTip : Option ℕ} :
    filteredCacheControl manifest tip height boundary cutthroughTip = .immutable ↔
      ¬ (boundary.isSome ∧ cutthroughTip.isNone) ∧ manifest.finalityDepth ≤ tip.height - height := by
  unfold filteredCacheControl cacheControl
  split_ifs with hopen hfinal
  · simp [hopen]
  · exact ⟨fun _ => ⟨hopen, hfinal⟩, fun _ => rfl⟩
  · simp [hfinal]

variable {maxRangeCount : UInt32} {maxResponseBytes : ℕ} {accept : Option (List Char)} {tip tip' : ChainTip}
variable {manifest manifest' : Manifest} {format : ResponseFormat} {cutthroughTip cutthroughTip' : Option ℕ}

/-- One block: an immutable answer is given again whenever the manifest can be read. -/
theorem block_again {height : ℕ} {q : SingleBlockQuery} {r : BlockResponse} (hgrown : Grown sys sys' tip)
    (hm : sys'.disk.archive.readManifest = .ok manifest')
    (ha : BlockAnswered ⟨sys.disk.archive, maxRangeCount, maxResponseBytes⟩ height q format tip manifest
      cutthroughTip r) (himm : r.cacheControl = .immutable) :
    ∃ tip' r', r'.body = r.body ∧ BlockAnswered ⟨sys'.disk.archive, maxRangeCount, maxResponseBytes⟩ height q
      format tip' manifest' cutthroughTip r' := by
  obtain ⟨hexplicit, -⟩ := filteredCacheControl_eq_immutable.mp (ha.cache.symm.trans himm)
  obtain ⟨tip', htip', hle⟩ := hgrown.tips _ hm
  obtain ⟨served, hread, hbody, hhash⟩ := ha.served
  have hcommitted : CutthroughCommitted sys.disk.indexStore
      ⟨q.boundary height, cutthroughTip, q.filterReuse, q.labels⟩ := resolved_committed ha.resolved hgrown
  have hreads := hgrown.reads height ha.height_le _ hcommitted
  refine ⟨tip', ⟨r.body, filteredCacheControl manifest' tip' height (q.boundary height) q.cutthroughTip, height,
    r.blockHash⟩, rfl, ⟨htip', ha.height_le.trans hle, hm, resolved_later ha.resolved hexplicit hle, ha.covers,
    ⟨served, hreads.trans hread, hbody, hhash⟩, rfl, rfl⟩⟩

omit [Externals] in
theorem clampedCount_le_available {q : SyncRangeQuery} : q.clampedCount maxRangeCount tip ≤ tip.height - q.start + 1 := by
  unfold SyncRangeQuery.clampedCount
  omega

omit [Externals] in
/-- A range that gets longer with the tip was cut off by the tip. -/
theorem clampedCount_grows {q : SyncRangeQuery} (hle : tip.height ≤ tip'.height) :
    q.clampedCount maxRangeCount tip ≤ q.clampedCount maxRangeCount tip' ∧
      (q.clampedCount maxRangeCount tip' ≠ q.clampedCount maxRangeCount tip →
        q.clampedCount maxRangeCount tip = tip.height - q.start + 1) := by
  unfold SyncRangeQuery.clampedCount
  have hmax := (q.requestedCount maxRangeCount).toNat_lt
  have hU : U32_MAX = 2 ^ 32 - 1 := rfl
  omega

/-- The messages of an immutable range come out again, however far the range goes now. -/
theorem messages_again {q : SyncRangeQuery} {r : RangeResponse} (hgrown : Grown sys sys' tip)
    (hle : tip.height ≤ tip'.height) (hdepth : 1 ≤ manifest.finalityDepth)
    (ha : RangeAnswered ⟨sys.disk.archive, maxRangeCount, maxResponseBytes⟩ q format tip manifest cutthroughTip r)
    (himm : r.cacheControl = .immutable) :
    (q.clampedCount maxRangeCount tip' ≠ q.clampedCount maxRangeCount tip → r.last < r.requestedEnd) ∧
      rangeMessages sys'.disk.archive (q.responseFilter cutthroughTip) (q.maxBytes.getD maxResponseBytes)
        (q.clampedCount maxRangeCount tip') q.start [] rangeFrameHeaderLen = .ok r.messages := by
  obtain ⟨-, hfinal⟩ := filteredCacheControl_eq_immutable.mp (ha.cache.symm.trans himm)
  obtain ⟨hgrow, hcut⟩ := @clampedCount_grows maxRangeCount tip tip' q hle
  have hpos : 0 < r.messages.length := List.length_pos_iff.mpr ha.progress
  have hend : r.requestedEnd = q.start + q.clampedCount maxRangeCount tip - 1 := ha.requestedEnd
  have hlast := ha.last
  have hcount := ha.count
  have hstart := ha.start_le
  -- an immutable answer ends below the tip
  have hbelow : r.last < tip.height := by omega
  have hshort : q.clampedCount maxRangeCount tip' ≠ q.clampedCount maxRangeCount tip → r.last < r.requestedEnd := by
    intro hne
    have := hcut hne
    omega
  refine ⟨hshort, rangeMessages_again ha.loop ?_ fun j hj => ?_⟩
  · by_cases heq : q.clampedCount maxRangeCount tip' = q.clampedCount maxRangeCount tip
    · exact .inl heq
    · have := hshort heq
      refine .inr ⟨hgrow, ?_⟩
      simp only [List.length_nil]
      omega
  · have havailable := @clampedCount_le_available maxRangeCount tip q
    simp only at hj
    exact hgrown.reads _ (by omega) _ (resolved_committed ha.resolved hgrown)

omit [Externals] in
theorem explicit_of_resolved {boundary cutthroughTip resolved : Option ℕ}
    (h : resolveCutthroughTip boundary cutthroughTip tip = .ok resolved)
    (hexplicit : ¬ (boundary.isSome ∧ cutthroughTip.isNone)) {height : ℕ} (hheight : resolved = some height) :
    boundary.isSome ∧ cutthroughTip = some height := by
  rcases resolveCutthroughTip_eq_ok.mp h with ⟨-, rfl⟩ | ⟨first, rfl, hresolved, -⟩
  · cases hheight
  · cases cutthroughTip with
    | none => exact absurd ⟨rfl, rfl⟩ hexplicit
    | some explicit =>
      rw [hresolved, Option.getD_some] at hheight
      exact ⟨rfl, hheight⟩

/-- A range that keeps its end, or does not show it, is given again. -/
theorem range_again {q : SyncRangeQuery} {r : RangeResponse} (hgrown : Grown sys sys' tip)
    (hdepth : 1 ≤ manifest.finalityDepth) (hformat : responseFormat accept = .ok format)
    (hm : sys'.disk.archive.readManifest = .ok manifest') (htip' : sys'.disk.archive.tip = some tip')
    (hle : tip.height ≤ tip'.height)
    (ha : RangeAnswered ⟨sys.disk.archive, maxRangeCount, maxResponseBytes⟩ q format tip manifest cutthroughTip r)
    (himm : r.cacheControl = .immutable) (hsame : SameEnd maxRangeCount q accept tip tip') :
    ∃ r', r'.body = r.body ∧ RangeAnswered ⟨sys'.disk.archive, maxRangeCount, maxResponseBytes⟩ q format tip'
      manifest' cutthroughTip r' := by
  obtain ⟨hexplicit, -⟩ := filteredCacheControl_eq_immutable.mp (ha.cache.symm.trans himm)
  obtain ⟨hshort, hloop⟩ := messages_again hgrown hle hdepth ha himm
  have hresolved := resolved_later ha.resolved hexplicit hle
  have hend : r.requestedEnd = q.start + q.clampedCount maxRangeCount tip - 1 := ha.requestedEnd
  refine ⟨⟨r.messages, r.body, filteredCacheControl manifest' tip' r.last q.boundary q.cutthroughTip, q.start, r.last,
    q.start + q.clampedCount maxRangeCount tip' - 1, r.count,
    decide (q.start + q.clampedCount maxRangeCount tip' - 1 ≤ r.last),
    if q.start + q.clampedCount maxRangeCount tip' - 1 ≤ r.last then none else some (r.last + 1)⟩,
    rfl, ⟨htip', hm, ha.start_le.trans hle, hresolved, ?_, hloop, ha.progress, ha.count, rfl, rfl, ha.last, rfl,
      by simp, rfl, ?_⟩⟩
  · rcases hsame with heq | ⟨-, hcover⟩
    · simp only
      rw [heq, ← hend]
      exact ha.covers
    · intro height hheight
      obtain ⟨hsome, hexact⟩ := explicit_of_resolved ha.resolved hexplicit hheight
      exact hcover height hsome hexact
  · rcases hsame with heq | ⟨hcapnp, -⟩
    · have hcomplete := ha.complete
      have hnext := ha.nextStart
      simp only
      rw [heq, ← hend, ← hcomplete]
      rw [hcomplete] at hnext
      simp only [decide_eq_true_eq] at hnext
      rw [← hnext]
      exact ha.body
    · obtain rfl := Except.ok.inj (hformat.symm.trans hcapnp)
      exact ha.body

/-- Equal bodies come from the same end, or from a format that does not show it. -/
theorem range_same {q : SyncRangeQuery} {r r' : RangeResponse} (hgrown : Grown sys sys' tip)
    (hdepth : 1 ≤ manifest.finalityDepth) (hformat : responseFormat accept = .ok format)
    (hle : tip.height ≤ tip'.height)
    (ha : RangeAnswered ⟨sys.disk.archive, maxRangeCount, maxResponseBytes⟩ q format tip manifest cutthroughTip r)
    (himm : r.cacheControl = .immutable)
    (ha' : RangeAnswered ⟨sys'.disk.archive, maxRangeCount, maxResponseBytes⟩ q format tip' manifest'
      cutthroughTip' r') (hbody : r'.body = r.body) : SameEnd maxRangeCount q accept tip tip' := by
  obtain ⟨hexplicit, -⟩ := filteredCacheControl_eq_immutable.mp (ha.cache.symm.trans himm)
  obtain ⟨hshort, hloop⟩ := messages_again hgrown hle hdepth ha himm
  obtain rfl : cutthroughTip = cutthroughTip' :=
    Except.ok.inj ((resolved_later ha.resolved hexplicit hle).symm.trans ha'.resolved)
  have hmessages : r.messages = r'.messages := Except.ok.inj (hloop.symm.trans ha'.loop)
  by_cases heq : q.clampedCount maxRangeCount tip' = q.clampedCount maxRangeCount tip
  · exact .inl heq
  have hend : r.requestedEnd = q.start + q.clampedCount maxRangeCount tip - 1 := ha.requestedEnd
  have hend' : r'.requestedEnd = q.start + q.clampedCount maxRangeCount tip' - 1 := ha'.requestedEnd
  obtain ⟨hgrow, -⟩ := @clampedCount_grows maxRangeCount tip tip' q hle
  have hbelow := hshort heq
  have hcount : r'.count.toNat = r.count.toNat := by rw [ha'.count, ha.count, hmessages]
  have hlast : r'.last = r.last := by rw [ha'.last, ha.last, hcount]
  cases format with
  | capnp =>
    refine .inr ⟨hformat, fun cut hsome hcut => ?_⟩
    rw [← hend']
    refine ha'.covers cut ?_
    obtain ⟨first, hfirst⟩ := Option.isSome_iff_exists.mp hsome
    rcases resolveCutthroughTip_eq_ok.mp ha'.resolved with ⟨hnone, -⟩ | ⟨_, -, hresolved, -⟩
    · rw [hfirst] at hnone
      cases hnone
    · rw [hresolved, hcut, Option.getD_some]
  | json =>
    -- both ranges are incomplete, so their texts differ in the end that they name
    have hcomplete : r.complete = false := by
      rw [ha.complete]
      simp only [decide_eq_false_iff_not]
      omega
    have hcomplete' : r'.complete = false := by
      rw [ha'.complete]
      simp only [decide_eq_false_iff_not]
      omega
    have hnext : r'.nextStart = r.nextStart := by rw [ha'.nextStart, ha.nextStart, hcomplete, hcomplete', hlast]
    have htext := ha.body
    have htext' := ha'.body
    simp only [rangeBody] at htext htext'
    obtain ⟨blocks, hblocks, htext⟩ := bind_eq_ok.mp htext
    obtain ⟨blocks', hblocks', htext'⟩ := bind_eq_ok.mp htext'
    rw [← hmessages, hblocks] at hblocks'
    obtain rfl := Except.ok.inj hblocks'
    have hbytes := (Except.ok.inj htext').trans (hbody.trans (Except.ok.inj htext).symm)
    rw [hlast, hcount, hcomplete', hcomplete, hnext] at hbytes
    have hsameEnd := rangeJson_requestedEnd hbytes
    omega

omit [Externals] in
theorem responseFormat_unique {format' : ResponseFormat} (h : responseFormat accept = .ok format)
    (h' : responseFormat accept = .ok format') : format' = format :=
  Except.ok.inj (h'.symm.trans h)

theorem range_repeatable {q : SyncRangeQuery} {r : RangeResponse} (hgrown : Grown sys sys' tip)
    (hdepth : 1 ≤ manifest.finalityDepth) (haccepted :
      RangeAccepted ⟨sys.disk.archive, maxRangeCount, maxResponseBytes⟩ q accept format)
    (ha : RangeAnswered ⟨sys.disk.archive, maxRangeCount, maxResponseBytes⟩ q format tip manifest cutthroughTip r)
    (himm : r.cacheControl = .immutable) :
    (∃ r', blockRange ⟨sys'.disk.archive, maxRangeCount, maxResponseBytes⟩ q accept = .ok r' ∧ r'.body = r.body) ↔
      Repeatable maxRangeCount sys.disk.archive sys'.disk.archive (.range q) accept := by
  constructor
  · rintro ⟨r', hrange, hbody⟩
    obtain ⟨format', tip', manifest', cut', haccepted', ha'⟩ := blockRange_eq_ok.mp hrange
    obtain rfl := responseFormat_unique haccepted.format_eq haccepted'.format_eq
    refine ⟨⟨manifest', ha'.manifest_eq⟩, fun tip₁ tip₂ htip₁ htip₂ => ?_⟩
    obtain rfl := Option.some.inj (ha.tip_eq.symm.trans htip₁)
    obtain rfl := Option.some.inj (ha'.tip_eq.symm.trans htip₂)
    obtain ⟨tip₃, htip₃, hle⟩ := hgrown.tips _ ha'.manifest_eq
    obtain rfl := Option.some.inj (htip₂.symm.trans htip₃)
    exact range_same hgrown hdepth haccepted.format_eq hle ha himm ha' hbody
  · rintro ⟨⟨manifest', hm'⟩, hsame⟩
    obtain ⟨tip', htip', hle⟩ := hgrown.tips _ hm'
    obtain ⟨r', hbody, ha'⟩ := range_again hgrown hdepth haccepted.format_eq hm' htip' hle ha himm
      (hsame tip tip' ha.tip_eq htip')
    refine ⟨r', blockRange_eq_ok.mpr ⟨format, tip', manifest', cutthroughTip, ?_, ha'⟩, hbody⟩
    exact ⟨haccepted.count_ne, haccepted.count_le, haccepted.bytes_ne, haccepted.bytes_le, haccepted.format_eq⟩

/-- An answer that was declared immutable is given again, byte for byte, exactly when the request
can be repeated: the manifest is readable, and a range has the same end or does not show it. -/
theorem immutable_again_iff (config : IndexerConfig) (chain : List BlockScanInput)
    (hv : ValidChain config.emitStartHeight chain) (hdepth : 1 ≤ config.finalityDepth) (acts acts' : List Action)
    (hon : OnChain chain acts) (hon' : OnChain chain acts') (sys sys' : System)
    (hrun : run (step config) System.init acts = some sys) (hrun' : run (step config) sys acts' = some sys')
    (maxRangeCount : UInt32) (maxResponseBytes : ℕ) (request : LightRequest) (accept : Option (List Char))
    (body : Bytes)
    (hans : answer ⟨sys.disk.archive, maxRangeCount, maxResponseBytes⟩ request accept = .ok (body, .immutable)) :
    (∃ cache, answer ⟨sys'.disk.archive, maxRangeCount, maxResponseBytes⟩ request accept = .ok (body, cache)) ↔
      Repeatable maxRangeCount sys.disk.archive sys'.disk.archive request accept := by
  cases request with
  | block height q =>
    obtain ⟨r, hr, hpair⟩ := bind_eq_ok.mp hans
    obtain ⟨rfl, himm⟩ := Prod.mk.inj (Except.ok.inj hpair)
    obtain ⟨format, tip, manifest, cut, hformat, ha⟩ := singleBlock_eq_ok.mp hr
    have hgrown := grown_of_run hv hon hon' hrun hrun' ha.manifest_eq ha.tip_eq
    constructor
    · rintro ⟨cache, hlater⟩
      obtain ⟨r', hr', -⟩ := bind_eq_ok.mp hlater
      obtain ⟨_, _, manifest', _, -, ha'⟩ := singleBlock_eq_ok.mp hr'
      exact ⟨⟨manifest', ha'.manifest_eq⟩, trivial⟩
    · rintro ⟨⟨manifest', hm'⟩, _⟩
      obtain ⟨tip', r', hbody, ha'⟩ := block_again hgrown hm' ha himm
      refine ⟨r'.cacheControl, bind_eq_ok.mpr ⟨r', ?_, by rw [hbody]; rfl⟩⟩
      exact singleBlock_eq_ok.mpr ⟨format, tip', manifest', cut, hformat, ha'⟩
  | range q =>
    obtain ⟨r, hr, hpair⟩ := bind_eq_ok.mp hans
    obtain ⟨rfl, himm⟩ := Prod.mk.inj (Except.ok.inj hpair)
    obtain ⟨format, tip, manifest, cut, haccepted, ha⟩ := blockRange_eq_ok.mp hr
    have hgrown := grown_of_run hv hon hon' hrun hrun' ha.manifest_eq ha.tip_eq
    have hmanifest := finalityDepth_of_run hrun (FileArchive.manifest_of_read ha.manifest_eq)
    rw [← range_repeatable hgrown (hmanifest ▸ hdepth) haccepted ha himm]
    constructor
    · rintro ⟨cache, hlater⟩
      obtain ⟨r', hr', hpair'⟩ := bind_eq_ok.mp hlater
      exact ⟨r', hr', (Prod.mk.inj (Except.ok.inj hpair')).1⟩
    · rintro ⟨r', hr', hbody⟩
      exact ⟨r'.cacheControl, bind_eq_ok.mpr ⟨r', hr', by rw [hbody]; rfl⟩⟩

end

/-! ## On the sample chain -/

section
attribute [local instance] sampleExternals

/-- All blocks from 100 on, one byte at most, cut through up to 101. -/
def cappedQuery : SyncRangeQuery :=
  { start := 100, count := none, cutthrough := false, cutthroughStart := some 100, cutthroughTip := some 101,
    filterReuse := false, labels := none, maxBytes := some 1 }

/-- Block 100 is served as immutable at tip 101. At tip 102 the range would go up to 102, which the
cut-through tip does not cover, and the request is refused. -/
theorem immutable_refused : ∃ sys sys' body,
    run (step sampleConfig) System.init twoBlockActions = some sys ∧
    run (step sampleConfig) sys thirdBlockActions = some sys' ∧
    answer ⟨sys.disk.archive, 1000, 4194304⟩ (.range cappedQuery) none = .ok (body, .immutable) ∧
    (∃ manifest, sys'.disk.archive.readManifest = .ok manifest) ∧
    ¬ ∃ response, answer ⟨sys'.disk.archive, 1000, 4194304⟩ (.range cappedQuery) none = .ok response := by
  have hrun : ((run (step sampleConfig) System.init twoBlockActions).any fun sys =>
      (run (step sampleConfig) sys thirdBlockActions).any fun sys' =>
        (answer ⟨sys.disk.archive, 1000, 4194304⟩ (.range cappedQuery) none).toOption.any (fun p =>
          decide (p.2 = .immutable)) && sys'.disk.archive.readManifest.isOk &&
        (answer ⟨sys'.disk.archive, 1000, 4194304⟩ (.range cappedQuery) none).toOption.isNone) = true := by
    decide +kernel
  obtain ⟨sys, hsys, hrun⟩ := (Option.any_eq_true _ _).mp hrun
  obtain ⟨sys', hsys', hrun⟩ := (Option.any_eq_true _ _).mp hrun
  obtain ⟨hfirst, hnone⟩ := Bool.and_eq_true_iff.mp hrun
  obtain ⟨hfirst, hmanifest⟩ := Bool.and_eq_true_iff.mp hfirst
  obtain ⟨⟨body, cache⟩, hbody, himm⟩ := (Option.any_eq_true _ _).mp hfirst
  obtain rfl := of_decide_eq_true himm
  refine ⟨sys, sys', body, hsys, hsys', toOption_eq_some.mp hbody, exists_of_isOk hmanifest, ?_⟩
  rintro ⟨response, hok⟩
  rw [hok] at hnone
  cases hnone

/-- One block per page, without cut-through. -/
def plainQuery : SyncRangeQuery :=
  { start := 100, count := some 1, cutthrough := false, cutthroughStart := none, cutthroughTip := none,
    filterReuse := false, labels := none, maxBytes := none }

theorem immutable_again_sample : ∃ sys sys' body,
    run (step sampleConfig) System.init twoBlockActions = some sys ∧
    run (step sampleConfig) sys thirdBlockActions = some sys' ∧
    answer ⟨sys.disk.archive, 1000, 4194304⟩ (.range plainQuery) none = .ok (body, .immutable) ∧
    ∃ cache, answer ⟨sys'.disk.archive, 1000, 4194304⟩ (.range plainQuery) none = .ok (body, cache) := by
  have hrun : ((run (step sampleConfig) System.init twoBlockActions).any fun sys =>
      (run (step sampleConfig) sys thirdBlockActions).any fun sys' =>
        (answer ⟨sys.disk.archive, 1000, 4194304⟩ (.range plainQuery) none).toOption.any (fun p =>
          decide (p.2 = .immutable)) && sys'.disk.archive.readManifest.isOk) = true := by
    decide +kernel
  obtain ⟨sys, hsys, hrun⟩ := (Option.any_eq_true _ _).mp hrun
  obtain ⟨sys', hsys', hrun⟩ := (Option.any_eq_true _ _).mp hrun
  obtain ⟨hfirst, hmanifest⟩ := Bool.and_eq_true_iff.mp hrun
  obtain ⟨⟨body, cache⟩, hbody, himm⟩ := (Option.any_eq_true _ _).mp hfirst
  obtain rfl := of_decide_eq_true himm
  refine ⟨sys, sys', body, hsys, hsys', toOption_eq_some.mp hbody, ?_⟩
  refine (immutable_again_iff sampleConfig sampleChain sampleChain_valid le_rfl _ _ twoBlockActions_onChain
    thirdBlockActions_onChain sys sys' hsys hsys' 1000 4194304 _ none body (toOption_eq_some.mp hbody)).mpr ?_
  refine ⟨exists_of_isOk hmanifest, fun tip tip' _ _ => .inl ?_⟩
  have hone : ∀ t : ChainTip, plainQuery.clampedCount 1000 t = 1 := by
    intro t
    change min 1 (min (t.height - 100 + 1) U32_MAX) = 1
    have hU : U32_MAX = 2 ^ 32 - 1 := rfl
    omega
  rw [hone, hone]

end

end BitcoinData
