import BitcoinData.Proofs.Balance
import BitcoinData.Sanity.Range
import BitcoinData.Sanity.Server

/-! Range responses. The parser of their frames is the inverse of the writer, and the pages that
the server answers are contiguous, within the cap and as long as the cap allows. -/

namespace BitcoinData

open Lib

/-! ## Frames -/

/-- A byte string parses to the messages it is the frame of, every other one is an error, and no
input makes the parser take a slice outside it: so it is, unless the header announces more items
than the allocator has room for. -/
theorem parseRange_exact_iff (available : ℕ) (bytes : Bytes) :
    ((∀ messages, parseRange available bytes = .ok messages ↔ frameRange messages = .ok bytes) ∧
      ((∃ messages, frameRange messages = .ok bytes) ∨
        ∃ message, parseRange available bytes = .error (.failed message)) ∧
      parseRange available bytes ≠ .error .sliceOutOfRange) ↔
    ∀ (count : UInt32) (rest : Bytes), bytes = rangeHeader count.toNat ++ rest →
      count.toNat * SLICE_SIZE ≤ available := by
  constructor
  · rintro ⟨hframes, hrest, -⟩ count rest hbytes
    by_contra hover
    have haborts := parseRange_aborts.mp ⟨count, rest, hbytes, not_le.mp hover⟩
    rcases hrest with ⟨messages, hframe⟩ | ⟨message, hfail⟩
    · rw [(hframes messages).mpr hframe] at haborts
      cases haborts
    · rw [hfail] at haborts
      cases haborts
  · intro hroom
    have hreturns : parseRange available bytes ≠ .error .allocationFailed := by
      intro haborts
      obtain ⟨count, rest, hbytes, hover⟩ := parseRange_aborts.mpr haborts
      exact absurd (hroom count rest hbytes) (not_le.mpr hover)
    have hreported := parseRange_reported hreturns
    refine ⟨fun messages => ⟨fun h => (parseRange_eq_ok.mp h).2, fun hframe => ?_⟩, ?_, fun h => ?_⟩
    · obtain ⟨hcount, -, hbytes⟩ := frameRange_eq_ok.mp hframe
      have htoNat : (UInt32.ofNat messages.length).toNat = messages.length :=
        UInt32.toNat_ofNat_of_lt' (lt_of_le_of_lt hcount (by decide))
      have hfits := hroom (UInt32.ofNat messages.length) (messages.flatMap frameItem) (by rw [htoNat, hbytes])
      exact parseRange_eq_ok.mpr ⟨htoNat ▸ hfits, hframe⟩
    · cases h : parseRange available bytes with
      | ok messages => exact .inl ⟨messages, (parseRange_eq_ok.mp h).2⟩
      | error fault =>
        obtain ⟨message, rfl⟩ := hreported fault h
        exact .inr ⟨message, rfl⟩
    · obtain ⟨message, hmessage⟩ := hreported _ h
      cases hmessage

/-- Ten bytes that announce `u32::MAX` items, on a machine with 32 GiB to give: they are no frame,
and the parser does not report an error. -/
theorem announced_items_abort :
    parseRange (2 ^ 35) [66, 68, 83, 82, 1, 0, 255, 255, 255, 255] = .error .allocationFailed ∧
    ¬ ((∃ messages, frameRange messages = .ok [66, 68, 83, 82, 1, 0, 255, 255, 255, 255]) ∨
      ∃ message, parseRange (2 ^ 35) [66, 68, 83, 82, 1, 0, 255, 255, 255, 255] = .error (.failed message)) := by
  have haborts : parseRange (2 ^ 35) [66, 68, 83, 82, 1, 0, 255, 255, 255, 255] =
      .error .allocationFailed := by decide
  refine ⟨haborts, ?_⟩
  rintro (⟨messages, hframe⟩ | ⟨message, hfail⟩)
  · obtain ⟨-, -, hbytes⟩ := frameRange_eq_ok.mp hframe
    cases messages with
    | nil => exact absurd hbytes (by decide)
    | cons message messages =>
      have hlen := congrArg List.length hbytes
      rw [List.flatMap_cons, List.length_append, List.length_append, length_rangeHeader,
        length_frameItem] at hlen
      simp only [List.length_cons, List.length_nil] at hlen
      omega
  · rw [haborts] at hfail
    cases hfail

example : parseRange 16 (RANGE_MAGIC ++ [1, 0, 1, 0, 0, 0, 2, 0, 0, 0, 7]) =
    .error (.failed "truncated range item body") := by decide

/-! ## The loop over the blocks of a page -/

/-- The counter of the loop after `messages`. -/
def framedBytes (messages : List Bytes) : ℕ :=
  messages.foldl (fun framed message => framed + rangeFrameItemLen message.length) rangeFrameHeaderLen

theorem framedBytes_append (messages : List Bytes) (message : Bytes) :
    framedBytes (messages ++ [message]) = framedBytes messages + rangeFrameItemLen message.length := by
  rw [framedBytes, List.foldl_append]
  rfl

theorem framedBytes_eq_length {messages : List Bytes} {body : Bytes}
    (h : frameRange messages = .ok body) :
    body.length = framedBytes messages := by
  obtain ⟨-, -, rfl⟩ := frameRange_eq_ok.mp h
  rw [List.length_append, length_rangeHeader]
  clear h
  induction messages using List.reverseRecOn with
  | nil => rfl
  | append_singleton messages message ih =>
    rw [framedBytes_append, ← ih, List.flatMap_append, List.length_append, List.flatMap_singleton,
      length_frameItem,
      rangeFrameItemLen, Nat.add_assoc]

theorem checkedAddUsize_eq_some {a b c : ℕ} :
    checkedAddUsize a b = some c ↔ a + b = c ∧ c < 2 ^ 64 := by
  unfold checkedAddUsize
  split_ifs with h
  · rw [Option.some.injEq]
    exact ⟨fun hc => ⟨hc, hc ▸ h⟩, fun hc => hc.1⟩
  · constructor
    · intro hc
      cases hc
    · rintro ⟨hc, hlt⟩
      exact absurd (hc ▸ hlt) h

section
variable [Externals] {archive : FileArchive} {filter : StoredBlockResponseFilter} {cap : ℕ}

/-- The loop stays within the cap, or ends with one block, and stops early only where the next
block does not fit. -/
theorem rangeMessages_cap {offsets height : ℕ} {messages out : List Bytes}
    (hin : messages = [] ∨ framedBytes messages ≤ cap)
    (h : rangeMessages archive filter cap offsets height messages (framedBytes messages) = .ok out) :
    (out.length ≤ 1 ∨ framedBytes out ≤ cap) ∧ (out = [] → offsets = 0) ∧
      (out.length = messages.length + offsets ∨ ∀ served,
        archive.readBlockFilteredWithHash (height + (out.length - messages.length)) filter = .ok served →
          cap < framedBytes (out ++ [served.payload])) := by
  induction offsets generalizing height messages with
  | zero =>
    obtain rfl := Except.ok.inj h
    refine ⟨?_, fun _ => rfl, .inl rfl⟩
    rcases hin with rfl | hin
    · exact .inl (by simp)
    · exact .inr hin
  | succ offsets ih =>
    rw [rangeMessages, bind_eq_ok] at h
    obtain ⟨served, hread, h⟩ := h
    rw [bind_eq_ok] at h
    obtain ⟨projected, hprojected, h⟩ := h
    rw [okOr_eq_ok, checkedAddUsize_eq_some, ← framedBytes_append] at hprojected
    obtain ⟨rfl, -⟩ := hprojected
    split_ifs at h with hstop hfirst
    · -- the next block would pass the cap
      obtain rfl := Except.ok.inj h
      refine ⟨hin.imp (fun h => absurd h hstop.1) id, fun h => absurd h hstop.1,
        .inr fun next hnext => ?_⟩
      rw [Nat.sub_self, Nat.add_zero, hread, Except.ok.injEq] at hnext
      exact hnext ▸ hstop.2
    · -- the first block passes the cap by itself
      obtain rfl := Except.ok.inj h
      obtain rfl : messages = [] := by
        by_contra hne
        exact hstop ⟨hne, hfirst⟩
      refine ⟨.inl (by simp), fun h => by simp at h, .inr fun next _ => ?_⟩
      rw [framedBytes_append]
      omega
    · obtain ⟨hcap, hne, hnext⟩ := ih (.inr (not_lt.mp hfirst)) h
      obtain ⟨added, rfl, -, -⟩ := rangeMessages_spec h
      refine ⟨hcap, fun h => by simp at h, ?_⟩
      simp only [List.length_append, List.length_singleton] at hnext ⊢
      refine hnext.imp (fun h => by omega) fun hnext next hread' => hnext next ?_
      rwa [show height + 1 + (messages.length + 1 + added.length - (messages.length + 1)) =
        height + (messages.length + 1 + added.length - messages.length) by omega]

/-- Payload lengths of the responses, zero where there is none. -/
def FileArchive.payloadLen (archive : FileArchive) (filter : StoredBlockResponseFilter) (height : ℕ) : ℕ :=
  match archive.readBlockFilteredWithHash height filter with
  | .ok served => served.payload.length
  | .error _ => 0

/-- The loop ends with some messages when every block can be read and their frame has a length. -/
theorem rangeMessages_total {offsets height : ℕ} {messages : List Bytes}
    (hread : ∀ j < offsets, ∃ served, archive.readBlockFilteredWithHash (height + j) filter = .ok served)
    (hsize : framedBytes messages +
      ∑ j ∈ Finset.range offsets, rangeFrameItemLen (archive.payloadLen filter (height + j)) < 2 ^ 64) :
    ∃ out, rangeMessages archive filter cap offsets height messages (framedBytes messages) = .ok out := by
  induction offsets generalizing height messages with
  | zero => exact ⟨messages, rfl⟩
  | succ offsets ih =>
    obtain ⟨served, hserved⟩ := hread 0 (by omega)
    rw [Nat.add_zero] at hserved
    have hlen : archive.payloadLen filter height = served.payload.length := by
      rw [FileArchive.payloadLen, hserved]
    rw [Finset.sum_range_succ', Nat.add_zero, hlen, ← Nat.add_assoc] at hsize
    have hprojected : checkedAddUsize (framedBytes messages) (rangeFrameItemLen served.payload.length) =
        some (framedBytes (messages ++ [served.payload])) :=
      checkedAddUsize_eq_some.mpr ⟨(framedBytes_append _ _).symm, by rw [framedBytes_append]; omega⟩
    rw [rangeMessages, hserved, ok_bind, hprojected, okOr_some, ok_bind]
    split_ifs with hstop hfirst
    · exact ⟨_, rfl⟩
    · exact ⟨_, rfl⟩
    · refine ih (fun j hj => ?_) ?_
      · obtain ⟨next, hnext⟩ := hread (j + 1) (by omega)
        exact ⟨next, by rwa [show height + 1 + j = height + (j + 1) by omega]⟩
      · rw [framedBytes_append]
        simp only [Nat.add_assoc, Nat.add_comm 1] at hsize ⊢
        omega

/-! ## One page -/

variable {state : AppState} {q : SyncRangeQuery} {accept : Option (List Char)} {tip : ChainTip}

/-- The cap of a request. -/
def SyncRangeQuery.byteCap (q : SyncRangeQuery) (state : AppState) : ℕ := q.maxBytes.getD state.maxResponseBytes

/-- A page of consecutive blocks from the start of the request, within the cap, that ends where
the request ends or where the next block does not fit. What is sent is the frame of these blocks, or
their JSON. -/
structure RangePage (state : AppState) (q : SyncRangeQuery) (tip : ChainTip) (format : ResponseFormat)
    (filter : StoredBlockResponseFilter) (r : RangeResponse) : Prop where
  start : r.start = q.start
  start_le : r.start ≤ r.last
  requestedEnd : r.requestedEnd = min (q.start + (q.requestedCount state.maxRangeCount).toNat - 1) tip.height
  last_le : r.last ≤ r.requestedEnd
  length : r.messages.length = r.last + 1 - r.start
  blocks : ∀ j m, r.messages[j]? = some m →
    ∃ served, state.archive.readBlockFilteredWithHash (r.start + j) filter = .ok served ∧ served.payload = m
  body : rangeBody format r.start r.last r.requestedEnd r.count.toNat r.complete r.nextStart r.messages =
    .ok r.body
  framed : format = .capnp → r.body.length = framedBytes r.messages
  cap : framedBytes r.messages ≤ q.byteCap state ∨ r.messages.length = 1
  stops : r.last = r.requestedEnd ∧ r.complete = true ∧ r.nextStart = none ∨
    r.last < r.requestedEnd ∧ r.complete = false ∧ r.nextStart = some (r.last + 1) ∧
      ∀ served, state.archive.readBlockFilteredWithHash (r.last + 1) filter = .ok served →
        q.byteCap state < framedBytes (r.messages ++ [served.payload])

omit [Externals] in
theorem clampedCount_spec (hcount : q.requestedCount state.maxRangeCount ≠ 0)
    (hstart : q.start ≤ tip.height) :
    0 < q.clampedCount state.maxRangeCount tip ∧ q.start + q.clampedCount state.maxRangeCount tip - 1 =
      min (q.start + (q.requestedCount state.maxRangeCount).toNat - 1) tip.height := by
  have hpos : 0 < (q.requestedCount state.maxRangeCount).toNat :=
    Nat.pos_of_ne_zero fun h0 => hcount (UInt32.toNat_inj.mp h0)
  have hlt := (q.requestedCount state.maxRangeCount).toNat_lt
  rw [SyncRangeQuery.clampedCount, U32_MAX]
  omega

theorem rangePage_of_answered {format : ResponseFormat} {manifest : Manifest}
    {cutthroughTip : Option ℕ}
    {r : RangeResponse} (ha : RangeAccepted state q accept format)
    (hr : RangeAnswered state q format tip manifest cutthroughTip r) :
    RangePage state q tip format (q.responseFilter cutthroughTip) r := by
  obtain ⟨hpos, hend⟩ := @clampedCount_spec state q tip ha.count_ne hr.start_le
  obtain ⟨hcap, hne, hnext⟩ := rangeMessages_cap (.inl rfl) hr.loop
  obtain ⟨added, hadded, hlen, hblocks⟩ := rangeMessages_spec hr.loop
  rw [List.nil_append] at hadded
  subst hadded
  rw [List.length_nil, Nat.zero_add, Nat.sub_zero] at hnext
  have hprogress : 0 < r.messages.length := List.length_pos_of_ne_nil hr.progress
  have hlast : r.last = q.start + r.messages.length - 1 := by rw [hr.last, hr.count]
  refine ⟨hr.start, ?_, hr.requestedEnd.trans hend, ?_, ?_, ?_, hr.start ▸ hr.body, ?_, ?_, ?_⟩
  · rw [hr.start]
    omega
  · rw [hr.requestedEnd]
    omega
  · rw [hr.start]
    omega
  · rw [hr.start]
    exact hblocks
  · intro hformat
    have hbody := hr.body
    rw [hformat, rangeBody] at hbody
    exact framedBytes_eq_length hbody
  · exact hcap.symm.imp id fun h => by omega
  · by_cases hdone : r.requestedEnd ≤ r.last
    · have hcomplete : r.complete = true := by rw [hr.complete, decide_eq_true hdone]
      refine .inl ⟨?_, hcomplete, by rw [hr.nextStart, if_pos hcomplete]⟩
      rw [hr.requestedEnd] at hdone ⊢
      omega
    · have hcomplete : r.complete = false := by rw [hr.complete, decide_eq_false hdone]
      refine .inr ⟨not_le.mp hdone, hcomplete, by rw [hr.nextStart, hcomplete]; rfl,
        fun served hserved => ?_⟩
      rw [hr.requestedEnd] at hdone
      refine (hnext.resolve_left (by omega)) served ?_
      rwa [show q.start + r.messages.length = r.last + 1 by omega]

/-! ## Requests that are answered -/

/-- A payload that the body of a range can carry. -/
def Carried (format : ResponseFormat) (payload : Bytes) : Prop :=
  match format with
  | .capnp => payload.length ≤ U32_MAX
  | .json => ∃ fields, lightBlockToJson 2 payload = .ok fields

/-- A request that the handler admits, over blocks that can be read and carried. -/
structure RangeAdmitted (state : AppState) (q : SyncRangeQuery)
    (accept : Option (List Char)) (tip : ChainTip)
    (format : ResponseFormat) (cutthroughTip : Option ℕ) : Prop where
  accepted : RangeAccepted state q accept format
  start_le : q.start ≤ tip.height
  resolved : resolveCutthroughTip q.boundary q.cutthroughTip tip = .ok cutthroughTip
  covers : ∀ height,
    cutthroughTip = some height → q.start + q.clampedCount state.maxRangeCount tip - 1 ≤ height
  readable : ∀ j < q.clampedCount state.maxRangeCount tip, ∃ served,
    state.archive.readBlockFilteredWithHash (q.start + j) (q.responseFilter cutthroughTip) = .ok served ∧
      Carried format served.payload
  size : rangeFrameHeaderLen + ∑ j ∈ Finset.range (q.clampedCount state.maxRangeCount tip),
    rangeFrameItemLen
    (state.archive.payloadLen (q.responseFilter cutthroughTip) (q.start + j)) < 2 ^ 64

theorem rangeBody_isOk {format : ResponseFormat} {messages : List Bytes}
    (hlen : messages.length ≤ U32_MAX)
    (hcarried : ∀ m ∈ messages, Carried format m) (start last requestedEnd count : ℕ)
    (complete : Bool)
    (nextStart : Option ℕ) :
    ∃ body, rangeBody format start last requestedEnd count complete nextStart messages = .ok body := by
  cases format with
  | capnp => exact ⟨_, frameRange_eq_ok.mpr ⟨hlen, hcarried, rfl⟩⟩
  | json =>
    have hblocks : ∃ blocks, (messages.mapM fun payload => do
        return jsonValue 2 (← lightBlockToJson 2 payload)) = .ok blocks := by
      apply mapM_isOk
      intro payload hm
      obtain ⟨fields, hfields⟩ := hcarried payload hm
      exact ⟨_, by rw [hfields, ok_bind]; rfl⟩
    obtain ⟨blocks, hblocks⟩ := hblocks
    exact ⟨_, by rw [rangeBody, hblocks, ok_bind]; rfl⟩

/-- The response with these messages and this body. -/
def SyncRangeQuery.responseFor (q : SyncRangeQuery) (state : AppState) (tip : ChainTip) (manifest : Manifest)
    (messages : List Bytes) (body : Bytes) : RangeResponse :=
  let requestedEnd := q.start + q.clampedCount state.maxRangeCount tip - 1
  let last := q.start + (UInt32.ofNat messages.length).toNat - 1
  let complete := decide (requestedEnd ≤ last)
  { messages, body, start := q.start, last, requestedEnd, count := UInt32.ofNat messages.length, complete
    nextStart := if complete then none else some (last + 1)
    cacheControl := filteredCacheControl manifest tip last q.boundary q.cutthroughTip }

theorem RangeAdmitted.answered {format : ResponseFormat} {cutthroughTip : Option ℕ}
    {manifest : Manifest}
    (h : RangeAdmitted state q accept tip format cutthroughTip) (htip : state.archive.tip = some tip)
    (hmanifest : state.archive.readManifest = .ok manifest) :
    ∃ r, blockRange state q accept = .ok r := by
  obtain ⟨hpos, -⟩ := @clampedCount_spec state q tip h.accepted.count_ne h.start_le
  have hsmall : q.clampedCount state.maxRangeCount tip ≤ U32_MAX := by
    rw [SyncRangeQuery.clampedCount]
    omega
  obtain ⟨messages, hloop⟩ := @rangeMessages_total _ state.archive (q.responseFilter cutthroughTip)
    (q.byteCap state) (q.clampedCount state.maxRangeCount tip) q.start []
    (fun j hj => (h.readable j hj).imp fun _ hserved => hserved.1) h.size
  obtain ⟨-, hne, -⟩ := rangeMessages_cap (.inl rfl) hloop
  obtain ⟨added, hadded, hlen, hblocks⟩ := rangeMessages_spec hloop
  rw [List.nil_append] at hadded
  subst hadded
  have hcarried : ∀ m ∈ messages, Carried format m := by
    intro m hm
    obtain ⟨j, hj⟩ := List.mem_iff_getElem?.mp hm
    obtain ⟨served, hserved, rfl⟩ := hblocks j m hj
    obtain ⟨served', hserved', hcarried⟩ := h.readable j (by
      have := (List.getElem?_eq_some_iff.mp hj).1
      omega)
    rw [hserved, Except.ok.injEq] at hserved'
    exact hserved' ▸ hcarried
  have hcount : (UInt32.ofNat messages.length).toNat = messages.length :=
    UInt32.toNat_ofNat_of_lt' (lt_of_le_of_lt (hlen.trans hsmall) (by decide))
  obtain ⟨body, hbody⟩ := rangeBody_isOk (hlen.trans hsmall) hcarried q.start
    (q.responseFor state tip manifest messages []).last
    (q.responseFor state tip manifest messages []).requestedEnd
    (UInt32.ofNat messages.length).toNat (q.responseFor state tip manifest messages []).complete
    (q.responseFor state tip manifest messages []).nextStart
  refine ⟨q.responseFor state tip manifest messages body, blockRange_eq_ok.mpr
    ⟨format, tip, manifest, cutthroughTip, h.accepted, ?_⟩⟩
  exact
    { tip_eq := htip
      manifest_eq := hmanifest
      start_le := h.start_le
      resolved := h.resolved
      covers := h.covers
      loop := hloop
      progress := fun h0 => absurd (hne h0) (by omega)
      count := hcount
      start := rfl
      requestedEnd := rfl
      last := rfl
      complete := rfl
      nextStart := rfl
      cache := rfl
      body := hbody }

/-! ## Page after page -/

def RangeResponse.heights (r : RangeResponse) : List ℕ := List.range' r.start (r.last + 1 - r.start)

/-- The pages of a client that follows `next_start` until a page is complete, on an archive that
does not change. The request for a height is `ask` of it. -/
inductive Pages (state : AppState) (ask : ℕ → SyncRangeQuery) (accept : Option (List Char)) :
    ℕ → List RangeResponse → Prop
  | complete {start : ℕ} {r : RangeResponse} (answered : blockRange state (ask start) accept = .ok r)
      (done : r.nextStart = none) : Pages state ask accept start [r]
  | next {start next : ℕ} {r : RangeResponse} {rest : List RangeResponse}
      (answered : blockRange state (ask start) accept = .ok r) (more : r.nextStart = some next)
      (rest_pages : Pages state ask accept next rest) : Pages state ask accept start (r :: rest)

theorem rangePage_of_ok (htip : state.archive.tip = some tip) {r : RangeResponse}
    (h : blockRange state q accept = .ok r) :
    ∃ format cutthroughTip, responseFormat accept = .ok format ∧
      resolveCutthroughTip q.boundary q.cutthroughTip tip = .ok cutthroughTip ∧
      RangePage state q tip format (q.responseFilter cutthroughTip) r := by
  obtain ⟨format, tip', manifest, cutthroughTip, ha, hr⟩ := blockRange_eq_ok.mp h
  obtain rfl : tip = tip' := Option.some.inj (htip.symm.trans hr.tip_eq)
  exact ⟨format, cutthroughTip, ha.format_eq, hr.resolved, rangePage_of_answered ha hr⟩

/-- The pages show every height up to the end of the last request once, in order. -/
theorem Pages.heights (htip : state.archive.tip = some tip) {ask : ℕ → SyncRangeQuery}
    (hask : ∀ n, (ask n).start = n) {start : ℕ} {pages : List RangeResponse} (h : Pages state ask accept start pages) :
    ∃ last, pages.getLast? = some last ∧ last.complete = true ∧ start ≤ last.requestedEnd ∧
      pages.flatMap RangeResponse.heights = List.range' start (last.requestedEnd + 1 - start) := by
  induction h with
  | @complete start r answered done =>
    obtain ⟨format, cut, -, -, hpage⟩ := rangePage_of_ok htip answered
    have hstart := hpage.start
    have hle := hpage.start_le
    rw [hask] at hstart
    rcases hpage.stops with ⟨hlast, hcomplete, -⟩ | ⟨-, -, hnext, -⟩
    · refine ⟨r, rfl, hcomplete, by omega, ?_⟩
      rw [List.flatMap_singleton, RangeResponse.heights, hlast, hstart]
    · rw [done] at hnext
      cases hnext
  | @next start next r rest answered more _ ih =>
    obtain ⟨format, cut, -, -, hpage⟩ := rangePage_of_ok htip answered
    have hstart := hpage.start
    have hle := hpage.start_le
    rw [hask] at hstart
    obtain ⟨last, hlast, hcomplete, hnextLe, hheights⟩ := ih
    rcases hpage.stops with ⟨-, -, hnone⟩ | ⟨-, -, hnext, -⟩
    · rw [more] at hnone
      cases hnone
    · rw [more, Option.some.injEq] at hnext
      subst hnext
      refine ⟨last, by rw [List.getLast?_cons, hlast]; rfl, hcomplete, by omega, ?_⟩
      rw [List.flatMap_cons, hheights, RangeResponse.heights, hstart]
      have happend := List.range'_append_1 (s := start) (m := r.last + 1 - start)
        (n := last.requestedEnd + 1 - (r.last + 1))
      rw [show start + (r.last + 1 - start) = r.last + 1 by omega] at happend
      rw [happend]
      congr 1
      omega

end

section
attribute [local instance] sampleExternals

end

end BitcoinData
