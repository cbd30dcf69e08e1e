import BitcoinData.Spec.Range

/-! The range frame as a header and a list of length-prefixed items: what the writer
writes and what the parser accepts, item by item. -/

namespace BitcoinData

open Lib

/-! ## Little-endian integers -/

theorem u16FromLeBytes_toNat (lo hi : UInt8) :
    (u16FromLeBytes lo hi).toNat = lo.toNat + 256 * hi.toNat := by
  have hlo := lo.toNat_lt
  have hhi := hi.toNat_lt
  have h8 : (8 : UInt16).toNat % 16 = 8 := rfl
  have hor := Nat.two_pow_add_eq_or_of_lt hlo hi.toNat
  rw [u16FromLeBytes, UInt16.toNat_or, UInt16.toNat_shiftLeft, UInt8.toNat_toUInt16,
    UInt8.toNat_toUInt16, h8,
    Nat.shiftLeft_eq, Nat.mod_eq_of_lt (by omega), Nat.or_comm, Nat.mul_comm, ← hor]
  omega

theorem u16ToLeBytes_fromLeBytes (lo hi : UInt8) :
    u16ToLeBytes (u16FromLeBytes lo hi) = [lo, hi] := by
  have hlo := lo.toNat_lt
  have hhi := hi.toNat_lt
  have h8 : (8 : UInt16).toNat % 16 = 8 := rfl
  rw [u16ToLeBytes]
  congr 1
  · apply UInt8.toNat_inj.mp
    rw [UInt16.toNat_toUInt8, u16FromLeBytes_toNat]
    omega
  · congr 1
    apply UInt8.toNat_inj.mp
    rw [UInt16.toNat_toUInt8, UInt16.toNat_shiftRight, h8, Nat.shiftRight_eq_div_pow,
      u16FromLeBytes_toNat]
    omega

theorem u32ToLeBytes_toNat (v : UInt32) :
    ∃ b₀ b₁ b₂ b₃, u32ToLeBytes v = [b₀, b₁, b₂, b₃] ∧ u32FromLeBytes b₀ b₁ b₂ b₃ = v := by
  have hv := v.toNat_lt
  have h8 : (8 : UInt32).toNat % 32 = 8 := rfl
  have h16 : (16 : UInt32).toNat % 32 = 16 := rfl
  have h24 : (24 : UInt32).toNat % 32 = 24 := rfl
  refine ⟨_, _, _, _, rfl, ?_⟩
  apply UInt32.toNat_inj.mp
  rw [u32FromLeBytes, UInt32.toNat_ofNat', UInt32.toNat_toUInt8, UInt32.toNat_toUInt8,
    UInt32.toNat_toUInt8,
    UInt32.toNat_toUInt8, UInt32.toNat_shiftRight, UInt32.toNat_shiftRight, UInt32.toNat_shiftRight,
      h8, h16, h24,
    Nat.shiftRight_eq_div_pow, Nat.shiftRight_eq_div_pow, Nat.shiftRight_eq_div_pow]
  omega

theorem u32ToLeBytes_fromLeBytes (b₀ b₁ b₂ b₃ : UInt8) :
    u32ToLeBytes (u32FromLeBytes b₀ b₁ b₂ b₃) = [b₀, b₁, b₂, b₃] := by
  have h₀ := b₀.toNat_lt
  have h₁ := b₁.toNat_lt
  have h₂ := b₂.toNat_lt
  have h₃ := b₃.toNat_lt
  have h8 : (8 : UInt32).toNat % 32 = 8 := rfl
  have h16 : (16 : UInt32).toNat % 32 = 16 := rfl
  have h24 : (24 : UInt32).toNat % 32 = 24 := rfl
  have hv : (u32FromLeBytes b₀ b₁ b₂ b₃).toNat =
      b₀.toNat + 256 * (b₁.toNat + 256 * (b₂.toNat + 256 * b₃.toNat)) := by
    rw [u32FromLeBytes, UInt32.toNat_ofNat', Nat.mod_eq_of_lt (by omega)]
  rw [u32ToLeBytes]
  simp only [List.cons.injEq, and_true, ← UInt8.toNat_inj, UInt32.toNat_toUInt8,
    UInt32.toNat_shiftRight, h8, h16,
    h24, Nat.shiftRight_eq_div_pow, hv]
  omega

@[simp] theorem length_u32ToLeBytes (v : UInt32) : (u32ToLeBytes v).length = 4 := rfl

theorem readU16Le_eq_ok {bytes : Bytes} {v : UInt16} {label : String}
    (h : readU16Le bytes label = .ok v) :
    bytes = u16ToLeBytes v := by
  simp only [readU16Le, bind_eq_ok, ensure_eq_ok, pure_eq_ok, Except.ok.injEq] at h
  obtain ⟨-, hlen, rfl⟩ := h
  obtain ⟨lo, hi, rfl⟩ := List.length_eq_two.mp hlen
  exact (u16ToLeBytes_fromLeBytes lo hi).symm

theorem readU32Le_toLeBytes (v : UInt32) (label : String) :
    readU32Le (u32ToLeBytes v) label = .ok v := by
  obtain ⟨b₀, b₁, b₂, b₃, hb, hv⟩ := u32ToLeBytes_toNat v
  rw [hb, ← hv]
  rfl

theorem readU32Le_eq_ok {bytes : Bytes} {v : UInt32} {label : String}
    (h : readU32Le bytes label = .ok v) :
    bytes = u32ToLeBytes v := by
  simp only [readU32Le, bind_eq_ok, ensure_eq_ok, pure_eq_ok, Except.ok.injEq] at h
  obtain ⟨-, hlen, rfl⟩ := h
  obtain ⟨b₀, rest, rfl⟩ := List.exists_cons_of_length_eq_add_one hlen
  obtain ⟨b₁, b₂, b₃, rfl⟩ := List.length_eq_three.mp (Nat.succ.inj hlen)
  exact (u32ToLeBytes_fromLeBytes b₀ b₁ b₂ b₃).symm

/-! ## Faults -/

@[simp] theorem orFail_eq_ok {α : Type} {x : Except String α} {a : α} :
    orFail x = .ok a ↔ x = .ok a := by
  cases x <;> simp [orFail]

theorem sliceRange_of {bytes : Bytes} {start stop : ℕ} (h : start ≤ stop ∧ stop ≤ bytes.length) :
    sliceRange bytes start stop = .ok ((bytes.drop start).take (stop - start)) := if_pos h

/-- A computation that ends with a value or with an error that it reports. -/
def Reported {α : Type} (x : Except RangeFault α) : Prop :=
  ∀ fault, x = .error fault → ∃ message, fault = .failed message

theorem reported_ok {α : Type} (a : α) : Reported (.ok a) := by
  intro fault h
  cases h

theorem reported_orFail {α : Type} (x : Except String α) : Reported (orFail x) := by
  intro fault h
  cases x with
  | ok a => cases h
  | error message => exact ⟨message, (Except.error.inj h).symm⟩

theorem Reported.bind {α β : Type} {x : Except RangeFault α} {f : α → Except RangeFault β}
    (hx : Reported x) (hf : ∀ a, x = .ok a → Reported (f a)) : Reported (x >>= f) := by
  cases x with
  | ok a => exact hf a rfl
  | error e =>
    rw [error_bind]
    intro fault hfault
    exact hx fault (Except.error.inj hfault ▸ rfl)

theorem reported_slice {bytes : Bytes} {start stop : ℕ} (h : start ≤ stop ∧ stop ≤ bytes.length) :
    Reported (sliceRange bytes start stop) := by
  rw [sliceRange_of h]
  exact reported_ok _

theorem reserveSlices_of {available capacity : ℕ} (h : capacity * SLICE_SIZE ≤ available) :
    reserveSlices available capacity = .ok () := if_pos h

/-! ## Items -/

/-- A message behind its length. -/
def frameItem (message : Bytes) : Bytes := u32ToLeBytes (UInt32.ofNat message.length) ++ message

@[simp] theorem length_frameItem (message : Bytes) :
    (frameItem message).length = 4 + message.length := by
  rw [frameItem, List.length_append, length_u32ToLeBytes]

theorem reported_parseRangeItems (bytes : Bytes) (count pos : ℕ) :
    Reported (parseRangeItems bytes count pos) := by
  induction count generalizing pos with
  | zero => exact reported_ok _
  | succ count ih =>
    rw [parseRangeItems]
    refine (reported_orFail _).bind fun _ hlen => ?_
    rw [orFail_eq_ok, ensure_eq_ok] at hlen
    refine (reported_slice ⟨by omega, hlen⟩).bind fun _ _ => (reported_orFail _).bind fun len _ => ?_
    refine (reported_orFail _).bind fun _ hbody => ?_
    rw [orFail_eq_ok, ensure_eq_ok] at hbody
    refine (reported_slice ⟨by omega, hbody⟩).bind fun _ _ => (ih _).bind fun _ _ => reported_ok _

/-- The parser has read exactly the items in front of it. -/
theorem parseRangeItems_eq_ok {bytes : Bytes} {count pos pos' : ℕ} {items : List Bytes}
    (hpos : pos ≤ bytes.length)
    (h : parseRangeItems bytes count pos = .ok (items, pos')) :
    items.length = count ∧ (∀ m ∈ items, m.length ≤ U32_MAX) ∧ pos' ≤ bytes.length ∧
      bytes.drop pos = items.flatMap frameItem ++ bytes.drop pos' := by
  induction count generalizing pos items with
  | zero =>
    obtain ⟨rfl, rfl⟩ := Prod.mk.inj (Except.ok.inj h)
    exact ⟨rfl, by simp, hpos, rfl⟩
  | succ count ih =>
    simp only [parseRangeItems, bind_eq_ok, orFail_eq_ok, ensure_eq_ok, pure_eq_ok,
      Except.ok.injEq] at h
    obtain ⟨-, hlen, prefixed, hprefixed, len, hread, -, hbody, item, hitem, ⟨rest, pos₁⟩, hrest,
      hout⟩ := h
    obtain ⟨rfl, rfl⟩ := Prod.mk.inj hout
    rw [sliceRange_of ⟨by omega, hlen⟩, Except.ok.injEq, Nat.add_sub_cancel_left] at hprefixed
    rw [sliceRange_of ⟨by omega, hbody⟩, Except.ok.injEq, Nat.add_sub_cancel_left] at hitem
    obtain ⟨hcount, hlens, hpos', hdrop⟩ := ih hbody hrest
    have hitemLen : item.length = len.toNat := by
      rw [← hitem, List.length_take, List.length_drop]
      omega
    have hframe : frameItem item = prefixed ++ item := by
      rw [frameItem, hitemLen, UInt32.ofNat_toNat, ← readU32Le_eq_ok hread]
    refine ⟨by rw [List.length_cons, hcount], ?_, hpos', ?_⟩
    · intro m hm
      rcases List.mem_cons.mp hm with rfl | hm
      · have := len.toNat_lt
        rw [hitemLen, U32_MAX]
        omega
      · exact hlens m hm
    · rw [List.flatMap_cons, hframe, List.append_assoc, List.append_assoc, ← hdrop, ← hprefixed,
        ← hitem,
        ← @List.drop_drop _ len.toNat (pos + 4) bytes, List.take_append_drop, ← @List.drop_drop _ 4 pos bytes,
        List.take_append_drop]

theorem parseRangeItems_of_items {bytes rest : Bytes} {items : List Bytes} {pos : ℕ}
    (hlens : ∀ m ∈ items, m.length ≤ U32_MAX) (hpos : pos ≤ bytes.length)
    (h : bytes.drop pos = items.flatMap frameItem ++ rest) :
    parseRangeItems bytes items.length pos = .ok (items, bytes.length - rest.length) := by
  induction items generalizing pos with
  | nil =>
    have hlen := congrArg List.length h
    rw [List.flatMap_nil, List.nil_append, List.length_drop] at hlen
    rw [List.length_nil, parseRangeItems, show bytes.length - rest.length = pos by omega]
  | cons item items ih =>
    have hitem := hlens item List.mem_cons_self
    have hlen := congrArg List.length h
    rw [List.flatMap_cons, List.append_assoc, List.length_append, length_frameItem,
      List.length_drop] at hlen
    rw [List.flatMap_cons, frameItem, List.append_assoc, List.append_assoc] at h
    have htoNat : (UInt32.ofNat item.length).toNat = item.length :=
      UInt32.toNat_ofNat_of_lt' (lt_of_le_of_lt hitem (by decide))
    have hbody : bytes.drop (pos + 4) = item ++ (items.flatMap frameItem ++ rest) := by
      rw [← List.drop_drop, h]
      rfl
    have hnext : bytes.drop (pos + 4 + item.length) = items.flatMap frameItem ++ rest := by
      rw [← List.drop_drop, hbody]
      exact List.drop_left
    have hrest := ih (fun m hm => hlens m (List.mem_cons_of_mem _ hm)) (by omega) hnext
    have hslice : (bytes.drop pos).take 4 = u32ToLeBytes (UInt32.ofNat item.length) := by
      rw [h]
      rfl
    have hslice' : (bytes.drop (pos + 4)).take item.length = item := by
      rw [hbody]
      exact List.take_left
    rw [List.length_cons, parseRangeItems, ensure_of (by omega), sliceRange_of ⟨by omega, by omega⟩,
      Nat.add_sub_cancel_left, hslice]
    simp only [orFail, ok_bind, readU32Le_toLeBytes, htoNat]
    rw [ensure_of (by omega), sliceRange_of ⟨by omega, by omega⟩, Nat.add_sub_cancel_left, hslice']
    simp only [ok_bind, hrest, pure_eq_ok]

/-! ## Frames -/

/-- The first ten bytes of a frame of `count` items. -/
def rangeHeader (count : ℕ) : Bytes := RANGE_MAGIC ++ u16ToLeBytes RANGE_VERSION ++ u32ToLeBytes (UInt32.ofNat count)

@[simp] theorem length_rangeHeader (count : ℕ) : (rangeHeader count).length = 10 := rfl

theorem frameItems_eq_ok {messages : List Bytes} (hlens : ∀ m ∈ messages, m.length ≤ U32_MAX) :
    (messages.mapM fun message => do
      let len ← tryU32 message.length
      return u32ToLeBytes len ++ message) = .ok (messages.map frameItem) := by
  apply mapM_eq_map
  intro message hm
  have htry : tryU32 message.length = .ok (UInt32.ofNat message.length) :=
    tryU32_eq_ok.mpr (UInt32.toNat_ofNat_of_lt' (lt_of_le_of_lt (hlens message hm) (by decide)))
  rw [htry, ok_bind]
  rfl

theorem frameRange_eq_ok {messages : List Bytes} {bytes : Bytes} :
    frameRange messages = .ok bytes ↔ messages.length ≤ U32_MAX ∧ (∀ m ∈ messages,
      m.length ≤ U32_MAX) ∧
      bytes = rangeHeader messages.length ++ messages.flatMap frameItem := by
  constructor
  · intro h
    simp only [frameRange, bind_eq_ok, pure_eq_ok, Except.ok.injEq] at h
    obtain ⟨count, hcount, items, hitems, rfl⟩ := h
    have hlens : ∀ m ∈ messages, m.length ≤ U32_MAX := by
      intro m hm
      obtain ⟨item, hitem⟩ := ok_of_mem_mapM hitems hm
      simp only [bind_eq_ok, tryU32_eq_ok] at hitem
      obtain ⟨len, hlen, -⟩ := hitem
      have := len.toNat_lt
      rw [← hlen, U32_MAX]
      omega
    replace hitems := Except.ok.inj ((frameItems_eq_ok hlens).symm.trans hitems)
    rw [tryU32_eq_ok] at hcount
    refine ⟨?_, hlens, ?_⟩
    · have := count.toNat_lt
      rw [← hcount, U32_MAX]
      omega
    · rw [rangeHeader, ← hcount, UInt32.ofNat_toNat, ← hitems, List.flatMap_def]
  · rintro ⟨hcount, hlens, hbytes⟩
    have htry : tryU32 messages.length = .ok (UInt32.ofNat messages.length) :=
      tryU32_eq_ok.mpr (UInt32.toNat_ofNat_of_lt' (lt_of_le_of_lt hcount (by decide)))
    rw [frameRange, htry, ok_bind, frameItems_eq_ok hlens, ok_bind, hbytes, List.flatMap_def]
    rfl

theorem parseRange_cases (available : ℕ) (bytes : Bytes) :
    (∃ message, parseRange available bytes = .error (.failed message)) ∨
      ∃ (count : UInt32) (rest : Bytes), bytes = rangeHeader count.toNat ++ rest := by
  unfold parseRange
  by_cases hlen : bytes.length ≥ 10
  swap
  · exact .inl ⟨_, by rw [ensure, if_neg hlen]; rfl⟩
  rw [ensure_of hlen, sliceRange_of ⟨by omega, by omega⟩, sliceRange_of ⟨by omega, by omega⟩,
    sliceRange_of ⟨by omega, by omega⟩]
  simp only [orFail, ok_bind]
  by_cases hmagic : (bytes.drop 0).take (4 - 0) = RANGE_MAGIC
  swap
  · exact .inl ⟨_, by rw [ensure, if_neg hmagic]; rfl⟩
  rw [ensure_of hmagic]
  cases hversion : readU16Le ((bytes.drop 4).take (6 - 4)) "range version" with
  | error message => exact .inl ⟨message, rfl⟩
  | ok version =>
    by_cases heq : version = RANGE_VERSION
    swap
    · exact .inl ⟨_, by simp only [ok_bind, ensure, if_neg heq]; rfl⟩
    cases hcount : readU32Le ((bytes.drop 6).take (10 - 6)) "range item count" with
    | error message => exact .inl ⟨message, by simp only [ok_bind, ensure_of heq]; rfl⟩
    | ok count =>
      refine .inr ⟨count, bytes.drop 10, ?_⟩
      have hbytes : bytes = (bytes.drop 0).take 4 ++ (bytes.drop 4).take 2 ++ (bytes.drop 6).take 4 ++
          bytes.drop 10 := by
        rw [List.append_assoc, ← @List.drop_drop _ 4 6 bytes, List.take_append_drop, List.append_assoc,
          ← @List.drop_drop _ 2 4 bytes, List.take_append_drop, List.drop_zero, List.take_append_drop]
      rw [rangeHeader, UInt32.ofNat_toNat, ← readU32Le_eq_ok hcount, ← heq, ← readU16Le_eq_ok hversion,
        ← hmagic]
      exact hbytes

/-- Behind a header the parser reserves room for the items, then reads them. -/
theorem parseRange_header (available : ℕ) (count : UInt32) (rest : Bytes) :
    parseRange available (rangeHeader count.toNat ++ rest) = reserveSlices available count.toNat >>= fun _ =>
      parseRangeItems (rangeHeader count.toNat ++ rest) count.toNat 10 >>= fun p =>
        orFail (ensure (p.2 = (rangeHeader count.toNat ++ rest).length) "trailing bytes after range frame") >>=
          fun _ => .ok p.1 := by
  have hlen : (rangeHeader count.toNat ++ rest).length = 10 + rest.length := by
    rw [List.length_append, length_rangeHeader]
  have hread : ((rangeHeader count.toNat ++ rest).drop 6).take (10 - 6) = u32ToLeBytes count := by
    rw [rangeHeader, UInt32.ofNat_toNat]
    rfl
  have hv : readU16Le (u16ToLeBytes RANGE_VERSION) "range version" = .ok RANGE_VERSION := by decide
  rw [parseRange, ensure_of (by omega), sliceRange_of ⟨by omega, by omega⟩,
    sliceRange_of ⟨by omega, by omega⟩, sliceRange_of ⟨by omega, by omega⟩, hread,
    show ((rangeHeader count.toNat ++ rest).drop 0).take (4 - 0) = RANGE_MAGIC from rfl,
    show ((rangeHeader count.toNat ++ rest).drop 4).take (6 - 4) = u16ToLeBytes RANGE_VERSION from rfl]
  simp only [orFail, ok_bind, hv, ensure_of, readU32Le_toLeBytes]
  rfl

theorem parseRange_eq_ok {available : ℕ} {messages : List Bytes} {bytes : Bytes} :
    parseRange available bytes = .ok messages ↔ messages.length * SLICE_SIZE ≤ available ∧
      frameRange messages = .ok bytes := by
  rw [frameRange_eq_ok]
  constructor
  · intro h
    obtain ⟨message, hfail⟩ | ⟨count, rest, rfl⟩ := parseRange_cases available bytes
    · rw [hfail] at h
      cases h
    rw [parseRange_header] at h
    simp only [bind_eq_ok, orFail_eq_ok, ensure_eq_ok, Except.ok.injEq] at h
    obtain ⟨_, hreserve, ⟨out, pos⟩, hitems, -, hend, rfl⟩ := h
    obtain ⟨hout, hlens, -, hdrop⟩ :=
      parseRangeItems_eq_ok (by rw [List.length_append, length_rangeHeader]; omega) hitems
    simp only at hout hlens hdrop hend
    rw [hend, List.drop_length, List.append_nil, List.drop_left' (length_rangeHeader _)] at hdrop
    have hle := count.toNat_lt
    refine ⟨?_, by rw [hout, U32_MAX]; omega, hlens, by rw [hout, ← hdrop]⟩
    by_contra hover
    rw [reserveSlices, ← hout, if_neg hover] at hreserve
    cases hreserve
  · rintro ⟨hroom, hcount, hlens, rfl⟩
    have htoNat : (UInt32.ofNat messages.length).toNat = messages.length :=
      UInt32.toNat_ofNat_of_lt' (lt_of_le_of_lt hcount (by decide))
    have hheader := parseRange_header available (UInt32.ofNat messages.length) (messages.flatMap frameItem)
    rw [htoNat] at hheader
    have hitems := @parseRangeItems_of_items (rangeHeader messages.length ++ messages.flatMap frameItem) []
      messages 10 hlens (by rw [List.length_append, length_rangeHeader]; omega)
      (by rw [List.append_nil, List.drop_left' (length_rangeHeader _)])
    rw [hheader, reserveSlices_of hroom, ok_bind, hitems, ok_bind, List.length_nil, Nat.sub_zero,
      ensure_of rfl]
    rfl

/-- What ends the process: an announced count that the allocator cannot serve. -/
theorem parseRange_aborts {available : ℕ} {bytes : Bytes} :
    (∃ (count : UInt32) (rest : Bytes), bytes = rangeHeader count.toNat ++ rest ∧
      available < count.toNat * SLICE_SIZE) ↔ parseRange available bytes = .error .allocationFailed := by
  constructor
  · rintro ⟨count, rest, rfl, hover⟩
    rw [parseRange_header, reserveSlices, if_neg (not_le.mpr hover)]
    rfl
  · intro h
    obtain ⟨message, hfail⟩ | ⟨count, rest, rfl⟩ := parseRange_cases available bytes
    · rw [hfail] at h
      cases h
    refine ⟨count, rest, rfl, ?_⟩
    by_contra hroom
    rw [parseRange_header, reserveSlices_of (not_lt.mp hroom), ok_bind] at h
    have hreported := ((reported_parseRangeItems (rangeHeader count.toNat ++ rest) count.toNat 10).bind
      fun _ _ => (reported_orFail _).bind fun _ _ => reported_ok _) _ h
    obtain ⟨message, hmessage⟩ := hreported
    cases hmessage

/-- Every other end is a value or a reported error. -/
theorem parseRange_reported {available : ℕ} {bytes : Bytes}
    (h : parseRange available bytes ≠ .error .allocationFailed) : Reported (parseRange available bytes) := by
  obtain ⟨message, hfail⟩ | ⟨count, rest, rfl⟩ := parseRange_cases available bytes
  · rw [hfail]
    intro fault hfault
    exact ⟨message, (Except.error.inj hfault).symm⟩
  · have hroom : ¬ available < count.toNat * SLICE_SIZE := fun hover =>
      h (parseRange_aborts.mp ⟨count, rest, rfl, hover⟩)
    rw [parseRange_header, reserveSlices_of (not_lt.mp hroom), ok_bind]
    exact (reported_parseRangeItems _ _ _).bind fun _ _ => (reported_orFail _).bind fun _ _ => reported_ok _

end BitcoinData
