import BitcoinData.Sanity.EliasDelta
import BitcoinData.Spec.Index

/-! The spent-ID stream: distinct UIDs are encoded, unless `u64::MAX` stands alone, and
decode to the same UIDs in ascending order. -/

namespace BitcoinData

open Lib

theorem uint64_lt_of_le_of_ne {a b : UInt64} (h : a ≤ b) (hne : a ≠ b) : a < b := by
  rw [UInt64.le_iff_toNat_le] at h
  rw [UInt64.lt_iff_toNat_lt]
  have := UInt64.toNat_inj.not.mpr hne
  omega

theorem spentIdValues_spec {prev : Option UInt64} {ids values : List UInt64}
    (h : spentIdValues prev ids = .ok values) : values.length = ids.length ∧ ∀ v ∈ values, v ≠ 0 := by
  induction ids generalizing prev values with
  | nil =>
    rw [spentIdValues, Except.ok.injEq] at h
    rw [← h]
    exact ⟨rfl, by simp⟩
  | cons uid ids ih =>
    obtain ⟨value, rest, hpos, hrest, rfl⟩ : ∃ value rest, value > 0 ∧
        spentIdValues (some uid) ids = .ok rest ∧ value :: rest = values := by
      cases prev with
      | none =>
        simp only [spentIdValues, bind_eq_ok, ensure_eq_ok, pure_eq_ok, Except.ok.injEq] at h
        obtain ⟨value, -, -, hpos, rest, hrest, hv⟩ := h
        exact ⟨value, rest, hpos, hrest, hv⟩
      | some prevUid =>
        simp only [spentIdValues, bind_eq_ok, ensure_eq_ok, pure_eq_ok, Except.ok.injEq] at h
        obtain ⟨value, -, -, hpos, rest, hrest, hv⟩ := h
        exact ⟨value, rest, hpos, hrest, hv⟩
    obtain ⟨hlen, hnz⟩ := ih hrest
    refine ⟨by rw [List.length_cons, hlen, List.length_cons], fun v hv => ?_⟩
    rcases List.mem_cons.mp hv with rfl | hv
    · rintro rfl
      exact absurd hpos (by decide)
    · exact hnz v hv

theorem spentIdValues_some {prev : UInt64} {ids : List UInt64}
    (h : (prev :: ids).Pairwise (· < ·)) :
    ∃ values, spentIdValues (some prev) ids = .ok values ∧
      spentIdsFromDeltas prev values = .ok ids := by
  induction ids generalizing prev with
  | nil => exact ⟨[], rfl, rfl⟩
  | cons uid ids ih =>
    obtain ⟨hlt, htail⟩ := List.pairwise_cons.mp h
    have huid := UInt64.lt_iff_toNat_lt.mp (hlt uid List.mem_cons_self)
    have hsub : (uid - prev).toNat = uid.toNat - prev.toNat :=
      UInt64.toNat_sub_of_le _ _ (UInt64.le_iff_toNat_le.mpr (by omega))
    have hvalue : checkedSub64 uid prev = some (uid - prev) :=
      checkedSub64_eq_some.mpr (by omega)
    have hback : checkedAdd64 prev (uid - prev) = some uid :=
      checkedAdd64_eq_some.mpr (by omega)
    have hpos : uid - prev > 0 := by
      rw [gt_iff_lt, UInt64.lt_iff_toNat_lt, UInt64.toNat_zero]
      omega
    obtain ⟨values, hvalues, hdec⟩ := ih htail
    refine ⟨(uid - prev) :: values, ?_, ?_⟩
    · simp only [spentIdValues]
      rw [hvalue, okOr_some, ok_bind, ensure_of hpos, ok_bind, hvalues, ok_bind]
      rfl
    · simp only [spentIdsFromDeltas]
      rw [hback, okOr_some, ok_bind, hdec, ok_bind]
      rfl

theorem pairwise_of_spentIdValues {prev : UInt64} {ids values : List UInt64}
    (h : spentIdValues (some prev) ids = .ok values) :
    (prev :: ids).Pairwise (· < ·) := by
  induction ids generalizing prev values with
  | nil => exact List.pairwise_singleton _ _
  | cons uid ids ih =>
    simp only [spentIdValues, bind_eq_ok, okOr_eq_ok, ensure_eq_ok, checkedSub64_eq_some,
      pure_eq_ok, Except.ok.injEq] at h
    obtain ⟨value, hvalue, _, hpos, rest, hrest, -⟩ := h
    have hpair := ih hrest
    rw [gt_iff_lt, UInt64.lt_iff_toNat_lt, UInt64.toNat_zero] at hpos
    have hlt : prev < uid := by
      rw [UInt64.lt_iff_toNat_lt]
      omega
    refine List.pairwise_cons.mpr ⟨fun b hb => ?_, hpair⟩
    rcases List.mem_cons.mp hb with rfl | hb
    · exact hlt
    · have := (List.pairwise_cons.mp hpair).1 b hb
      rw [UInt64.lt_iff_toNat_lt] at hlt this ⊢
      omega

theorem pairwise_lt_insertionSort {ids : List UInt64} (hnd : ids.Nodup) :
    (ids.insertionSort (· ≤ ·)).Pairwise (· < ·) := by
  have hle := List.pairwise_insertionSort (· ≤ ·) ids
  have hne : (ids.insertionSort (· ≤ ·)).Nodup := (List.perm_insertionSort _ ids).nodup_iff.mpr hnd
  exact (hle.and hne).imp fun h => uint64_lt_of_le_of_ne h.1 h.2

theorem head_lt_max {ids : List UInt64}
    (hmax : ids ≠ [18446744073709551615]) {uid : UInt64} {rest : List UInt64}
    (hperm : ids.Perm (uid :: rest)) (hsort : (uid :: rest).Pairwise (· < ·)) :
    uid.toNat < U64_MAX := by
  have hlt := uid.toNat_lt
  by_contra hge
  have huid : uid = 18446744073709551615 := by
    apply UInt64.toNat_inj.mp
    rw [U64_MAX] at hge
    simp only [UInt64.reduceToNat]
    omega
  cases rest with
  | nil =>
    rw [huid, List.perm_singleton] at hperm
    exact hmax hperm
  | cons next rest =>
    have hnext := (List.pairwise_cons.mp hsort).1 next List.mem_cons_self
    have := next.toNat_lt
    rw [UInt64.lt_iff_toNat_lt] at hnext
    rw [U64_MAX] at hge
    omega

/-- Distinct UIDs can be encoded, the maximum alone apart, and come back sorted. -/
theorem encodeSpentIds_of_nodup {ids : List UInt64} (hnd : ids.Nodup)
    (hmax : ids ≠ [18446744073709551615]) (hlen : ids.length ≤ U32_MAX) :
    ∃ count bytes, encodeSpentIdsEliasDeltaAscendingAbsolute ids = .ok (count, bytes) ∧
      count.toNat = ids.length ∧ decodeSpentIdsEliasDeltaAscendingAbsolute count bytes =
        .ok (ids.insertionSort (· ≤ ·)) := by
  have hsort := pairwise_lt_insertionSort hnd
  have hperm := (List.perm_insertionSort (· ≤ ·) ids).symm
  have hslen := List.length_insertionSort (· ≤ ·) ids
  unfold encodeSpentIdsEliasDeltaAscendingAbsolute
  generalize ids.insertionSort (· ≤ ·) = sorted at hsort hperm hslen ⊢
  cases sorted with
  | nil => exact ⟨0, [], rfl, by simpa using hslen, rfl⟩
  | cons uid rest =>
    have huid := head_lt_max hmax hperm hsort
    rw [U64_MAX] at huid
    obtain ⟨deltas, hdeltas, hdec⟩ := spentIdValues_some hsort
    have hone : (1 : UInt64).toNat = 1 := rfl
    have hfirst : checkedAdd64 uid 1 = some (uid + 1) := checkedAdd64_eq_some.mpr (by
      rw [UInt64.toNat_add, hone, Nat.mod_eq_of_lt (by omega)])
    have hfirst' := checkedAdd64_eq_some.mp hfirst
    have hback : checkedSub64 (uid + 1) 1 = some uid := checkedSub64_eq_some.mpr (by omega)
    have hpos : uid + 1 > 0 := by
      rw [gt_iff_lt, UInt64.lt_iff_toNat_lt, UInt64.toNat_zero]
      omega
    have hvalues : spentIdValues none (uid :: rest) = .ok ((uid + 1) :: deltas) := by
      simp only [spentIdValues]
      rw [hfirst, okOr_some, ok_bind, ensure_of hpos, ok_bind, hdeltas, ok_bind]
      rfl
    obtain ⟨hdlen, hnz⟩ := spentIdValues_spec hvalues
    obtain ⟨bytes, henc, hdecode⟩ := eliasDelta_roundTrip hnz
    have hcount : tryU32 ((uid + 1) :: deltas).length =
        .ok (UInt32.ofNat ((uid + 1) :: deltas).length) := by
      rw [tryU32_eq_ok]
      apply UInt32.toNat_ofNat_of_lt'
      rw [hdlen, hslen]
      exact lt_of_le_of_lt hlen (by decide)
    refine ⟨UInt32.ofNat ((uid + 1) :: deltas).length, bytes, ?_, ?_, ?_⟩
    · rw [if_neg (List.cons_ne_nil _ _), hvalues, ok_bind, hcount, ok_bind, henc, ok_bind]
      rfl
    · rw [tryU32_eq_ok.mp hcount, hdlen, hslen]
    · unfold decodeSpentIdsEliasDeltaAscendingAbsolute
      have hne : UInt32.ofNat ((uid + 1) :: deltas).length ≠ 0 := by
        intro h0
        have := tryU32_eq_ok.mp hcount
        rw [h0] at this
        simp at this
      rw [if_neg hne, tryU32_eq_ok.mp hcount, hdecode, ok_bind]
      simp only
      rw [hback, okOr_some, ok_bind, hdec, ok_bind]
      rfl

/-- What can be encoded is distinct, is not the maximum alone and has a 32-bit count. -/
theorem nodup_of_encodeSpentIds {ids : List UInt64} {r : UInt32 × Bytes}
    (h : encodeSpentIdsEliasDeltaAscendingAbsolute ids = .ok r) :
    ids.Nodup ∧ ids ≠ [18446744073709551615] ∧ ids.length ≤ U32_MAX := by
  have hmax : ids ≠ [18446744073709551615] := by
    intro h0
    rw [h0] at h
    exact absurd h (by simp [encodeSpentIdsEliasDeltaAscendingAbsolute, spentIdValues, checkedAdd64])
  have hperm := List.perm_insertionSort (· ≤ ·) ids
  rw [← hperm.nodup_iff, ← hperm.length_eq]
  unfold encodeSpentIdsEliasDeltaAscendingAbsolute at h
  generalize ids.insertionSort (· ≤ ·) = sorted at h ⊢
  cases sorted with
  | nil => exact ⟨List.nodup_nil, hmax, by simp⟩
  | cons uid rest =>
    rw [if_neg (List.cons_ne_nil _ _)] at h
    simp only [bind_eq_ok, pure_eq_ok, Except.ok.injEq] at h
    obtain ⟨values, hvalues, count, hcount, bytes, -, rfl⟩ := h
    rw [tryU32_eq_ok, (spentIdValues_spec hvalues).1] at hcount
    simp only [spentIdValues, bind_eq_ok, okOr_eq_ok, pure_eq_ok, Except.ok.injEq] at hvalues
    obtain ⟨value, -, _, -, deltas, hdeltas, -⟩ := hvalues
    have hpair := pairwise_of_spentIdValues hdeltas
    refine ⟨hpair.imp fun h => ?_, hmax, ?_⟩
    · rintro rfl
      exact absurd h (by rw [UInt64.lt_iff_toNat_lt]; omega)
    · have := count.toNat_lt
      rw [U32_MAX]
      omega

theorem decode_of_encodeSpentIds {ids : List UInt64} {count : UInt32} {bytes : Bytes}
    (h : encodeSpentIdsEliasDeltaAscendingAbsolute ids = .ok (count, bytes)) :
    decodeSpentIdsEliasDeltaAscendingAbsolute count bytes = .ok (ids.insertionSort (· ≤ ·)) := by
  obtain ⟨hnd, hmax, hlen⟩ := nodup_of_encodeSpentIds h
  obtain ⟨count', bytes', henc, -, hdec⟩ := encodeSpentIds_of_nodup hnd hmax hlen
  rw [h, Except.ok.injEq, Prod.mk.injEq] at henc
  rwa [henc.1, henc.2]

/-! ## What a decoded stream held -/

/-- Positive deltas after `uid` give ascending UIDs, whose deltas they are. -/
theorem spentIdsFromDeltas_eq_ok {uid : UInt64} {deltas ids : List UInt64}
    (hpos : ∀ d ∈ deltas, d ≠ 0)
    (h : spentIdsFromDeltas uid deltas = .ok ids) :
    (uid :: ids).Pairwise (· < ·) ∧ spentIdValues (some uid) ids = .ok deltas := by
  induction deltas generalizing uid ids with
  | nil =>
    rw [spentIdsFromDeltas, Except.ok.injEq] at h
    rw [← h]
    exact ⟨List.pairwise_singleton _ _, rfl⟩
  | cons delta deltas ih =>
    simp only [spentIdsFromDeltas, bind_eq_ok, okOr_eq_ok, checkedAdd64_eq_some, pure_eq_ok,
      Except.ok.injEq] at h
    obtain ⟨next, hnext, rest, hrest, rfl⟩ := h
    obtain ⟨hpair, hvalues⟩ := ih (fun d hd => hpos d (List.mem_cons_of_mem _ hd)) hrest
    have hd : 0 < delta.toNat :=
      Nat.pos_of_ne_zero fun h0 => hpos delta List.mem_cons_self (UInt64.toNat_inj.mp h0)
    have hlt : uid < next := by
      rw [UInt64.lt_iff_toNat_lt]
      omega
    constructor
    · refine List.pairwise_cons.mpr ⟨fun b hb => ?_, hpair⟩
      rcases List.mem_cons.mp hb with rfl | hb
      · exact hlt
      · exact UInt64.lt_trans hlt ((List.pairwise_cons.mp hpair).1 b hb)
    · have hback : checkedSub64 next uid = some delta := checkedSub64_eq_some.mpr (by omega)
      have hpos' : delta > 0 := by
        rw [gt_iff_lt, UInt64.lt_iff_toNat_lt, UInt64.toNat_zero]
        exact hd
      simp only [spentIdValues]
      rw [hback, okOr_some, ok_bind, ensure_of hpos', ok_bind, hvalues, ok_bind]
      rfl

/-- The codewords of a list of values, one after the other. -/
def codewords (values : List UInt64) : List Bool := values.flatMap fun v => eliasDeltaBits v.toNat

/-- What the decoder accepts: ascending UIDs, one for each of `count` codewords at the front
of the stream, which are the codewords the UIDs are encoded to. -/
theorem decodeSpentIds_eq_ok {count : UInt32} {bytes : Bytes} {ids : List UInt64}
    (h : decodeSpentIdsEliasDeltaAscendingAbsolute count bytes = .ok ids) :
    ids.Pairwise (· < ·) ∧ ids.length = count.toNat ∧ (count = 0 → bytes = []) ∧
      ∃ values, spentIdValues none ids = .ok values ∧ codewords values <+: bytesBits bytes := by
  unfold decodeSpentIdsEliasDeltaAscendingAbsolute at h
  by_cases h0 : count = 0
  · simp only [h0, if_true, bind_eq_ok, ensure_eq_ok, pure_eq_ok, Except.ok.injEq] at h
    obtain ⟨-, hbytes, rfl⟩ := h
    exact ⟨List.Pairwise.nil, by rw [h0]; rfl, fun _ => hbytes, [], rfl, List.nil_prefix⟩
  · simp only [if_neg h0, bind_eq_ok] at h
    obtain ⟨values, hvalues, h⟩ := h
    obtain ⟨hlen, hnz, hreads⟩ := decodeValuesFrom_eq_ok (Nat.zero_le _) hvalues
    cases values with
    | nil => cases h
    | cons value deltas =>
      simp only [bind_eq_ok, okOr_eq_ok, checkedSub64_eq_some, pure_eq_ok, Except.ok.injEq] at h
      obtain ⟨first, hfirst, rest, hrest, rfl⟩ := h
      obtain ⟨hpair, hdeltas⟩ :=
        spentIdsFromDeltas_eq_ok (fun d hd => hnz d (List.mem_cons_of_mem _ hd)) hrest
      have hone : (1 : UInt64).toNat = 1 := rfl
      have hadd : checkedAdd64 first 1 = some value := checkedAdd64_eq_some.mpr (by omega)
      have hpos : value > 0 := by
        rw [gt_iff_lt, UInt64.lt_iff_toNat_lt, UInt64.toNat_zero]
        omega
      have hids : spentIdValues none (first :: rest) = .ok (value :: deltas) := by
        simp only [spentIdValues]
        rw [hadd, okOr_some, ok_bind, ensure_of hpos, ok_bind, hdeltas, ok_bind]
        rfl
      refine ⟨hpair, by rw [← (spentIdValues_spec hids).1, hlen], fun h => absurd h h0, _, hids, ?_⟩
      exact reads_new.mp hreads

/-! ## Exact streams -/

/-- The stream is `count` codewords and fewer than eight zero bits after them. -/
def ExactStream (count : UInt32) (bytes : Bytes) : Prop :=
  ∃ values, values.length = count.toNat ∧ (∀ v ∈ values, v ≠ 0) ∧
    ∃ pad < 8, bytesBits bytes = codewords values ++ List.replicate pad false

theorem encodeEliasDelta_bits {values : List UInt64} (hnz : ∀ v ∈ values, v ≠ 0) :
    ∃ bytes, encodeEliasDeltaValues values = .ok bytes ∧
      ∃ pad < 8, bytesBits bytes = codewords values ++ List.replicate pad false := by
  obtain ⟨w, henc, hw⟩ := encodeValues_writes hnz writes_default
  rw [List.nil_append] at hw
  refine ⟨w.bytes, ?_, _, ?_, hw.bytesBits⟩
  · rw [encodeEliasDeltaValues, henc, ok_bind]
    rfl
  · omega

theorem bytes_eq_of_padded {xs ys : Bytes} {l : List Bool} {m n : ℕ} (hm : m < 8) (hn : n < 8)
    (hx : bytesBits xs = l ++ List.replicate m false)
    (hy : bytesBits ys = l ++ List.replicate n false) : xs = ys := by
  have hxlen := congrArg List.length hx
  have hylen := congrArg List.length hy
  rw [length_bytesBits, List.length_append, List.length_replicate] at hxlen hylen
  obtain rfl : m = n := by omega
  exact bytesBits_injective (hx.trans hy.symm)

theorem codewords_unique {bytes : Bytes} {values values' : List UInt64}
    (hlen : values.length = values'.length)
    (hnz : ∀ v ∈ values, v ≠ 0) (hnz' : ∀ v ∈ values', v ≠ 0)
    (h : codewords values <+: bytesBits bytes)
    (h' : codewords values' <+: bytesBits bytes) : values = values' := by
  have hread := decodeValues_reads hnz (reads_new.mpr h)
  have hread' := decodeValues_reads hnz' (reads_new.mpr h')
  rw [hlen, hread'] at hread
  exact (Except.ok.inj hread).symm

theorem insertionSort_of_pairwise {ids : List UInt64} (h : ids.Pairwise (· < ·)) :
    ids.insertionSort (· ≤ ·) = ids :=
  (h.imp fun hlt => UInt64.le_of_lt hlt).insertionSort_eq

/-- The encoder gives back the stream it was decoded from exactly when the stream is exact. -/
theorem encode_of_decodeSpentIds {count : UInt32} {bytes : Bytes} {ids : List UInt64}
    (h : decodeSpentIdsEliasDeltaAscendingAbsolute count bytes = .ok ids) :
    encodeSpentIdsEliasDeltaAscendingAbsolute ids = .ok (count, bytes) ↔ ExactStream count bytes := by
  obtain ⟨hpair, hlen, hempty, values, hvalues, hfront⟩ := decodeSpentIds_eq_ok h
  obtain ⟨hvlen, hnz⟩ := spentIdValues_spec hvalues
  obtain ⟨bytes', henc, pad', hpad', hbits'⟩ := encodeEliasDelta_bits hnz
  unfold encodeSpentIdsEliasDeltaAscendingAbsolute
  rw [insertionSort_of_pairwise hpair]
  by_cases hnil : ids = []
  · have hcount : count = 0 := UInt32.toNat_inj.mp (by rw [← hlen, hnil]; rfl)
    rw [if_pos hnil, hcount, hempty hcount]
    exact ⟨fun _ => ⟨[], rfl, by simp, 0, by omega, rfl⟩, fun _ => rfl⟩
  · have htry : tryU32 values.length = .ok count := tryU32_eq_ok.mpr (by omega)
    rw [if_neg hnil, hvalues, ok_bind, htry, ok_bind, henc, ok_bind, pure_eq_ok, Except.ok.injEq,
      Prod.mk.injEq]
    constructor
    · rintro ⟨_, hbytes⟩
      exact ⟨values, by omega, hnz, pad', hpad', hbytes ▸ hbits'⟩
    · rintro ⟨other, holen, honz, pad, hpad, hbits⟩
      obtain rfl := codewords_unique (by omega) hnz honz hfront ⟨_, hbits.symm⟩
      exact ⟨rfl, bytes_eq_of_padded hpad' hpad hbits' hbits⟩

end BitcoinData
