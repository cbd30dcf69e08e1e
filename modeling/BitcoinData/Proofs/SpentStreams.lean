import BitcoinData.Sanity.Light
import BitcoinData.Sanity.Sample
import BitcoinData.Sanity.SpentIds
import BitcoinData.Sanity.Valid

/-! Spent-ID streams in both directions: which lists of UIDs have a stream and what it
decodes to, and which accepted streams are the ones the encoder writes. -/

namespace BitcoinData

open Lib

/-! ## Round trip -/

/-- A list of UIDs has no stream exactly when it repeats a UID, is `u64::MAX` alone or has no
32-bit count. A stream that was encoded decodes to the UIDs in ascending order, and whatever
is decoded ascends strictly and has the count it was asked for. -/
theorem spentIds_roundTrip (ids : List UInt64) :
    ((∃ e, encodeSpentIdsEliasDeltaAscendingAbsolute ids = .error e) ↔
      ¬ ids.Nodup ∨ ids = [18446744073709551615] ∨ ids.length > U32_MAX) ∧
    (∀ count bytes, encodeSpentIdsEliasDeltaAscendingAbsolute ids = .ok (count, bytes) →
      decodeSpentIdsEliasDeltaAscendingAbsolute count bytes = .ok (ids.insertionSort (· ≤ ·))) ∧
    ∀ count bytes decoded, decodeSpentIdsEliasDeltaAscendingAbsolute count bytes = .ok decoded →
      decoded.length = count.toNat ∧ decoded.Pairwise (· < ·) := by
  refine ⟨⟨?_, ?_⟩, ?_, ?_⟩
  · rintro ⟨e, he⟩
    by_contra hnone
    push Not at hnone
    obtain ⟨hnd, hmax, hlen⟩ := hnone
    obtain ⟨count, bytes, hok, -, -⟩ := encodeSpentIds_of_nodup hnd hmax hlen
    rw [hok] at he
    cases he
  · intro hbad
    cases hr : encodeSpentIdsEliasDeltaAscendingAbsolute ids with
    | error e => exact ⟨e, rfl⟩
    | ok r =>
      obtain ⟨hnd, hmax, hlen⟩ := nodup_of_encodeSpentIds hr
      rcases hbad with hbad | hbad | hbad
      · exact absurd hnd hbad
      · exact absurd hbad hmax
      · omega
  · intro count bytes henc
    exact decode_of_encodeSpentIds henc
  · intro count bytes decoded hdec
    obtain ⟨hpair, hlen, -⟩ := decodeSpentIds_eq_ok hdec
    exact ⟨hlen, hpair⟩

theorem spentIds_roundTrip_sample :
    (∃ count bytes, encodeSpentIdsEliasDeltaAscendingAbsolute [18446744073709551615, 7, 9] = .ok (count, bytes) ∧
      decodeSpentIdsEliasDeltaAscendingAbsolute count bytes = .ok [7, 9, 18446744073709551615]) ∧
    ∃ e, encodeSpentIdsEliasDeltaAscendingAbsolute [3, 3] = .error e := by
  constructor
  · obtain ⟨count, bytes, henc, -, -⟩ := @encodeSpentIds_of_nodup [18446744073709551615, 7, 9]
      (by decide) (by decide) (by decide)
    exact ⟨count, bytes, henc, (spentIds_roundTrip _).2.1 count bytes henc⟩
  · exact (spentIds_roundTrip [3, 3]).1.mpr (.inl (by decide))

/-! ## Canonical streams -/

section
variable [Externals]

theorem decodeLightBlock_spentIds {wire : Bytes} {input : LightBlockInput}
    (h : decodeLightBlock wire = .ok input) :
    ∃ ids, decodeLightBlockSpentIds input = .ok ids := by
  simp only [decodeLightBlock, bind_eq_ok, pure_eq_ok, Except.ok.injEq] at h
  obtain ⟨_, -, _, -, _, -, _, -, _, -, _, -, _, hvalid, rfl⟩ := h
  obtain ⟨ids, hids, -⟩ := (validateLightBlockInput_eq_ok.mp hvalid).spends
  exact ⟨ids, hids⟩

/-- Re-encoding what was decoded gives the same count and bytes exactly for the streams with
nothing behind their codewords but the zero bits that fill the last byte. Two accepted light
blocks with such streams and the same spent UIDs have the same spent-ID bytes. -/
theorem spentIds_canonical_iff_exact :
    (∀ count bytes ids, decodeSpentIdsEliasDeltaAscendingAbsolute count bytes = .ok ids →
      (encodeSpentIdsEliasDeltaAscendingAbsolute ids = .ok (count, bytes) ↔ ExactStream count bytes)) ∧
    ∀ wire wire' input input', decodeLightBlock wire = .ok input → decodeLightBlock wire' = .ok input' →
      ExactStream input.spentCount input.spentIds → ExactStream input'.spentCount input'.spentIds →
      decodeLightBlockSpentIds input = decodeLightBlockSpentIds input' →
      input.spentCount = input'.spentCount ∧ input.spentIds = input'.spentIds := by
  refine ⟨fun count bytes ids h => encode_of_decodeSpentIds h, ?_⟩
  intro wire wire' input input' hwire _ hexact hexact' hsame
  obtain ⟨ids, hids⟩ := decodeLightBlock_spentIds hwire
  rw [hids] at hsame
  have henc := (encode_of_decodeSpentIds hids).mpr hexact
  have henc' := (encode_of_decodeSpentIds hsame.symm).mpr hexact'
  rw [henc] at henc'
  exact Prod.mk.inj (Except.ok.inj henc')

end

section
attribute [local instance] sampleExternals

/-- A block without transactions that spends UID 0, with the given spent-ID stream. -/
def sampleSpentInput (spentIds : Bytes) : LightBlockInput where
  height := 100
  blockHash := sampleId 1
  previousBlockHash := sampleId 0
  firstUid := 0
  txCount := 0
  skippedTxsForTweaks := []
  tweaks := []
  truncatedOutputHashBits := 0
  truncatedOutputHashes := []
  spentIdCodec := .eliasDeltaAscendingAbsolute
  spentCount := 1
  spentIds := spentIds

theorem exactStream_sample : ExactStream 1 [0x80] := ⟨[1], rfl, by simp, 7, by omega, rfl⟩

theorem sampleSpentInput_decodes {spentIds : Bytes}
    (h : decodeSpentIdsEliasDeltaAscendingAbsolute 1 spentIds = .ok [0]) :
    ∃ wire, decodeLightBlock wire = .ok (sampleSpentInput spentIds) := by
  have hpad : validateSkippedTxsForTweaks 0 [] = .ok () := by decide
  have hcount : skippedTxsForTweaksCount 0 [] = .ok 0 := by decide
  have hvalid : LightValid (sampleSpentInput spentIds) :=
    ⟨⟨hpad, ⟨0, hcount, rfl⟩, Nat.zero_le _⟩, rfl, ⟨fun _ => rfl, fun _ => rfl⟩, [0], h, rfl⟩
  obtain ⟨message, -, hdec⟩ := hvalid.roundTrip
  exact ⟨_, hdec⟩

theorem spentIds_canonical_sample :
    encodeSpentIdsEliasDeltaAscendingAbsolute [0] = .ok (1, [0x80]) ∧
      ∀ wire input, decodeLightBlock wire = .ok input → ExactStream input.spentCount input.spentIds →
        decodeLightBlockSpentIds input = .ok [0] → input.spentIds = [0x80] := by
  constructor
  · exact (spentIds_canonical_iff_exact.1 1 [0x80] [0] (by decide +kernel)).mpr exactStream_sample
  · intro wire input hwire hexact hids
    obtain ⟨wire', hwire'⟩ := @sampleSpentInput_decodes [0x80] (by decide +kernel)
    have hids' : decodeLightBlockSpentIds (sampleSpentInput [0x80]) = .ok [0] := by decide +kernel
    exact (spentIds_canonical_iff_exact.2 _ _ _ _ hwire hwire' hexact exactStream_sample (hids.trans hids'.symm)).2

/-- Bytes behind the codewords and non-zero padding are accepted and not written again, also
inside a light block. -/
theorem spentIds_not_canonical :
    ¬ ((∀ count bytes ids, decodeSpentIdsEliasDeltaAscendingAbsolute count bytes = .ok ids →
        encodeSpentIdsEliasDeltaAscendingAbsolute ids = .ok (count, bytes)) ∨
      ∀ wire wire' input input', decodeLightBlock wire = .ok input → decodeLightBlock wire' = .ok input' →
        decodeLightBlockSpentIds input = decodeLightBlockSpentIds input' → input.spentIds = input'.spentIds) := by
  rintro (h | h)
  · have h' := h 1 [0x80, 0x00] [0] (by decide +kernel)
    exact absurd h' (by decide +kernel)
  · obtain ⟨wire, hwire⟩ := @sampleSpentInput_decodes [0x80] (by decide +kernel)
    obtain ⟨wire', hwire'⟩ := @sampleSpentInput_decodes [0xff] (by decide +kernel)
    have h' := h _ _ _ _ hwire hwire' (by decide +kernel)
    exact absurd h' (by decide)

end

end BitcoinData
