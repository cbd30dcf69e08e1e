import BitcoinData.Lib.Lists
import BitcoinData.Proofs.SpentPayload
import BitcoinData.Spec.Rest

/-! The two forms of undo data are told apart. A payload has a zero byte: the last of a value that
is not larger than the money supply, or a count of nothing. A zero byte is no hex digit and no
whitespace, so the payload is never taken for text; text is never taken for the payload, since
between the whitespace it is hex digits only, two for each byte. -/

namespace BitcoinData

open Lib

/-! ## The payload -/

theorem zero_mem_compactSize : (0 : UInt8) ∈ compactSize 0 := by decide

theorem zero_mem_encoded {output : SpentTxOut} (h : output.valueSat.toNat ≤ MAX_MONEY_SAT) :
    0 ∈ output.encoded := by
  have hlt : output.valueSat.toNat < 256 ^ 7 := h.trans_lt (by decide)
  exact List.mem_append_left _ (zero_mem_digits hlt)

theorem zero_mem_encodedInputs {inputs : List SpentTxOut}
    (h : ∀ output ∈ inputs, output.valueSat.toNat ≤ MAX_MONEY_SAT) : 0 ∈ encodedInputs inputs := by
  cases inputs with
  | nil => exact List.mem_append_left _ zero_mem_compactSize
  | cons output inputs =>
    refine List.mem_append_right _ ?_
    rw [List.flatMap_cons]
    exact List.mem_append_left _ (zero_mem_encoded (h output List.mem_cons_self))

theorem zero_mem_payload {block : BlockSpentTxOuts}
    (h : ∀ inputs ∈ block.txs, ∀ output ∈ inputs, output.valueSat.toNat ≤ MAX_MONEY_SAT) :
    0 ∈ block.encoded := by
  obtain ⟨txs⟩ := block
  cases txs with
  | nil => exact List.mem_append_left _ zero_mem_compactSize
  | cons inputs txs =>
    refine List.mem_append_right _ ?_
    rw [List.flatMap_cons]
    exact List.mem_append_left _ (zero_mem_encodedInputs (h inputs List.mem_cons_self))

/-! ## Hex digits -/

theorem hexDigitByte_digit : ∀ upper, ∀ n < 16, isAsciiHexdigit (hexDigitByte upper n) = true ∧
    isAsciiWhitespace (hexDigitByte upper n) = false := by
  decide

theorem mem_hexText {upper : Bool} {bytes : Bytes} {d : UInt8} (h : d ∈ hexText upper bytes) :
    isAsciiHexdigit d = true ∧ isAsciiWhitespace d = false := by
  obtain ⟨b, -, hd⟩ := List.mem_flatMap.mp h
  have hlt := b.toNat_lt
  rw [List.mem_cons, List.mem_singleton] at hd
  rcases hd with rfl | rfl
  · exact hexDigitByte_digit upper _ (by omega)
  · exact hexDigitByte_digit upper _ (by omega)

theorem length_hexText (upper : Bool) (bytes : Bytes) : (hexText upper bytes).length = 2 * bytes.length := by
  induction bytes with
  | nil => rfl
  | cons b bytes ih =>
    simp only [hexText, List.flatMap_cons, List.length_append, List.length_cons, List.length_nil] at ih ⊢
    omega

/-! ## Telling them apart -/

section
variable [HexCrate]

/-- Anything with a zero byte is passed on as it is. -/
theorem decodeRest_of_zero_mem {bytes : Bytes} (h : 0 ∈ bytes) (what : String) :
    decodeRestBinaryOrHex bytes what = .ok bytes := by
  have hzero : isAsciiWhitespace 0 = false := by decide
  have hmem : 0 ∈ ((bytes.dropWhile isAsciiWhitespace).reverse.dropWhile isAsciiWhitespace).reverse := by
    rw [List.mem_reverse]
    exact mem_dropWhile (List.mem_reverse.mpr (mem_dropWhile h hzero)) hzero
  unfold decodeRestBinaryOrHex
  dsimp only
  rw [if_neg]
  rintro ⟨-, -, hall⟩
  exact absurd (List.all_eq_true.mp hall 0 hmem) (by decide)

theorem DecodesHex.decodeRest_hexText (hhex : DecodesHex) {bytes before after : Bytes}
    (hne : bytes ≠ []) (upper : Bool) (hbefore : ∀ b ∈ before, isAsciiWhitespace b = true)
    (hafter : ∀ b ∈ after, isAsciiWhitespace b = true) (what : String) :
    decodeRestBinaryOrHex (before ++ hexText upper bytes ++ after) what = .ok bytes := by
  have hlen := length_hexText upper bytes
  have hpos := List.length_pos_iff.mpr hne
  have htext : hexText upper bytes ≠ [] := List.ne_nil_of_length_pos (by omega)
  have htrim := trim_append hbefore hafter (fun d hd => (mem_hexText hd).2) htext
  unfold decodeRestBinaryOrHex
  dsimp only
  rw [htrim, if_pos, hhex.decode_hexText]
  refine ⟨htext, by omega, List.all_eq_true.mpr fun d hd => (mem_hexText hd).1⟩

/-- Either form of a payload is decoded to the payload, and the request for the spent outputs of a
block returns them from either form. -/
theorem rest_forms_unambiguous (hhex : DecodesHex) (block : BlockSpentTxOuts)
    (hvalues : ∀ inputs ∈ block.txs, ∀ output ∈ inputs, output.valueSat.toNat ≤ MAX_MONEY_SAT)
    (body : Bytes) (hform : RestForm block.encoded body) :
    (∀ what, decodeRestBinaryOrHex body what = .ok block.encoded) ∧
      (block.Held → ∀ (source : RestSource) (hash : BlockHashBytes),
        source.getBytes s!"/rest/spenttxouts/{displayHash hash}.bin" = .ok body →
        source.getBlockSpentTxouts hash = .ok (some block)) := by
  have hzero := zero_mem_payload hvalues
  have hdecode : ∀ what, decodeRestBinaryOrHex body what = .ok block.encoded := by
    intro what
    cases hform with
    | binary => exact decodeRest_of_zero_mem hzero what
    | hex upper before after hbefore hafter =>
      exact hhex.decodeRest_hexText (List.ne_nil_of_mem hzero) upper hbefore hafter what
  refine ⟨hdecode, ?_⟩
  intro hheld source hash hbody
  rw [RestSource.getBlockSpentTxouts, hbody]
  change (orFailed (decodeRestBinaryOrHex body "spenttxouts") >>= _) = _
  rw [hdecode]
  change (decodeSpentTxoutsPayload block.encoded >>= _) = _
  rw [decodeSpentTxouts_eq_ok.mpr ⟨hheld, rfl⟩]
  rfl

end

/-! ## A decoder of hex digits -/

def hexDigitValue (d : UInt8) : Option ℕ :=
  if 0x30 ≤ d ∧ d ≤ 0x39 then some (d.toNat - 0x30)
  else if 0x41 ≤ d ∧ d ≤ 0x46 then some (d.toNat - 0x41 + 10)
  else if 0x61 ≤ d ∧ d ≤ 0x66 then some (d.toNat - 0x61 + 10)
  else none

def hexTextBytes : Bytes → Option Bytes
  | [] => some []
  | [_] => none
  | high :: low :: rest => do
    let h ← hexDigitValue high
    let l ← hexDigitValue low
    let bytes ← hexTextBytes rest
    return UInt8.ofNat (16 * h + l) :: bytes

@[reducible] def sampleHexCrate : HexCrate where
  decode text := okOr (hexTextBytes text) "Invalid string"

theorem hexDigitValue_hexDigitByte : ∀ upper, ∀ n < 16, hexDigitValue (hexDigitByte upper n) = some n := by
  decide

section
attribute [local instance] sampleHexCrate

theorem sampleHexCrate_decodes : DecodesHex := by
  refine ⟨fun upper bytes => ?_⟩
  change okOr _ _ = _
  rw [okOr_eq_ok]
  induction bytes with
  | nil => rfl
  | cons b bytes ih =>
    have hlt := b.toNat_lt
    have hhigh := hexDigitValue_hexDigitByte upper (b.toNat / 16) (by omega)
    have hlow := hexDigitValue_hexDigitByte upper (b.toNat % 16) (by omega)
    have hcons : hexText upper (b :: bytes) = hexDigitByte upper (b.toNat / 16) ::
        hexDigitByte upper (b.toNat % 16) :: hexText upper bytes := rfl
    rw [hcons, hexTextBytes, hhigh, hlow, ih]
    change some (UInt8.ofNat (16 * (b.toNat / 16) + b.toNat % 16) :: bytes) = _
    rw [Nat.div_add_mod, UInt8.ofNat_toNat]

def bodySource (body : Bytes) : RestSource where
  base := "http://127.0.0.1:8332"
  send _ := .ok { isSuccess := true, status := "200 OK", text := "", bytes := .ok body }

/-- The sample payload as upper-case text on a line of its own. -/
theorem rest_forms_sample :
    (bodySource ([0x20] ++ hexText true sampleSpentTxouts.encoded ++ [0x0d, 0x0a])).getBlockSpentTxouts
      (FixedBytes.fill 32 0) = .ok (some sampleSpentTxouts) := by
  have hvalues : ∀ inputs ∈ sampleSpentTxouts.txs, ∀ output ∈ inputs,
      output.valueSat.toNat ≤ MAX_MONEY_SAT := by decide
  have hheld : sampleSpentTxouts.Held := by
    have hscripts : ∀ inputs ∈ sampleSpentTxouts.txs, ∀ output ∈ inputs,
        output.valueSat.toNat ≤ I64_MAX ∧ output.scriptPubkey.length ≤ U64_MAX := by decide
    have hcaps : ∀ inputs ∈ sampleSpentTxouts.txs, inputs.length * SPENT_TXOUT_SIZE ≤ ISIZE_MAX := by
      decide
    refine ⟨fun inputs hi => ⟨fun output ho => ?_, hcaps inputs hi⟩, by decide⟩
    obtain ⟨hvalue, hscript⟩ := hscripts inputs hi output ho
    exact ⟨hvalue, hscript⟩
  have hform : RestForm sampleSpentTxouts.encoded
      ([0x20] ++ hexText true sampleSpentTxouts.encoded ++ [0x0d, 0x0a]) :=
    .hex true _ _ (List.forall_mem_singleton.mpr rfl)
      (List.forall_mem_cons.mpr ⟨rfl, List.forall_mem_singleton.mpr rfl⟩)
  exact (rest_forms_unambiguous sampleHexCrate_decodes sampleSpentTxouts hvalues _ hform).2 hheld
    (bodySource _) _ rfl

end

end BitcoinData
