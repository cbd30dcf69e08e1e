import BitcoinData.Lib.Lists
import BitcoinData.Spec.ScanPoint

/-! The scan point of a transaction does not depend on the order of its inputs: every test looks at
all of them, the keys are summed in a commutative group, and the smallest outpoint is one of a set. -/

namespace BitcoinData

open Lib

/-! ## The smallest outpoint -/

theorem byteOrder_injective : Function.Injective byteOrder :=
  List.map_injective_iff.mpr fun _ _ h => UInt8.toNat_inj.mp h

theorem smallestNonCoinbaseOutpoint_perm {inputs inputs' : List TxInputContext}
    (h : inputs.Perm inputs') :
    smallestNonCoinbaseOutpoint inputs = smallestNonCoinbaseOutpoint inputs' := by
  unfold smallestNonCoinbaseOutpoint
  convert argmin_perm byteOrder_injective ((h.filter _).map _)

section
variable [ScanPointCrypto] {Point : Type} [AddCommGroup Point] {point : FixedBytes 33 → Point}
variable {key : Point → Option (FixedBytes 33)} {inputs inputs' : List TxInputContext}

/-! ## Keys -/

theorem SumsPoints.combine_perm (hsum : SumsPoints Point point key) {keys keys' : List (FixedBytes 33)}
    (h : keys.Perm keys') (hne : keys ≠ []) :
    ScanPointCrypto.combineKeys keys = ScanPointCrypto.combineKeys keys' := by
  have hne' : keys' ≠ [] := fun hnil => hne (by rw [hnil] at h; exact h.eq_nil)
  rw [hsum.combine keys hne, hsum.combine keys' hne', (h.map point).sum_eq]

theorem SumsPoints.scanPointOfKeys_perm (hsum : SumsPoints Point point key)
    (hinputs : inputs.Perm inputs') {keys keys' : List (FixedBytes 33)} (hkeys : keys.Perm keys') :
    scanPointOfKeys inputs keys = scanPointOfKeys inputs' keys' := by
  unfold scanPointOfKeys
  by_cases hnil : keys = []
  · have hnil' : keys' = [] := by
      rw [hnil] at hkeys
      exact hkeys.nil_eq.symm
    rw [if_pos hnil, if_pos hnil']
  · have hnil' : keys' ≠ [] := fun h => hnil (by rw [h] at hkeys; exact hkeys.eq_nil)
    rw [if_neg hnil, if_neg hnil', hsum.combine_perm hkeys hnil,
      smallestNonCoinbaseOutpoint_perm hinputs]

/-! ## The cascade -/

omit [ScanPointCrypto] in
theorem spendsWitness_perm (h : inputs.Perm inputs') :
    spendsWitnessVersionGreaterThanOne inputs = spendsWitnessVersionGreaterThanOne inputs' :=
  h.any_eq

/-- Inputs in another order give the same status, or an error again. -/
theorem scanPoint_order_irrelevant (hsum : SumsPoints Point point key) (h : inputs.Perm inputs') :
    (∃ status, computeTxScanPoint inputs = .ok status ∧ computeTxScanPoint inputs' = .ok status) ∨
      ∃ e e', computeTxScanPoint inputs = .error e ∧ computeTxScanPoint inputs' = .error e' := by
  have hnone : (inputs = [] ∨ inputs.all (fun input => input.previousOutput.isCoinbase) = true) ↔
      (inputs' = [] ∨ inputs'.all (fun input => input.previousOutput.isCoinbase) = true) := by
    rw [h.all_eq]
    refine or_congr_left ⟨fun hnil => ?_, fun hnil => ?_⟩
    · rw [hnil] at h
      exact h.nil_eq.symm
    · rw [hnil] at h
      exact h.eq_nil
  have hmissing := h.countP_eq fun input : TxInputContext =>
    !input.previousOutput.isCoinbase && input.prevout.isNone
  unfold computeTxScanPoint
  dsimp only
  rw [← hmissing, ← spendsWitness_perm h]
  by_cases hempty : inputs = [] ∨ inputs.all (fun input => input.previousOutput.isCoinbase) = true
  · rw [if_pos hempty, if_pos (hnone.mp hempty)]
    exact .inl ⟨_, rfl, rfl⟩
  · rw [if_neg hempty, if_neg (fun h' => hempty (hnone.mpr h'))]
    split_ifs
    · exact .inl ⟨_, rfl, rfl⟩
    · exact .inl ⟨_, rfl, rfl⟩
    · rcases mapM_perm (f := eligiblePubkey) h with ⟨keys, keys', hkeys, hkeys', hperm⟩ |
        ⟨e, e', he, he'⟩
      · have heq := hsum.scanPointOfKeys_perm h (hperm.filterMap id)
        rw [hkeys, hkeys', ok_bind, ok_bind]
        -- the same computation from here on
        cases hpoint : scanPointOfKeys inputs keys.reduceOption with
        | error e => exact .inr ⟨e, e, rfl, heq.symm.trans hpoint⟩
        | ok status => exact .inl ⟨status, rfl, heq.symm.trans hpoint⟩
      · rw [he, he']
        exact .inr ⟨e, e', rfl, rfl⟩

end

/-! ## Two inputs -/

/-- The generator, compressed. -/
def generatorKey : FixedBytes 33 :=
  ⟨[0x02, 0x79, 0xbe, 0x66, 0x7e, 0xf9, 0xdc, 0xbb, 0xac, 0x55, 0xa0, 0x62, 0x95, 0xce, 0x87, 0x0b,
    0x07, 0x02, 0x9b, 0xfc, 0xdb, 0x2d, 0xce, 0x28, 0xd9, 0x59, 0xf2, 0x81, 0x5b, 0x16, 0xf8, 0x17,
    0x98], rfl⟩

/-- Twice the generator, whose second coordinate is even. -/
def doubleXonly : XOnlyKey :=
  ⟨[0xc6, 0x04, 0x7f, 0x94, 0x41, 0xed, 0x7d, 0x6d, 0x30, 0x45, 0x40, 0x6e, 0x95, 0xc0, 0x7c, 0xd8,
    0x5c, 0x77, 0x8e, 0x4b, 0x8c, 0xef, 0x3c, 0xa7, 0xab, 0xac, 0x09, 0xb9, 0x5c, 0x70, 0x9e, 0xe5],
    rfl⟩

/-- Their sum. -/
def tripleKey : FixedBytes 33 :=
  ⟨[0x02, 0xf9, 0x30, 0x8a, 0x01, 0x92, 0x58, 0xc3, 0x10, 0x49, 0x34, 0x4f, 0x85, 0xf8, 0x9d, 0x52,
    0x29, 0xb5, 0x31, 0xc8, 0x45, 0x83, 0x6f, 0x99, 0xb0, 0x86, 0x01, 0xf1, 0x13, 0xbc, 0xe0, 0x36,
    0xf9], rfl⟩

def generatorHash160 : FixedBytes 20 :=
  ⟨[0x75, 0x1e, 0x76, 0xe8, 0x19, 0x91, 0x96, 0xd4, 0x54, 0x94, 0x1c, 0x45, 0xd1, 0xb3, 0xa3, 0x23,
    0xf1, 0x43, 0x3b, 0xd6], rfl⟩

/-- The tagged hash of the smaller outpoint below and of the sum. -/
def sampleInputHash : FixedBytes 32 :=
  ⟨[0xd3, 0x73, 0x9a, 0xf1, 0x43, 0x20, 0x9a, 0x6e, 0x62, 0xf2, 0x80, 0x9e, 0xd4, 0xe9, 0x94, 0xcd,
    0x9c, 0xe0, 0x2c, 0x1d, 0x38, 0xf2, 0x39, 0x33, 0xc0, 0x72, 0xc9, 0x9b, 0xe2, 0x22, 0xe9, 0x51],
    rfl⟩

/-- The sum times that hash. -/
def sampleScanPoint : TxTweak :=
  ⟨[0x03, 0x2d, 0xb9, 0xd0, 0x67, 0x1f, 0xb6, 0xde, 0x0a, 0xee, 0x5c, 0xd7, 0xae, 0xdb, 0x24, 0x4d,
    0xc3, 0x88, 0x5b, 0xa1, 0xf2, 0x5a, 0xee, 0xee, 0x13, 0x1a, 0x36, 0x11, 0x7b, 0x7e, 0x73, 0x6d,
    0x05], rfl⟩

/-- Multiples of the generator by their factors. -/
def samplePoint (key : FixedBytes 33) : ℤ :=
  if key = generatorKey then 1
  else if key = evenPublicKey doubleXonly then 2
  else 3

def sampleKey (p : ℤ) : Option (FixedBytes 33) :=
  if p = 0 then none
  else if p = 1 then some generatorKey
  else if p = 2 then some (evenPublicKey doubleXonly)
  else some tripleKey

/-- The values of the real functions at the inputs below. -/
@[reducible] def sampleCrypto : ScanPointCrypto where
  sha256 _ := sampleInputHash
  hash160 _ := generatorHash160
  publicKeyFromSlice _ := some generatorKey
  combineKeys keys := sampleKey (keys.map samplePoint).sum
  scalarFromBeBytes bytes := some bytes
  mulTweak _ _ := some sampleScanPoint

section
attribute [local instance] sampleCrypto

theorem sampleCrypto_sums : SumsPoints ℤ samplePoint sampleKey where
  combine _ _ := rfl
  infinity p := by
    unfold sampleKey
    split_ifs with h0 h1 h2
    · simp [h0]
    · simp [h0]
    · simp [h0]
    · simp [h0]

/-- Spends a Taproot output on the key path. -/
def taprootInput : TxInputContext :=
  { previousOutput := ⟨FixedBytes.fill 32 7, 0⟩
    scriptSig := []
    witness := [List.replicate 64 1]
    prevout := some ⟨.p2tr doubleXonly⟩ }

/-- Spends the key hash of the generator. -/
def keyHashInput : TxInputContext :=
  { previousOutput := ⟨FixedBytes.fill 32 3, 1⟩
    scriptSig := []
    witness := [List.replicate 71 1, generatorKey.bytes]
    prevout := some ⟨.p2wpkh generatorHash160⟩ }

theorem scanPoint_order_sample :
    computeTxScanPoint [taprootInput, keyHashInput] = .ok (.computed sampleScanPoint) ∧
      computeTxScanPoint [keyHashInput, taprootInput] = .ok (.computed sampleScanPoint) := by
  have hpoint : computeTxScanPoint [taprootInput, keyHashInput] = .ok (.computed sampleScanPoint) :=
    rfl
  refine ⟨hpoint, ?_⟩
  rcases scanPoint_order_irrelevant sampleCrypto_sums
    (List.Perm.swap keyHashInput taprootInput []) with ⟨status, hok, hok'⟩ | ⟨e, e', he, -⟩
  · rw [hpoint, Except.ok.injEq] at hok
    rw [hok', hok]
  · rw [hpoint] at he
    cases he

end

end BitcoinData
