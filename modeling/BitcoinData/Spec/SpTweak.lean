import BitcoinData.Spec.Types

/-! `sp_tweak.rs`, as far as Taproot inputs go. -/

namespace BitcoinData

/-- The BIP341 point without a known discrete logarithm. -/
def TAPROOT_NUMS_H_XONLY : Bytes :=
  [0x50, 0x92, 0x9b, 0x74, 0xc1, 0xa0, 0x49, 0x54, 0xb7, 0x8b, 0x4b, 0x60, 0x35, 0xe9, 0x7a, 0x5e,
    0x07, 0x8a, 0x5a, 0x0f, 0x28, 0xec, 0x96, 0xd5, 0x47, 0xbf, 0xee, 0x9a, 0xce, 0x80, 0x3a, 0xc0]

def taprootScriptPathInternalKey (witness : List Bytes) : Option Bytes := do
  let controlBlock ← witness.getLast?
  if controlBlock.length < 33 ∨ (controlBlock.length - 33) % 32 ≠ 0 ∨ witness.length < 2 then none
  else some ((controlBlock.drop 1).take 32)

/-- `xonly_key.public_key(Parity::Even)`, compressed. -/
def evenPublicKey (xonlyKey : XOnlyKey) : FixedBytes 33 :=
  ⟨0x02 :: xonlyKey.bytes, by simp [xonlyKey.length_eq]⟩

def extractP2trInputPubkey (witness : List Bytes) (xonlyKey : XOnlyKey) :
    Except String (Option (FixedBytes 33)) :=
  match taprootScriptPathInternalKey witness with
  | some internalKey =>
    if internalKey = TAPROOT_NUMS_H_XONLY then .ok none else .ok (some (evenPublicKey xonlyKey))
  | none => .ok (some (evenPublicKey xonlyKey))

end BitcoinData
