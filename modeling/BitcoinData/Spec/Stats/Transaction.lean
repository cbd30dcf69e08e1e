import BitcoinData.Spec.Types

/-! `stats/transaction.rs`: the spend path of a Taproot input and its inscription
envelope, read off the witness stack. -/

namespace BitcoinData.Stats

inductive SpendPath
  | key
  | scriptNonNums
  | scriptNums
deriving DecidableEq

def NUMS_H_XONLY : Bytes :=
  [0x50, 0x92, 0x9b, 0x74, 0xc1, 0xa0, 0x49, 0x54, 0xb7, 0x8b, 0x4b, 0x60, 0x35, 0xe9, 0x7a, 0x5e,
    0x07, 0x8a, 0x5a, 0x0f, 0x28, 0xec, 0x96, 0xd5, 0x47, 0xbf, 0xee, 0x9a, 0xce, 0x80, 0x3a, 0xc0]

structure SpendClass where
  path : SpendPath
  inscription : Bool
deriving DecidableEq

def witnessItem (witness : List Bytes) (index : ℕ) : Option Bytes := witness[index]?

def isTaprootAnnex (item : Bytes) : Bool := item.head? = some 0x50

def isTaprootControlBlock (item : Bytes) : Bool :=
  item.length ≥ 33 && (item.length - 33) % 32 = 0

/-- `OP_FALSE OP_IF OP_PUSHBYTES_3 "ord"`. -/
def INSCRIPTION_NEEDLE : Bytes := [0x00, 0x63, 0x03, 0x6f, 0x72, 0x64]

def isInscriptionEnvelope (script : Bytes) : Bool :=
  script.tails.any fun tail => INSCRIPTION_NEEDLE.isPrefixOf tail

/-- `classify_p2tr_spend` behind the annex: the first `len` items are left. -/
def classifyStripped (witness : List Bytes) (len : ℕ) : SpendClass :=
  if len < 2 then { path := .key, inscription := false }
  else
    match witnessItem witness (len - 1) with
    | none => { path := .key, inscription := false }
    | some control =>
      if !isTaprootControlBlock control then { path := .key, inscription := false }
      else
        let script := (witnessItem witness (len - 2)).getD []
        let internalKey := (control.drop 1).take 32
        { path := if internalKey = NUMS_H_XONLY then .scriptNums else .scriptNonNums
          inscription := isInscriptionEnvelope script }

def classifyP2trSpend (witness : List Bytes) : SpendClass :=
  let len := witness.length
  if len = 0 then { path := .key, inscription := false }
  else
    match witnessItem witness (len - 1) with
    | none => classifyStripped witness len
    | some last => classifyStripped witness (if isTaprootAnnex last then len - 1 else len)

end BitcoinData.Stats
