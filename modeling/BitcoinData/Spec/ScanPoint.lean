import Mathlib.Algebra.BigOperators.Group.List.Basic
import Mathlib.Data.List.Lex
import Mathlib.Data.List.MinMax
import Mathlib.Order.Nat
import BitcoinData.Lib.Result
import BitcoinData.Spec.P2trIndexer
import BitcoinData.Spec.SpTweak
import BitcoinData.Spec.Stats.Script

/-! The scan point of a transaction, the rest of `sp_tweak.rs`: which inputs give a public key,
their sum, and the sum times the hash of the smallest outpoint. A public key stands for its
compressed form. -/

namespace BitcoinData

open Lib

/-- What the scan point takes from `secp256k1`, `sha2` and `bitcoin_hashes`. -/
class ScanPointCrypto where
  sha256 : Bytes → FixedBytes 32
  hash160 : Bytes → FixedBytes 20
  /-- `PublicKey::from_slice`. -/
  publicKeyFromSlice : Bytes → Option (FixedBytes 33)
  /-- `PublicKey::combine_keys`. -/
  combineKeys : List (FixedBytes 33) → Option (FixedBytes 33)
  /-- `Scalar::from_be_bytes`; a scalar is its 32 bytes. -/
  scalarFromBeBytes : FixedBytes 32 → Option (FixedBytes 32)
  /-- `PublicKey::mul_tweak`. -/
  mulTweak : FixedBytes 33 → FixedBytes 32 → Option (FixedBytes 33)

section
variable [ScanPointCrypto]

/-- Keys are points of a commutative group. `combine_keys` is the key of their sum, and fails
where the sum is the point at infinity, which has no key. -/
structure SumsPoints (Point : Type) [AddCommGroup Point] (point : FixedBytes 33 → Point)
    (key : Point → Option (FixedBytes 33)) : Prop where
  combine : ∀ keys, keys ≠ [] → ScanPointCrypto.combineKeys keys = key (keys.map point).sum
  infinity : ∀ p, key p = none ↔ p = 0

end

/-! ## Inputs -/

inductive PrevoutScript
  | p2pkh (hash160 : FixedBytes 20)
  | p2sh (hash160 : FixedBytes 20)
  | p2wpkh (hash160 : FixedBytes 20)
  | p2tr (xonlyKey : XOnlyKey)
  | witnessUnknown (version : UInt8)
  | other
deriving DecidableEq

structure PrevoutInfo where
  script : PrevoutScript
deriving DecidableEq

structure TxInputContext where
  previousOutput : OutPointKey
  scriptSig : Bytes
  witness : List Bytes
  prevout : Option PrevoutInfo
deriving DecidableEq

inductive ScanPointIneligibleReason
  | noEligibleInputs
  | witnessVersionGreaterThanOne
  | publicKeySumInfinity
deriving DecidableEq

inductive ScanPointStatus
  | ineligible (reason : ScanPointIneligibleReason)
  | missingPrevout (missingCount : ℕ)
  | computed (tweak : TxTweak)
deriving DecidableEq

/-! ## `script_classify.rs` -/

inductive ScriptKind
  | p2pkh (hash160 : FixedBytes 20)
  | p2sh (hash160 : FixedBytes 20)
  | p2wpkh (hash160 : FixedBytes 20)
  | p2wsh (sha256 : FixedBytes 32)
  | p2tr (xonlyKey : FixedBytes 32)
  | witnessUnknown (version : UInt8) (programLen : ℕ)
  | opReturn
  | other
deriving DecidableEq

/-- `copy_from_slice`; every slice taken below has the right length. -/
def copyBytes (n : ℕ) (bytes : Bytes) : FixedBytes n :=
  if h : bytes.length = n then ⟨bytes, h⟩ else FixedBytes.fill n 0

def isWitnessProgram (script : Bytes) : Bool :=
  match script with
  | version :: len :: program =>
    4 ≤ script.length && script.length ≤ 42 && (version = 0x00 || (0x51 ≤ version && version ≤ 0x60)) &&
      2 ≤ len && len ≤ 40 && program.length = len.toNat
  | _ => false

def classifyScript (script : Bytes) : ScriptKind :=
  if Stats.isP2pkh script then .p2pkh (copyBytes 20 ((script.drop 3).take 20))
  else if Stats.isP2sh script then .p2sh (copyBytes 20 ((script.drop 2).take 20))
  else if Stats.isP2wpkh script then .p2wpkh (copyBytes 20 ((script.drop 2).take 20))
  else if Stats.isP2wsh script then .p2wsh (copyBytes 32 ((script.drop 2).take 32))
  else if Stats.isP2tr script then .p2tr (copyBytes 32 ((script.drop 2).take 32))
  else if isWitnessProgram script then
    let version := script.getD 0 0
    .witnessUnknown (if version = 0x00 then 0 else version - 0x50) (script.getD 1 0).toNat
  else if Stats.isOpReturn script then .opReturn
  else .other

/-! ## Pushes -/

/-- What stands at an opcode: the length of its push and the bytes from there on, no push, or a
length that is cut off. -/
inductive PushHeader
  | push (len : ℕ) (rest : Bytes)
  | skip
  | stop

def readPushHeader (opcode : UInt8) (rest : Bytes) : PushHeader :=
  if 0x01 ≤ opcode ∧ opcode ≤ 0x4b then .push opcode.toNat rest
  else if opcode = 0x4c then
    match rest with
    | b₀ :: rest => .push b₀.toNat rest
    | _ => .stop
  else if opcode = 0x4d then
    match rest with
    | b₀ :: b₁ :: rest => .push (b₀.toNat + 2 ^ 8 * b₁.toNat) rest
    | _ => .stop
  else if opcode = 0x4e then
    match rest with
    | b₀ :: b₁ :: b₂ :: b₃ :: rest =>
      .push (b₀.toNat + 2 ^ 8 * b₁.toNat + 2 ^ 16 * b₂.toNat + 2 ^ 24 * b₃.toNat) rest
    | _ => .stop
  else .skip

/-- The loop of `parse_script_pushes`; every round takes at least the opcode. -/
def parseScriptPushesFrom : ℕ → Bytes → List Bytes
  | 0, _ => []
  | _, [] => []
  | fuel + 1, opcode :: rest =>
    match readPushHeader opcode rest with
    | .skip => parseScriptPushesFrom fuel rest
    | .stop => []
    | .push len rest =>
      if len > rest.length then [] else rest.take len :: parseScriptPushesFrom fuel (rest.drop len)

def parseScriptPushes (script : Bytes) : List Bytes := parseScriptPushesFrom script.length script

/-! ## Keys of inputs -/

section
variable [ScanPointCrypto]

def parseCompressedPubkeyMatchingHash (bytes : Bytes) (expectedHash : FixedBytes 20) :
    Except String (Option (FixedBytes 33)) :=
  if bytes.length ≠ 33 ∨ ¬ (bytes.head? = some 0x02 ∨ bytes.head? = some 0x03) then .ok none
  else if ScanPointCrypto.hash160 bytes ≠ expectedHash then .ok none
  else do
    let key ← okOr (ScanPointCrypto.publicKeyFromSlice bytes) "invalid compressed input public key"
    return some key

def extractP2wpkhInputPubkey (input : TxInputContext) (expectedHash : FixedBytes 20) :
    Except String (Option (FixedBytes 33)) :=
  match input.witness.getLast? with
  | none => .ok none
  | some pubkeyBytes => parseCompressedPubkeyMatchingHash pubkeyBytes expectedHash

/-- The last push that is a P2WPKH script, with the hash in it. -/
def lastRedeemScript (pushes : List Bytes) : Option (Bytes × FixedBytes 20) :=
  pushes.reverse.findSome? fun push =>
    match classifyScript push with
    | .p2wpkh hash160 => some (push, hash160)
    | _ => none

def extractP2shP2wpkhInputPubkey (input : TxInputContext) (expectedScriptHash : FixedBytes 20) :
    Except String (Option (FixedBytes 33)) :=
  match lastRedeemScript (parseScriptPushes input.scriptSig) with
  | none => .ok none
  | some (redeemScript, pubkeyHash) =>
    if ScanPointCrypto.hash160 redeemScript ≠ expectedScriptHash then .ok none
    else extractP2wpkhInputPubkey input pubkeyHash

/-- The first of some pushes that is a key of the expected hash. -/
def firstMatchingPubkey (expectedHash : FixedBytes 20) :
    List Bytes → Except String (Option (FixedBytes 33))
  | [] => .ok none
  | push :: pushes => do
    match ← parseCompressedPubkeyMatchingHash push expectedHash with
    | some pubkey => return some pubkey
    | none => firstMatchingPubkey expectedHash pushes

def extractP2pkhInputPubkey (input : TxInputContext) (expectedHash : FixedBytes 20) :
    Except String (Option (FixedBytes 33)) :=
  firstMatchingPubkey expectedHash (parseScriptPushes input.scriptSig).reverse

def extractBip352InputPubkey (input : TxInputContext) (prevout : PrevoutInfo) :
    Except String (Option (FixedBytes 33)) :=
  match prevout.script with
  | .p2tr xonlyKey => extractP2trInputPubkey input.witness xonlyKey
  | .p2wpkh hash160 => extractP2wpkhInputPubkey input hash160
  | .p2sh hash160 => extractP2shP2wpkhInputPubkey input hash160
  | .p2pkh hash160 => extractP2pkhInputPubkey input hash160
  | .witnessUnknown _ => .ok none
  | .other => .ok none

/-- The body of the loop over the inputs. -/
def eligiblePubkey (input : TxInputContext) : Except String (Option (FixedBytes 33)) :=
  if input.previousOutput.isCoinbase then .ok none
  else
    match input.prevout with
    | none => .error "missing prevout handled before scan-point computation"
    | some prevout => extractBip352InputPubkey input prevout

/-! ## The scan point -/

/-- Versions 2 to 16. -/
def PrevoutScript.isLaterWitness : PrevoutScript → Bool
  | .witnessUnknown version => 2 ≤ version && version ≤ 16
  | _ => false

def spendsWitnessVersionGreaterThanOne (inputs : List TxInputContext) : Bool :=
  inputs.any fun input => input.prevout.any fun prevout => prevout.script.isLaterWitness

def serializeOutpoint (input : TxInputContext) : Bytes :=
  input.previousOutput.txid.bytes ++ u32ToLeBytes input.previousOutput.vout

/-- The lexicographic order of byte strings, by their numbers. -/
def byteOrder (bytes : Bytes) : List ℕ := bytes.map UInt8.toNat

def smallestNonCoinbaseOutpoint (inputs : List TxInputContext) : Option Bytes :=
  ((inputs.filter fun input => !input.previousOutput.isCoinbase).map serializeOutpoint).argmin
    byteOrder

def BIP352_INPUTS_TAG_HASH : Bytes :=
  [0x1e, 0x7b, 0x96, 0xeb, 0x16, 0x0a, 0x68, 0x81, 0x9f, 0x97, 0x76, 0x4b, 0x43, 0xd5, 0xd7, 0x7e,
    0x66, 0x59, 0xd7, 0x58, 0x77, 0x9d, 0x43, 0xa8, 0xa7, 0x75, 0x5f, 0x5b, 0xe4, 0x5a, 0x7e, 0x33]

/-- `TaggedSha256::digest_32` with the BIP352 tag. -/
def bip352InputsTaggedSha256 (msg : Bytes) : FixedBytes 32 :=
  ScanPointCrypto.sha256 (BIP352_INPUTS_TAG_HASH ++ BIP352_INPUTS_TAG_HASH ++ msg)

/-- The point once the keys are known. -/
def scanPointOfKeys (inputs : List TxInputContext) (eligiblePubkeys : List (FixedBytes 33)) :
    Except String ScanPointStatus :=
  if eligiblePubkeys = [] then .ok (.ineligible .noEligibleInputs)
  else
    match ScanPointCrypto.combineKeys eligiblePubkeys with
    | none => .ok (.ineligible .publicKeySumInfinity)
    | some sum => do
      let outpointL ← okOr (smallestNonCoinbaseOutpoint inputs)
        "non-empty non-coinbase input set expected"
      let inputHash := bip352InputsTaggedSha256 (outpointL ++ sum.bytes)
      let scalar ← okOr (ScanPointCrypto.scalarFromBeBytes inputHash)
        "BIP352 input hash is not a valid secp256k1 scalar"
      let scanPoint ← okOr (ScanPointCrypto.mulTweak sum scalar)
        "BIP352 scan point multiplication failed"
      return .computed scanPoint

def computeTxScanPoint (inputs : List TxInputContext) : Except String ScanPointStatus :=
  if inputs = [] ∨ inputs.all (fun input => input.previousOutput.isCoinbase) then
    .ok (.ineligible .noEligibleInputs)
  else
    let missingCount := inputs.countP fun input =>
      !input.previousOutput.isCoinbase && input.prevout.isNone
    if missingCount > 0 then .ok (.missingPrevout missingCount)
    else if spendsWitnessVersionGreaterThanOne inputs then
      .ok (.ineligible .witnessVersionGreaterThanOne)
    else do
      let pubkeys ← inputs.mapM eligiblePubkey
      scanPointOfKeys inputs pubkeys.reduceOption

end

end BitcoinData
