import BitcoinData.Lib.Bits
import BitcoinData.Spec.Index

/-! Client output scanning as the README describes it: a client walks the transactions of a
response in order, takes the next tweak for each one that is not skipped, and cuts that
tweak's output count of fixed-width hashes off the packed stream. Beside it, the same walk
over a stored block, which is what the client should have found. -/

namespace BitcoinData

open Lib

/-- `unpack_fixed_width_bits`: `count` fields of `width` bits and what is left. -/
def takeFields (width : ℕ) : ℕ → List Bool → Option (List (List Bool) × List Bool)
  | 0, stream => some ([], stream)
  | count + 1, stream =>
    if stream.length < width then none
    else do
      let (fields, rest) ← takeFields width count (stream.drop width)
      return (stream.take width :: fields, rest)

/-- The transactions at `positions`: nothing for a skipped one, else the next tweak and the
hashes of its outputs. With them, the tweaks and the bits that are left. -/
def readTxs (skipped : ℕ → Bool) (width : ℕ) : List ℕ → List TweakEntryInput → List Bool →
    Option (List (Option (TxTweak × List (List Bool))) × List TweakEntryInput × List Bool)
  | [], tweaks, stream => some ([], tweaks, stream)
  | position :: positions, tweaks, stream =>
    if skipped position then do
      let (txs, rest) ← readTxs skipped width positions tweaks stream
      return (none :: txs, rest)
    else
      match tweaks with
      | [] => none
      | entry :: tweaks => do
        let (hashes, stream) ← takeFields width entry.outputCount.toNat stream
        let (txs, rest) ← readTxs skipped width positions tweaks stream
        return (some (entry.tweak, hashes) :: txs, rest)

def skippedBit (bitmap : Bytes) (position : ℕ) : Bool := byteBit bitmap (position / 8) (position % 8)

structure ClientReading where
  /-- For each transaction nothing, or its tweak and its hashes. -/
  txs : List (Option (TxTweak × List (List Bool)))
  unusedTweaks : List TweakEntryInput
  /-- The bits after the last hash. -/
  padding : List Bool
  spentUids : List UInt64
deriving DecidableEq

def LightBlockInput.clientReading (self : LightBlockInput) : Option ClientReading := do
  let (txs, unusedTweaks, padding) ← readTxs (skippedBit self.skippedTxsForTweaks)
    self.truncatedOutputHashBits.toNat (List.range self.txCount.toNat) self.tweaks
    (bytesBits self.truncatedOutputHashes)
  let spentUids ← (decodeLightBlockSpentIds self).toOption
  return { txs, unusedTweaks, padding, spentUids }

/-- The transactions of a block with their tweaks and their outputs, cut off `outputs` in order. -/
def storedTxs {Output : Type} (skipped : ℕ → Bool) : List ℕ → List TweakEntryInput → List Output →
    List (Option (TxTweak × List Output))
  | [], _, _ => []
  | position :: positions, tweaks, outputs =>
    if skipped position then none :: storedTxs skipped positions tweaks outputs
    else
      match tweaks with
      | [] => none :: storedTxs skipped positions [] outputs
      | entry :: tweaks => some (entry.tweak, outputs.take entry.outputCount.toNat) ::
          storedTxs skipped positions tweaks (outputs.drop entry.outputCount.toNat)

/-- The top `width` bits of the tagged hash of an output key. -/
def hashTop [Externals] (width : ℕ) (key : XOnlyKey) : List Bool :=
  (bytesBits (Externals.digest32 key).bytes).take width

/-- What is left of a transaction: a transaction without a kept output is as good as skipped. -/
def keptTx [Externals] {Output : Type} (keep : Output → Bool) (key : Output → XOnlyKey) (width : ℕ) :
    Option (TxTweak × List Output) → Option (TxTweak × List (List Bool))
  | none => none
  | some (tweak, outputs) =>
    let kept := outputs.filter keep
    if kept = [] then none else some (tweak, kept.map fun output => hashTop width (key output))

def StoredLightBlockInput.keeps (self : StoredLightBlockInput) (filter : StoredBlockResponseFilter)
    (output : StoredOutputEntryInput) : Bool :=
  !shouldOmitStoredOutput self.height output filter

/-- Every transaction of a stored block under a filter. -/
def StoredLightBlockInput.keptTxs [Externals] (self : StoredLightBlockInput)
    (filter : StoredBlockResponseFilter) (width : ℕ) :
    List (Option (TxTweak × List (List Bool))) :=
  (storedTxs (skippedBit self.skippedTxsForTweaks) (List.range self.txCount.toNat) self.tweaks self.outputs).map
    (keptTx (self.keeps filter) (·.key) width)

end BitcoinData
