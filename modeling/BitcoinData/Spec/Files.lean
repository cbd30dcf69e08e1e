import Mathlib.Data.Finset.Max
import BitcoinData.Spec.P2trIndexer
import BitcoinData.Spec.Wire

/-! `storage/files.rs`: one packed stored block per height, and the manifest. A
block file is replaced by a rename, so a reader sees the old bytes or the new
ones; the manifest is truncated and then written, so a reader may see it torn.
Temporary files do not end in `.capnp` and are never read. -/

namespace BitcoinData

open Lib

structure ChainTip where
  height : ℕ
  blockHash : String
deriving DecidableEq

structure Manifest where
  version : UInt16
  network : String
  genesisHash : Option String
  finalityDepth : ℕ
  suggestedReorgCacheDepth : ℕ
  maxRangeCount : UInt32
  tip : Option ChainTip
deriving DecidableEq

/-- What `manifest.json` holds. A proper prefix of the JSON text does not parse. -/
inductive ManifestFile
  | absent
  | torn
  | complete (manifest : Manifest)
deriving DecidableEq

structure FileArchive where
  blocks : Finmap fun _ : ℕ => Bytes
  manifest : ManifestFile

structure ServedBlock where
  payload : Bytes
  blockHash : BlockHashBytes
deriving DecidableEq

namespace FileArchive

def empty : FileArchive := ⟨∅, .absent⟩

def readStoredBlock (self : FileArchive) (height : ℕ) : Except String Bytes :=
  okOr (self.blocks.lookup height) "No such file or directory (os error 2)"

def writeBlockBytes (self : FileArchive) (height : ℕ) (bytes : Bytes) : FileArchive :=
  { self with blocks := self.blocks.insert height bytes }

def readManifest (self : FileArchive) : Except String Manifest :=
  match self.manifest with
  | .absent => .error "No such file or directory (os error 2)"
  | .torn => .error "EOF while parsing a value"
  | .complete manifest => .ok manifest

def tipFromFiles (self : FileArchive) : Option ChainTip :=
  if h : self.blocks.keys.Nonempty then
    some { height := self.blocks.keys.max' h, blockHash := "" }
  else none

/-- A manifest that cannot be read or parsed is ignored, and the highest block file
stands in for it. -/
def tip (self : FileArchive) : Option ChainTip :=
  match self.readManifest with
  | .ok manifest =>
    match manifest.tip with
    | some tip => some tip
    | none => self.tipFromFiles
  | .error _ => self.tipFromFiles

/-! ## Marking spent outputs -/

/-- Insertion into the `BTreeMap` from creation height to its spends. -/
def pushSpend (creationHeight : ℕ) (spend : UInt32 × UInt32) :
    List (ℕ × List (UInt32 × UInt32)) → List (ℕ × List (UInt32 × UInt32))
  | [] => [(creationHeight, [spend])]
  | (height, spends) :: rest =>
    if creationHeight < height then (creationHeight, [spend]) :: (height, spends) :: rest
    else if creationHeight = height then (height, spends ++ [spend]) :: rest
    else (height, spends) :: pushSpend creationHeight spend rest

/-- Spends `(creation_height, output_index, spent_height)` grouped by creation
height, ascending. -/
def groupSpends (spends : List (ℕ × UInt32 × ℕ)) :
    Except String (List (ℕ × List (UInt32 × UInt32))) :=
  spends.foldlM (fun groups spend => do
    let spentHeight ← tryU32 spend.2.2
    return pushSpend spend.1 (spend.2.1, spentHeight) groups) []

/-- One spend inside its creation block, with the count of changed outputs. -/
def markOutput (creationHeight : ℕ) (acc : StoredLightBlockInput × ℕ) (spend : UInt32 × UInt32) :
    Except String (StoredLightBlockInput × ℕ) := do
  let (stored, updated) := acc
  let (outputIndex, spentHeight) := spend
  let output ← okOr stored.outputs[outputIndex.toNat]?
    s!"storage output index {outputIndex} maps outside storage outputs for block {creationHeight}"
  if output.spentHeight ≠ spentHeight then
    return ({ stored with
      outputs := stored.outputs.set outputIndex.toNat { output with spentHeight } }, updated + 1)
  else
    return (stored, updated)

section
variable [Externals]

def readBlockFilteredWithHash (self : FileArchive) (height : ℕ)
    (filter : StoredBlockResponseFilter) : Except String ServedBlock := do
  let stored ← self.readStoredBlock height
  let (payload, blockHash) ← storedLightBlockToFilteredResponseBytes stored filter
  return { payload, blockHash }

/-- The spends of one creation block: decode, update, re-encode and replace the
file. A missing file is skipped. -/
def markCreationBlock (self : FileArchive) (group : ℕ × List (UInt32 × UInt32)) :
    Except String (FileArchive × ℕ) :=
  match self.blocks.lookup group.1 with
  | none => .ok (self, 0)
  | some storedBytes => do
    let stored ← decodeStoredLightBlock storedBytes
    let (stored, updated) ← group.2.foldlM (markOutput group.1) (stored, 0)
    let bytes ← storedBlockBytes stored
    return (self.writeBlockBytes group.1 bytes, updated)

def markSpentOutputs (self : FileArchive) (spends : List (ℕ × UInt32 × ℕ)) :
    Except String (FileArchive × ℕ) := do
  let groups ← groupSpends spends
  groups.foldlM (fun acc group => do
    let (archive, updated) ← markCreationBlock acc.1 group
    return (archive, acc.2 + updated)) (self, 0)

end

end FileArchive

end BitcoinData
