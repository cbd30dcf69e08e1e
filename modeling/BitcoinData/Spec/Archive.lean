import BitcoinData.Spec.Files

/-! Vocabulary for the files of an archive: the block a file holds, the same block
without its spent heights, and what a tweak keeps when it is stored. -/

namespace BitcoinData

/-- The tweak that comes back from storage: the parity byte is replaced. -/
def normalizeTweak (tweak : TxTweak) : TxTweak :=
  ⟨0x02 :: txTweakPayloadBytes tweak, by simp [txTweakPayloadBytes, tweak.length_eq]⟩

def LightBlockInput.normalised (self : LightBlockInput) : LightBlockInput :=
  { self with tweaks := self.tweaks.map fun entry =>
      { entry with tweak := normalizeTweak entry.tweak } }

namespace StoredLightBlockInput

def normalised (self : StoredLightBlockInput) : StoredLightBlockInput :=
  { self with tweaks := self.tweaks.map fun entry =>
      { entry with tweak := normalizeTweak entry.tweak } }

/-- Every output read as unspent. -/
def unmarked (self : StoredLightBlockInput) : StoredLightBlockInput :=
  { self with outputs := self.outputs.map fun output =>
      { output with spentHeight := STORAGE_SPENT_HEIGHT_UNSPENT } }

/-- Spent heights above `tip` read as unspent. -/
def clearAbove (tip : ℕ) (self : StoredLightBlockInput) : StoredLightBlockInput :=
  { self with outputs := self.outputs.map fun output =>
      if output.spentHeight.toNat ≤ tip then output
      else { output with spentHeight := STORAGE_SPENT_HEIGHT_UNSPENT } }

/-- The spent height stored for output `i`. -/
def mark (self : StoredLightBlockInput) (i : ℕ) : UInt32 :=
  ((self.outputs[i]?).map (·.spentHeight)).getD STORAGE_SPENT_HEIGHT_UNSPENT

end StoredLightBlockInput

/-- The file of `height` decodes to `block`. -/
def FileArchive.Stored [Externals] (self : FileArchive) (height : ℕ)
    (block : StoredLightBlockInput) : Prop :=
  ∃ bytes, self.blocks.lookup height = some bytes ∧ decodeStoredLightBlock bytes = .ok block

end BitcoinData
