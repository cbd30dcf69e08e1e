import BitcoinData.Spec.IndexStore

/-! The native P2TR slots of a block, and the UID of a stored output. A slot is
counted over every native P2TR output of the block; the stored outputs are the
slots that are not skipped, in order. -/

namespace BitcoinData

open Lib

/-- A native P2TR output with its transaction. -/
structure P2trSlot where
  tx : TxScanInput
  output : TxOutputScan

namespace P2trSlot

def skipped (slot : P2trSlot) : Bool :=
  slot.output.isNums || slot.tx.silentPaymentTweak.isNone

def outpoint (slot : P2trSlot) : OutPointKey := { txid := slot.tx.txid, vout := slot.output.vout }

end P2trSlot

def TxScanInput.slotsOf (tx : TxScanInput) (outputs : List TxOutputScan) : List P2trSlot :=
  (outputs.filter (·.isP2tr)).map fun output => { tx, output }

def TxScanInput.p2trSlots (tx : TxScanInput) : List P2trSlot := tx.slotsOf tx.outputs

def BlockScanInput.p2trSlots (block : BlockScanInput) : List P2trSlot :=
  block.txs.flatMap TxScanInput.p2trSlots

def BlockScanInput.inputOutpoints (block : BlockScanInput) : List OutPointKey :=
  block.txs.flatMap fun tx => tx.inputs.map (·.previousOutput)

/-- The skipped slots with their numbers. -/
def skippedSlots (slots : List P2trSlot) : List (P2trSlot × ℕ) :=
  slots.zipIdx.filter fun p => p.1.skipped

/-- The stored slots with their numbers. -/
def keptSlots (slots : List P2trSlot) : List (P2trSlot × ℕ) :=
  slots.zipIdx.filter fun p => !p.1.skipped

def slotKeys (slots : List P2trSlot) : List XOnlyKey :=
  slots.filterMap fun slot => slot.output.p2trXonlyKey

namespace StoredLightBlockInput

/-- The slot numbers of the stored outputs: those not listed as skipped. -/
def storedSlots (self : StoredLightBlockInput) : List ℕ :=
  (List.range (self.outputs.length + self.skippedOutputs.length)).filter fun slot =>
    slot ∉ self.skippedOutputs.map (·.toNat)

def outputUid (self : StoredLightBlockInput) (i : ℕ) : ℕ :=
  self.firstUid.toNat + self.storedSlots.getD i 0

end StoredLightBlockInput

/-- The UIDs that the slots of a block own, in block order. -/
def slotUids (block : BlockScanInput) (applied : AppliedBlock) : List ℕ :=
  (List.range block.p2trSlots.length).map fun slot => applied.storageBlock.firstUid.toNat + slot

def handedOut (blocks : List BlockScanInput) (applied : List AppliedBlock) : List ℕ :=
  (blocks.zip applied).flatMap fun p => slotUids p.1 p.2

/-- How the slots of a block, its skipped outputs, its stored outputs and its created
outputs fit together. -/
structure UidDomain (block : BlockScanInput) (applied : AppliedBlock) : Prop where
  responseUid : applied.lightBlock.firstUid = applied.storageBlock.firstUid
  sorted : applied.storageBlock.skippedOutputs.Pairwise (· < ·)
  total : applied.storageBlock.outputs.length + applied.storageBlock.skippedOutputs.length =
    block.p2trSlots.length
  skipped : ∀ (k : ℕ) (slot : P2trSlot), block.p2trSlots[k]? = some slot →
    (k ∈ applied.storageBlock.skippedOutputs.map (·.toNat) ↔ slot.skipped)
  created : applied.createdUtxos.length = applied.storageBlock.outputs.length
  owner : ∀ (i : ℕ) (created : CreatedScopedUtxo), applied.createdUtxos[i]? = some created →
    ∃ (k : ℕ) (slot : P2trSlot) (output : StoredOutputEntryInput),
      applied.storageBlock.storedSlots[i]? = some k ∧
      block.p2trSlots[k]? = some slot ∧ created.entry.outpoint = slot.outpoint ∧
      created.entry.uid.toNat = applied.storageBlock.firstUid.toNat + k ∧
      created.entry.outputIndex.toNat = i ∧
      applied.storageBlock.outputs[i]? = some output ∧
      slot.output.p2trXonlyKey = some output.key

def storedEntry (created : CreatedScopedUtxo) : StoredOutputEntryInput :=
  { key := created.entry.p2trXonlyKey
    spentHeight := STORAGE_SPENT_HEIGHT_UNSPENT
    flags := if created.isReused then STORAGE_OUTPUT_FLAG_REUSED else 0 }

/-- The number of outputs that a list of tweaks accounts for. -/
def tweakSum (tweaks : List TweakEntryInput) : ℕ := (tweaks.map fun e => e.outputCount.toNat).sum

/-- The lookup row that a spend was resolved with. -/
def spentLookup (spent : SpentScopedUtxo) : SpendLookup :=
  { uid := spent.uid
    creationHeight := spent.creationHeight
    outputIndex := spent.outputIndex
    flags := spent.flags }

def createdPair (created : CreatedScopedUtxo) : OutPointKey × SpendLookup :=
  (created.entry.outpoint, RocksIndexStore.createdLookup created)

def spentPair (spent : SpentScopedUtxo) : OutPointKey × SpendLookup :=
  (spent.outpoint, spentLookup spent)

end BitcoinData
