import BitcoinData.Spec.Chain
import BitcoinData.Spec.Scanning

/-! A client that follows served blocks. The hashes of a response say for each transaction which of its
outputs are retained; in the full block the client counts native P2TR outputs from the first UID of
the response, which gives the UIDs of these outputs. Spent UIDs come out of the response. -/

namespace BitcoinData

open Lib

def txHashes (txs : List (Option (TxTweak × List (List Bool)))) : List (Option (List (List Bool))) :=
  txs.map (Option.map Prod.snd)

namespace StoredLightBlockInput

/-- The indexed outputs of a block: UID, counted from `firstUid`, and key. -/
def uidKeys (self : StoredLightBlockInput) (firstUid : UInt64) : List (ℕ × XOnlyKey) :=
  self.outputs.zipIdx.map fun p => (firstUid.toNat + self.storedSlots.getD p.2 0, p.1.key)

section
variable [Externals]

/-- What the response holds if it retains those outputs of the block whose UIDs are in `found`. -/
def foundTxs (self : StoredLightBlockInput) (response : LightBlockInput) (found : Finset ℕ) :
    List (Option (TxTweak × List (List Bool))) :=
  (storedTxs (skippedBit self.skippedTxsForTweaks) (List.range self.txCount.toNat) self.tweaks
    (self.uidKeys response.firstUid)).map
      (keptTx (fun output => decide (output.1 ∈ found)) (·.2) response.truncatedOutputHashBits.toNat)

/-- The transactions that the client reads out of the response have the hashes of the outputs
`found`. Equal hashes in one transaction do not tell its outputs apart. -/
def retains (self : StoredLightBlockInput) (response : LightBlockInput) (found : Finset ℕ) : Bool :=
  response.clientReading.any fun reading =>
    decide (txHashes reading.txs = txHashes (self.foundTxs response found))

/-- The outputs of each transaction differ in the hashes that the response has of them. -/
def HashesApart (self : StoredLightBlockInput) (response : LightBlockInput) : Prop :=
  ∀ tweak outputs, some (tweak, outputs) ∈ storedTxs (skippedBit self.skippedTxsForTweaks)
      (List.range self.txCount.toNat) self.tweaks (self.uidKeys response.firstUid) →
    (outputs.map fun output => hashTop response.truncatedOutputHashBits.toNat output.2).Nodup

end

end StoredLightBlockInput

/-- A client of one chain: the indexed outputs of its blocks, and the UIDs that it takes the hashes
of the responses for. -/
structure Client where
  blocks : List StoredLightBlockInput
  found : Finset ℕ

def runClient (applied : List AppliedBlock) (found : Finset ℕ) : Client :=
  ⟨applied.map (·.storageBlock), found⟩

def Client.blockAt (self : Client) (height : ℕ) : Option StoredLightBlockInput :=
  self.blocks.find? fun block => decide (block.height = height)

section
variable [Externals]

/-- One served block: the UIDs of the retained outputs go into the wallet, and the decoded spent
UIDs leave it. -/
def Client.block (self : Client) (wallet : Finset ℕ) (height : ℕ) (payload : Bytes) :
    Except String (Finset ℕ) := do
  let indexed ← okOr (self.blockAt height) "no block of the chain"
  let response ← decodeLightBlock payload
  ensure (indexed.retains response self.found = true) "other outputs are retained"
  let spent ← decodeLightBlockSpentIds response
  let uids := ((indexed.uidKeys response.firstUid).map (·.1)).toFinset
  return (wallet ∪ (uids ∩ self.found)) \ (spent.map (·.toNat)).toFinset

namespace FileArchive

def storedBlock (self : FileArchive) (height : ℕ) : Except String StoredLightBlockInput := do
  decodeStoredLightBlock (← self.readStoredBlock height)

/-- The response for a block, as a client decodes it. -/
def servedResponse (self : FileArchive) (filter : StoredBlockResponseFilter) (height : ℕ) :
    Except String LightBlockInput := do
  decodeLightBlock (← self.readBlockFilteredWithHash height filter).payload

/-- The blocks of `heights` in order, each served under `filter`. -/
def clientFold (self : FileArchive) (client : Client) (filter : StoredBlockResponseFilter)
    (wallet : Finset ℕ) (heights : List ℕ) : Except String (Finset ℕ) :=
  heights.foldlM (fun wallet height => do
    let served ← self.readBlockFilteredWithHash height filter
    client.block wallet height served.payload) wallet

end FileArchive

end

end BitcoinData
