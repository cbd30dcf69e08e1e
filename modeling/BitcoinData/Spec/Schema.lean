import BitcoinData.Spec.Types

/-! The two messages of `schema/light.capnp`, and the code outside the
repository that the archive rests on: the SHA-256 digest of an output key under
the truncated-output-hash tag, and Cap'n Proto's packed serialisation, of which
only one fact is used: a message that was written reads back unchanged. -/

namespace BitcoinData

/-- Client/server response message. -/
structure LightBlockMessage where
  version : UInt16
  height : ℕ
  blockHash : Bytes
  previousBlockHash : Bytes
  firstUid : UInt64
  txCount : UInt16
  skippedTxsForTweaks : Bytes
  tweakCount : UInt32
  tweakOutputCounts : Bytes
  txTweaks : Bytes
  truncatedOutputHashBits : UInt8
  truncatedOutputHashes : Bytes
  /-- The enum's discriminant; a value the schema does not name is an error on reading. -/
  spentIdCodec : UInt16
  spentCount : UInt32
  spentIds : Bytes
deriving DecidableEq

structure StoredTweakEntryMessage where
  outputCount : UInt16
  tweak : Bytes
deriving DecidableEq

structure StoredOutputEntryMessage where
  key : Bytes
  spentHeight : UInt32
  flags : UInt8
deriving DecidableEq

structure StoredSpendEntryMessage where
  spentUid : UInt64
  creationHeight : UInt32
deriving DecidableEq

/-- File archive storage message. -/
structure StoredLightBlockMessage where
  version : UInt16
  height : UInt32
  blockHash : Bytes
  previousBlockHash : Bytes
  firstUid : UInt64
  txCount : UInt16
  skippedTxsForTweaks : Bytes
  tweaks : List StoredTweakEntryMessage
  skippedOutputs : List UInt16
  outputs : List StoredOutputEntryMessage
  spends : List StoredSpendEntryMessage
  rawBlockBytes : UInt32
  truncatedOutputHashForTwoLabels : Bytes
  truncatedOutputHashForHundredLabels : Bytes
deriving DecidableEq

/-- Code outside the repository. -/
class Externals where
  /-- `TaggedSha256::digest_32` with `TRUNCATED_OUTPUT_HASH_TAG_HASH`. -/
  digest32 : XOnlyKey → FixedBytes 32
  writeLight : LightBlockMessage → Bytes
  readLight : Bytes → Except String LightBlockMessage
  readLight_writeLight : ∀ m, readLight (writeLight m) = .ok m
  writeStored : StoredLightBlockMessage → Bytes
  readStored : Bytes → Except String StoredLightBlockMessage
  readStored_writeStored : ∀ m, readStored (writeStored m) = .ok m

attribute [simp] Externals.readLight_writeLight Externals.readStored_writeStored

end BitcoinData
