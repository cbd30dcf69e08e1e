import BitcoinData.Spec.Pipeline

/-! `core/source.rs`: what an indexer asks a block source, with the default methods of the trait.
A source that answers a request answers it the same way again. Heights are added as in a build with
overflow checks. -/

namespace BitcoinData

open Lib

/-! ## The default methods, each over the calls it makes -/

def defaultGetBlocksSpentTxouts
    (getBlockSpentTxouts : BlockHashBytes → Except DecodeFault (Option BlockSpentTxOuts))
    (hashes : List BlockHashBytes) : Except DecodeFault (List (Option BlockSpentTxOuts)) :=
  hashes.mapM getBlockSpentTxouts

def defaultGetBlockByHeight (getBlockHash : ℕ → Except DecodeFault BlockHashBytes)
    (getBlockRaw : BlockHashBytes → Except DecodeFault Bytes)
    (getBlockSpentTxouts : BlockHashBytes → Except DecodeFault (Option BlockSpentTxOuts))
    (height : ℕ) : Except DecodeFault RawBlockFrame := do
  let hash ← getBlockHash height
  let bytes ← getBlockRaw hash
  let spentTxouts ← getBlockSpentTxouts hash
  return { height, hash, bytes, spentTxouts }

def defaultGetBlockRangeByHeight (getBlockByHeight : ℕ → Except DecodeFault RawBlockFrame)
    (startHeight count : ℕ) : Except DecodeFault (List RawBlockFrame) :=
  (List.range count).mapM fun offset => do
    let height ← orFailed (addU64 startHeight offset)
    getBlockByHeight height

/-! ## The trait -/

structure BlockSource where
  getBlockHash : ℕ → Except DecodeFault BlockHashBytes
  getBlockRaw : BlockHashBytes → Except DecodeFault Bytes
  getBlockSpentTxouts : BlockHashBytes → Except DecodeFault (Option BlockSpentTxOuts) :=
    fun _ => .ok none
  getBlocksSpentTxouts : List BlockHashBytes → Except DecodeFault (List (Option BlockSpentTxOuts)) :=
    defaultGetBlocksSpentTxouts getBlockSpentTxouts
  getBlockByHeight : ℕ → Except DecodeFault RawBlockFrame :=
    defaultGetBlockByHeight getBlockHash getBlockRaw getBlockSpentTxouts
  getBlockRangeByHeight : ℕ → ℕ → Except DecodeFault (List RawBlockFrame) :=
    defaultGetBlockRangeByHeight getBlockByHeight

end BitcoinData
