import BitcoinData.Lib.Codec
import BitcoinData.Lib.Result
import BitcoinData.Spec.Types

/-! `core/block.rs`: the decoder of the spent outputs of a block, and the encoding that its comment
documents. A `Vec` of more than `isize::MAX` bytes and a slice outside the input are panics, next to
the errors the decoder reports. `usize` has 64 bits. -/

namespace BitcoinData

open Lib

structure SpentTxOut where
  valueSat : UInt64
  scriptPubkey : Bytes
deriving DecidableEq

structure BlockSpentTxOuts where
  txs : List (List SpentTxOut)
deriving DecidableEq

inductive DecodeFault
  | failed (message : String)
  | capacityOverflow
  | sliceOutOfRange
deriving DecidableEq

/-- An `anyhow` error, as `?` passes it on. -/
def orFailed {α : Type} : Except String α → Except DecodeFault α
  | .ok a => .ok a
  | .error message => .error (.failed message)

def ISIZE_MAX : ℕ := 2 ^ 63 - 1
def I64_MAX : ℕ := 2 ^ 63 - 1

/-- `size_of::<Vec<SpentTxOut>>()`: a pointer, a capacity and a length. -/
def VEC_SIZE : ℕ := 24

/-- `size_of::<SpentTxOut>()`: the value and a `Vec<u8>`. -/
def SPENT_TXOUT_SIZE : ℕ := 8 + VEC_SIZE

/-- `Vec::with_capacity` for elements of the given size. -/
def withCapacity (elementSize capacity : ℕ) : Except DecodeFault Unit :=
  if capacity * elementSize ≤ ISIZE_MAX then .ok () else .error .capacityOverflow

/-! ## `Cursor` -/

structure Cursor where
  bytes : Bytes
  pos : ℕ

namespace Cursor

def new (bytes : Bytes) : Cursor := ⟨bytes, 0⟩

def remaining (self : Cursor) : ℕ := self.bytes.length - self.pos

def isEmpty (self : Cursor) : Bool := self.pos = self.bytes.length

def readU8 (self : Cursor) : Except DecodeFault (UInt8 × Cursor) :=
  match self.bytes[self.pos]? with
  | some byte => .ok (byte, { self with pos := self.pos + 1 })
  | none => .error (.failed "unexpected EOF while decoding spenttxouts")

/-- `&self.bytes[start..end]`. -/
def slice (self : Cursor) (start stop : ℕ) : Except DecodeFault Bytes :=
  if start ≤ stop ∧ stop ≤ self.bytes.length then .ok ((self.bytes.drop start).take (stop - start))
  else .error .sliceOutOfRange

def readExact (self : Cursor) (len : ℕ) : Except DecodeFault (Bytes × Cursor) := do
  orFailed (ensure (self.remaining ≥ len)
    s!"unexpected EOF while decoding spenttxouts: need {len}, have {self.remaining}")
  let start := self.pos
  let slice ← self.slice start (start + len)
  return (slice, { self with pos := start + len })

/-- One arm of `read_compact_size`: an integer of `width` bytes that no shorter form could hold. -/
def readWide (self : Cursor) (width least : ℕ) : Except DecodeFault (ℕ × Cursor) := do
  let (b, self) ← self.readExact width
  let value := fromDigits b
  orFailed (ensure (least ≤ value) "non-canonical CompactSize")
  return (value, self)

def readCompactSize (self : Cursor) : Except DecodeFault (ℕ × Cursor) := do
  let (first, self) ← self.readU8
  if first ≤ 0xfc then return (first.toNat, self)
  else if first = 0xfd then self.readWide 2 0xfd
  else if first = 0xfe then self.readWide 4 (0xffff + 1)
  else self.readWide 8 (0xffffffff + 1)

def i64FromLeBytes (b : Bytes) : ℤ :=
  if fromDigits b ≤ I64_MAX then fromDigits b else (fromDigits b : ℤ) - 2 ^ 64

def readTxoutValue (self : Cursor) : Except DecodeFault (UInt64 × Cursor) := do
  let (b, self) ← self.readExact 8
  let value := i64FromLeBytes b
  orFailed (ensure (value ≥ 0) "spenttxouts contains negative txout value")
  return (UInt64.ofNat value.toNat, self)

def readRawScript (self : Cursor) : Except DecodeFault (Bytes × Cursor) := do
  let (len, self) ← self.readCompactSize
  self.readExact len

end Cursor

/-! ## `decode_spent_txouts_payload` -/

/-- The loop over the inputs of a transaction. -/
def readSpentInputs : ℕ → Cursor → Except DecodeFault (List SpentTxOut × Cursor)
  | 0, cursor => .ok ([], cursor)
  | count + 1, cursor => do
    let (valueSat, cursor) ← cursor.readTxoutValue
    let (scriptPubkey, cursor) ← cursor.readRawScript
    let (rest, cursor) ← readSpentInputs count cursor
    return (⟨valueSat, scriptPubkey⟩ :: rest, cursor)

/-- The loop over the transactions. -/
def readSpentTxs : ℕ → Cursor → Except DecodeFault (List (List SpentTxOut) × Cursor)
  | 0, cursor => .ok ([], cursor)
  | count + 1, cursor => do
    let (inputCount, cursor) ← cursor.readCompactSize
    withCapacity SPENT_TXOUT_SIZE inputCount
    let (inputs, cursor) ← readSpentInputs inputCount cursor
    let (rest, cursor) ← readSpentTxs count cursor
    return (inputs :: rest, cursor)

def decodeSpentTxoutsPayload (bytes : Bytes) : Except DecodeFault BlockSpentTxOuts := do
  let (txCount, cursor) ← (Cursor.new bytes).readCompactSize
  withCapacity VEC_SIZE txCount
  let (txs, cursor) ← readSpentTxs txCount cursor
  orFailed (ensure cursor.isEmpty s!"spenttxouts payload has {cursor.remaining} trailing bytes")
  return { txs }

/-! ## The documented encoding -/

def compactSize (n : ℕ) : Bytes :=
  if n ≤ 0xfc then [UInt8.ofNat n]
  else if n ≤ 0xffff then 0xfd :: digits 2 n
  else if n ≤ 0xffffffff then 0xfe :: digits 4 n
  else 0xff :: digits 8 n

/-- `CTxOut`: the value, then the script behind its length. -/
def SpentTxOut.encoded (self : SpentTxOut) : Bytes :=
  digits 8 self.valueSat.toNat ++ (compactSize self.scriptPubkey.length ++ self.scriptPubkey)

def encodedInputs (inputs : List SpentTxOut) : Bytes :=
  compactSize inputs.length ++ inputs.flatMap SpentTxOut.encoded

def BlockSpentTxOuts.encoded (self : BlockSpentTxOuts) : Bytes :=
  compactSize self.txs.length ++ self.txs.flatMap encodedInputs

/-! ## What a `Vec` can hold -/

/-- A value of `SpentTxOut` that is not negative as an `i64`. -/
structure SpentTxOut.Held (output : SpentTxOut) : Prop where
  value : output.valueSat.toNat ≤ I64_MAX
  script : output.scriptPubkey.length ≤ U64_MAX

/-- The outputs that one transaction spends. -/
structure InputsHeld (inputs : List SpentTxOut) : Prop where
  outputs : ∀ output ∈ inputs, output.Held
  capacity : inputs.length * SPENT_TXOUT_SIZE ≤ ISIZE_MAX

structure BlockSpentTxOuts.Held (block : BlockSpentTxOuts) : Prop where
  inputs : ∀ inputs ∈ block.txs, InputsHeld inputs
  capacity : block.txs.length * VEC_SIZE ≤ ISIZE_MAX

/-- Every count that stands where the encoding has one, in front of whatever follows, fits a
`Vec`: that of the transactions, and behind any complete transactions that of the next. -/
structure CountsFit (bytes : Bytes) : Prop where
  txs : ∀ count ≤ U64_MAX, compactSize count <+: bytes → count * VEC_SIZE ≤ ISIZE_MAX
  inputs : ∀ count ≤ U64_MAX, ∀ txs : List (List SpentTxOut), (∀ inputs ∈ txs, InputsHeld inputs) →
    txs.length < count → ∀ inputCount ≤ U64_MAX,
    compactSize count ++ (txs.flatMap encodedInputs ++ compactSize inputCount) <+: bytes →
    inputCount * SPENT_TXOUT_SIZE ≤ ISIZE_MAX

end BitcoinData
