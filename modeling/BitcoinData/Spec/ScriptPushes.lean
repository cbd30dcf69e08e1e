import BitcoinData.Lib.Codec
import BitcoinData.Lib.Result
import BitcoinData.Spec.ScanPoint

/-! `parse_script_pushes` with its cursor: a push is a slice of the script, and an index or a slice
outside the script is a panic. Then what a script is made of, pushes and other opcodes. -/

namespace BitcoinData

open Lib

/-! ## The cursor -/

/-- `&script[start..stop]`. -/
structure ScriptSlice where
  start : ℕ
  stop : ℕ
deriving DecidableEq

def ScriptSlice.read (self : ScriptSlice) (script : Bytes) : Bytes :=
  (script.drop self.start).take (self.stop - self.start)

inductive ScriptPanic
  | indexOutOfRange
  | sliceOutOfRange
deriving DecidableEq

/-- `script[i]`. -/
def scriptByte (script : Bytes) (i : ℕ) : Except ScriptPanic UInt8 :=
  match script[i]? with
  | some byte => .ok byte
  | none => .error .indexOutOfRange

def scriptSlice (script : Bytes) (start stop : ℕ) : Except ScriptPanic ScriptSlice :=
  if start ≤ stop ∧ stop ≤ script.length then .ok ⟨start, stop⟩ else .error .sliceOutOfRange

/-- What the `match` on an opcode comes to: a length with the cursor behind it, `continue` or
`break`. -/
inductive PushLength
  | found (len i : ℕ)
  | next
  | done
deriving DecidableEq

/-- The `match`, with the cursor behind the opcode. -/
def readPushLength (script : Bytes) (opcode : UInt8) (i : ℕ) : Except ScriptPanic PushLength :=
  if 0x01 ≤ opcode ∧ opcode ≤ 0x4b then return .found opcode.toNat i
  else if opcode = 0x4c then
    if i ≥ script.length then return .done
    else do
      let b₀ ← scriptByte script i
      return .found b₀.toNat (i + 1)
  else if opcode = 0x4d then
    if i + 2 > script.length then return .done
    else do
      let b₀ ← scriptByte script i
      let b₁ ← scriptByte script (i + 1)
      return .found (b₀.toNat + 2 ^ 8 * b₁.toNat) (i + 2)
  else if opcode = 0x4e then
    if i + 4 > script.length then return .done
    else do
      let b₀ ← scriptByte script i
      let b₁ ← scriptByte script (i + 1)
      let b₂ ← scriptByte script (i + 2)
      let b₃ ← scriptByte script (i + 3)
      return .found (b₀.toNat + 2 ^ 8 * b₁.toNat + 2 ^ 16 * b₂.toNat + 2 ^ 24 * b₃.toNat) (i + 4)
  else return .next

/-- The loop from the cursor `i` on; nothing if the rounds are too few. -/
def scriptPushSlices (script : Bytes) :
    ℕ → ℕ → List ScriptSlice → Except ScriptPanic (Option (List ScriptSlice))
  | 0, _, _ => .ok none
  | rounds + 1, i, pushes =>
    if i < script.length then do
      let opcode ← scriptByte script i
      match ← readPushLength script opcode (i + 1) with
      | .next => scriptPushSlices script rounds (i + 1) pushes
      | .done => return some pushes
      | .found len i =>
        if i + len > script.length then return some pushes
        else do
          let push ← scriptSlice script i (i + len)
          scriptPushSlices script rounds (i + len) (pushes ++ [push])
    else .ok (some pushes)

/-! ## Operations -/

/-- The four encodings of a push. -/
inductive PushForm
  | direct
  | pushdata1
  | pushdata2
  | pushdata4
deriving DecidableEq

namespace PushForm

/-- The lengths that a form has room for. -/
def Fits : PushForm → ℕ → Prop
  | .direct, len => 1 ≤ len ∧ len ≤ 75
  | .pushdata1, len => len < 256 ^ 1
  | .pushdata2, len => len < 256 ^ 2
  | .pushdata4, len => len < 256 ^ 4

def opcode : PushForm → ℕ → UInt8
  | .direct, len => UInt8.ofNat len
  | .pushdata1, _ => 0x4c
  | .pushdata2, _ => 0x4d
  | .pushdata4, _ => 0x4e

def lengthBytes : PushForm → ℕ → Bytes
  | .direct, _ => []
  | .pushdata1, len => digits 1 len
  | .pushdata2, len => digits 2 len
  | .pushdata4, len => digits 4 len

end PushForm

structure ScriptPush where
  form : PushForm
  operand : Bytes
  fits : form.Fits operand.length

def ScriptPush.encoded (self : ScriptPush) : Bytes :=
  self.form.opcode self.operand.length ::
    (self.form.lengthBytes self.operand.length ++ self.operand)

inductive ScriptOp
  | push (p : ScriptPush)
  | other (opcode : UInt8) (other : ¬ (0x01 ≤ opcode ∧ opcode ≤ 0x4e))

def ScriptOp.encoded : ScriptOp → Bytes
  | .push p => p.encoded
  | .other opcode _ => [opcode]

def ScriptOp.operand : ScriptOp → Option Bytes
  | .push p => some p.operand
  | .other _ _ => none

/-- The opcode of a push, and not all of what belongs to it. -/
structure TruncatedPush where
  bytes : Bytes
  nonempty : bytes ≠ []
  truncated : ∃ push : ScriptPush, bytes <+: push.encoded ∧ bytes ≠ push.encoded

/-- Operations in order, and at most one push that the script ends in. -/
def scriptOf (ops : List ScriptOp) (last : Option TruncatedPush) : Bytes :=
  ops.flatMap ScriptOp.encoded ++ last.elim [] TruncatedPush.bytes

end BitcoinData
