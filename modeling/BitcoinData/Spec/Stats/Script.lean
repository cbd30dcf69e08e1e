import BitcoinData.Spec.Types

/-! `stats/script.rs`: the type of an output script and counts by type. The byte
patterns are those of the `bitcoin` crate's `Script`. -/

namespace BitcoinData.Stats

inductive ScriptType
  | p2pk
  | p2pkh
  | p2sh
  | p2wpkh
  | p2wsh
  | p2tr
  | p2a
  | opReturn
  | unknown
deriving DecidableEq

namespace ScriptType

def all : List ScriptType := [p2pk, p2pkh, p2sh, p2wpkh, p2wsh, p2tr, p2a, opReturn, unknown]

def toU8 : ScriptType → ℕ
  | p2pk => 0
  | p2pkh => 1
  | p2sh => 2
  | p2wpkh => 3
  | p2wsh => 4
  | p2tr => 5
  | p2a => 6
  | opReturn => 7
  | unknown => 8

def fromU8 : ℕ → ScriptType
  | 0 => p2pk
  | 1 => p2pkh
  | 2 => p2sh
  | 3 => p2wpkh
  | 4 => p2wsh
  | 5 => p2tr
  | 6 => p2a
  | 7 => opReturn
  | _ => unknown

theorem fromU8_toU8 (t : ScriptType) : fromU8 t.toU8 = t := by
  cases t <;> rfl

theorem toU8_lt (t : ScriptType) : t.toU8 < 2 ^ 4 := by
  cases t <;> decide

end ScriptType

/-! ## `bitcoin::Script` -/

def isP2tr (script : Bytes) : Bool :=
  script.length = 34 && [0x51, 0x20].isPrefixOf script

def isP2wpkh (script : Bytes) : Bool :=
  script.length = 22 && [0x00, 0x14].isPrefixOf script

def isP2wsh (script : Bytes) : Bool :=
  script.length = 34 && [0x00, 0x20].isPrefixOf script

def isP2sh (script : Bytes) : Bool :=
  script.length = 23 && [0xa9, 0x14].isPrefixOf script && [0x87].isSuffixOf script

def isP2pkh (script : Bytes) : Bool :=
  script.length = 25 && [0x76, 0xa9, 0x14].isPrefixOf script && [0x88, 0xac].isSuffixOf script

def isP2pk (script : Bytes) : Bool :=
  (script.length = 67 && [0x41].isPrefixOf script && [0xac].isSuffixOf script) ||
    (script.length = 35 && [0x21].isPrefixOf script && [0xac].isSuffixOf script)

def isOpReturn (script : Bytes) : Bool := [0x6a].isPrefixOf script

def isP2a (script : Bytes) : Bool := script = [0x51, 0x02, 0x4e, 0x73]

def classifyScript (script : Bytes) : ScriptType :=
  if isP2a script then .p2a
  else if isP2tr script then .p2tr
  else if isP2wpkh script then .p2wpkh
  else if isP2wsh script then .p2wsh
  else if isP2sh script then .p2sh
  else if isP2pkh script then .p2pkh
  else if isP2pk script then .p2pk
  else if isOpReturn script then .opReturn
  else .unknown

def extractXonlyScript (script : Bytes) : Option XOnlyKey :=
  if h : script.length = 34 ∧ [0x51, 0x20].isPrefixOf script then
    some ⟨script.drop 2, by rw [List.length_drop, h.1]⟩
  else none

/-! ## Counts -/

structure TypeCounts where
  p2pk : ℕ
  p2pkh : ℕ
  p2sh : ℕ
  p2wpkh : ℕ
  p2wsh : ℕ
  p2tr : ℕ
  p2a : ℕ
  opReturn : ℕ
  unknown : ℕ
deriving DecidableEq

namespace TypeCounts

def default : TypeCounts := ⟨0, 0, 0, 0, 0, 0, 0, 0, 0⟩

def record (self : TypeCounts) : ScriptType → TypeCounts
  | .p2pk => { self with p2pk := self.p2pk + 1 }
  | .p2pkh => { self with p2pkh := self.p2pkh + 1 }
  | .p2sh => { self with p2sh := self.p2sh + 1 }
  | .p2wpkh => { self with p2wpkh := self.p2wpkh + 1 }
  | .p2wsh => { self with p2wsh := self.p2wsh + 1 }
  | .p2tr => { self with p2tr := self.p2tr + 1 }
  | .p2a => { self with p2a := self.p2a + 1 }
  | .opReturn => { self with opReturn := self.opReturn + 1 }
  | .unknown => { self with unknown := self.unknown + 1 }

def get (self : TypeCounts) : ScriptType → ℕ
  | .p2pk => self.p2pk
  | .p2pkh => self.p2pkh
  | .p2sh => self.p2sh
  | .p2wpkh => self.p2wpkh
  | .p2wsh => self.p2wsh
  | .p2tr => self.p2tr
  | .p2a => self.p2a
  | .opReturn => self.opReturn
  | .unknown => self.unknown

@[simp] theorem get_default (t : ScriptType) : default.get t = 0 := by
  cases t <;> rfl

theorem get_record (self : TypeCounts) (t u : ScriptType) :
    (self.record t).get u = self.get u + if u = t then 1 else 0 := by
  cases t <;> cases u <;> rfl

end TypeCounts

end BitcoinData.Stats
