import BitcoinData.Lib.Ledger

/-! Typed columns in a store of raw keys and values. A column turns its own keys and values
into raw ones, and what it reads back of the store is a finite map; a write to one column
is not seen by another whose keys are different. -/

namespace Lib

variable {B W κ ν : Type} [DecidableEq B] [DecidableEq κ]

abbrev RawStore (B W : Type) := Finmap fun _ : B => W

/-! ## Batches -/

inductive BatchOp (B W : Type)
  | put (key : B) (value : W)
  | delete (key : B)

namespace RawStore

def applyOp (db : RawStore B W) : BatchOp B W → RawStore B W
  | .put key value => db.insert key value
  | .delete key => db.erase key

/-- A batch is written as a whole, its operations in order. -/
def write (db : RawStore B W) (batch : List (BatchOp B W)) : RawStore B W := batch.foldl applyOp db

theorem write_append (db : RawStore B W) (b b' : List (BatchOp B W)) :
    db.write (b ++ b') = (db.write b).write b' := List.foldl_append

@[simp] theorem write_put (db : RawStore B W) (key : B) (value : W) :
    db.write [.put key value] = db.insert key value := rfl

@[simp] theorem write_delete (db : RawStore B W) (key : B) :
    db.write [.delete key] = db.erase key := rfl

end RawStore

/-! ## Columns -/

/-- Where the rows of one kind are, and how they are read. -/
structure Column (B W κ ν : Type) where
  key : κ → B
  read : W → Except String ν
  key_injective : Function.Injective key

namespace Column

/-- The rows of the column, all of which can be read, are the map. -/
def Reads (c : Column B W κ ν) (db : RawStore B W) (m : Finmap fun _ : κ => ν) : Prop :=
  ∀ k, (db.lookup (c.key k)).map c.read = (m.lookup k).map .ok

variable {c : Column B W κ ν} {db : RawStore B W} {m : Finmap fun _ : κ => ν}

theorem reads_empty (c : Column B W κ ν) : c.Reads ∅ ∅ := fun _ => rfl

theorem Reads.read_of_lookup (h : c.Reads db m) {k : κ} {w : W} (hw : db.lookup (c.key k) = some w) :
    ∃ v, m.lookup k = some v ∧ c.read w = .ok v := by
  have hk := h k
  rw [hw, Option.map_some] at hk
  obtain ⟨v, hv, hr⟩ := Option.map_eq_some_iff.mp hk.symm
  exact ⟨v, hv, hr.symm⟩

theorem Reads.lookup_eq_none (h : c.Reads db m) {k : κ} :
    db.lookup (c.key k) = none ↔ m.lookup k = none := by
  rw [← Option.map_eq_none_iff (f := c.read), h k, Option.map_eq_none_iff]

theorem Reads.put (h : c.Reads db m) (k : κ) {w : W} {v : ν} (hv : c.read w = .ok v) :
    c.Reads (db.insert (c.key k) w) (m.insert k v) := by
  intro k'
  rw [lookup_insert_ite, lookup_insert_ite]
  by_cases he : k' = k
  · rw [if_pos he, if_pos (congrArg c.key he), Option.map_some, Option.map_some, hv]
  · rw [if_neg he, if_neg fun hk => he (c.key_injective hk)]
    exact h k'

theorem Reads.delete (h : c.Reads db m) (k : κ) : c.Reads (db.erase (c.key k)) (m.erase k) := by
  intro k'
  rw [lookup_erase_ite, lookup_erase_ite]
  by_cases he : k' = k
  · rw [if_pos he, if_pos (congrArg c.key he)]
    rfl
  · rw [if_neg he, if_neg fun hk => he (c.key_injective hk)]
    exact h k'

theorem Reads.put_other (h : c.Reads db m) {b : B} (hb : ∀ k, c.key k ≠ b) (w : W) :
    c.Reads (db.insert b w) m := by
  intro k
  rw [lookup_insert_ite, if_neg (hb k)]
  exact h k

theorem Reads.delete_other (h : c.Reads db m) {b : B} (hb : ∀ k, c.key k ≠ b) :
    c.Reads (db.erase b) m := by
  intro k
  rw [lookup_erase_ite, if_neg (hb k)]
  exact h k

end Column

end Lib
