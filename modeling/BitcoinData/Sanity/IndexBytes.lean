import BitcoinData.Sanity.RoundTrip
import BitcoinData.Spec.IndexBytes

/-! Keys and values of RocksDB: numbers and rows are read back as they were written, and no two
rows share a key, be they of one kind or of two. -/

namespace BitcoinData

open Lib

/-! ## Numbers -/

@[simp] theorem length_toBeBytes (k n : ℕ) : (toBeBytes k n).length = k := by
  rw [toBeBytes, List.length_reverse, length_digits]

theorem fromBeBytes_toBeBytes {k n : ℕ} (h : n < 256 ^ k) : fromBeBytes (toBeBytes k n) = n := by
  rw [fromBeBytes, toBeBytes, List.reverse_reverse, fromDigits_digits h]

theorem toBeBytes_inj {k m n : ℕ} (hm : m < 256 ^ k) (hn : n < 256 ^ k) :
    toBeBytes k m = toBeBytes k n ↔ m = n := by
  refine ⟨?_, congrArg _⟩
  intro h
  rw [← fromBeBytes_toBeBytes hm, h, fromBeBytes_toBeBytes hn]

theorem lt_of_le_U64_MAX {n : ℕ} (h : n ≤ U64_MAX) : n < 256 ^ 8 := by
  rw [U64_MAX] at h
  omega

theorem readU64Be_toBeBytes {n : ℕ} (h : n < 256 ^ 8) (label : String) :
    readU64Be (toBeBytes 8 n) label = .ok n := by
  rw [readU64Be, ensure_of (length_toBeBytes 8 n), ok_bind, fromBeBytes_toBeBytes h, pure_eq_ok]

theorem readU32Be_toBeBytes {n : ℕ} (h : n < 256 ^ 4) (label : String) :
    readU32Be (toBeBytes 4 n) label = .ok n := by
  rw [readU32Be, ensure_of (length_toBeBytes 4 n), ok_bind, fromBeBytes_toBeBytes h, pure_eq_ok]

/-! ## Keys -/

theorem outpointKey_injective : Function.Injective outpointKey := by
  intro a b h
  obtain ⟨ha, hb⟩ := List.append_inj h (by simp [a.txid.length_eq, b.txid.length_eq])
  have htxid : a.txid = b.txid := FixedBytes.ext (List.append_cancel_left ha)
  have hvout : a.vout = b.vout :=
    UInt32.toNat_inj.mp ((toBeBytes_inj a.vout.toNat_lt b.vout.toNat_lt).mp hb)
  obtain ⟨txid, vout⟩ := a
  subst htxid hvout
  rfl

theorem seenKey_injective : Function.Injective seenKey := fun _ _ h =>
  FixedBytes.ext (List.append_cancel_left h)

theorem asBytes_injective : Function.Injective asBytes := by
  intro s t h
  rw [← String.toByteArray_inj, ← String.utf8Encode_toList, ← String.utf8Encode_toList]
  exact congrArg List.toByteArray h

def metaKeys : List String :=
  [KEY_TIP_HEIGHT, KEY_TIP_HASH, KEY_LAST_UID, KEY_NETWORK, KEY_START_HEIGHT]

/-- The first byte tells the kind of a row. -/
theorem metaKeys_kind : ∀ key ∈ metaKeys, (asBytes key).head? = some 0x6d := by decide

theorem outpointKey_kind (outpoint : OutPointKey) : (outpointKey outpoint).head? = some 0x6f := rfl

theorem seenKey_kind (xonly : XOnlyKey) : (seenKey xonly).head? = some 0x6b := rfl

theorem outpointKey_ne_seenKey (outpoint : OutPointKey) (xonly : XOnlyKey) :
    outpointKey outpoint ≠ seenKey xonly := by
  intro h
  have hkind := outpointKey_kind outpoint
  rw [h, seenKey_kind] at hkind
  exact absurd hkind (by decide)

theorem outpointKey_ne_meta (outpoint : OutPointKey) {key : String} (h : key ∈ metaKeys) :
    outpointKey outpoint ≠ asBytes key := by
  intro he
  have hkind := outpointKey_kind outpoint
  rw [he, metaKeys_kind key h] at hkind
  exact absurd hkind (by decide)

theorem seenKey_ne_meta (xonly : XOnlyKey) {key : String} (h : key ∈ metaKeys) :
    seenKey xonly ≠ asBytes key := by
  intro he
  have hkind := seenKey_kind xonly
  rw [he, metaKeys_kind key h] at hkind
  exact absurd hkind (by decide)

/-! ## Rows -/

theorem readSpendFields_encode {spend : SpendLookup} (h : spend.creationHeight ≤ U64_MAX)
    (flags : UInt8) : readSpendFields (encodeSpendLookup spend) flags = .ok { spend with flags } := by
  have huid : (encodeSpendLookup spend).take 8 = toBeBytes 8 spend.uid.toNat := by
    simp only [encodeSpendLookup, List.append_assoc]
    exact List.take_left' (length_toBeBytes 8 _)
  have hheight : ((encodeSpendLookup spend).drop 8).take 8 = toBeBytes 8 spend.creationHeight := by
    simp only [encodeSpendLookup, List.append_assoc]
    rw [List.drop_left' (length_toBeBytes 8 _), List.take_left' (length_toBeBytes 8 _)]
  have hindex : ((encodeSpendLookup spend).drop 16).take 4 = toBeBytes 4 spend.outputIndex.toNat := by
    rw [encodeSpendLookup, List.append_assoc, List.drop_left' (by simp),
      List.take_left' (length_toBeBytes 4 _)]
  rw [readSpendFields, huid, hheight, hindex, readU64Be_toBeBytes spend.uid.toNat_lt, ok_bind,
    readU64Be_toBeBytes (lt_of_le_U64_MAX h), ok_bind, readU32Be_toBeBytes spend.outputIndex.toNat_lt,
    ok_bind, pure_eq_ok, UInt64.ofNat_toNat, UInt32.ofNat_toNat]

theorem readSpendLookup_encode {spend : SpendLookup} (h : spend.creationHeight ≤ U64_MAX) :
    readSpendLookup (encodeSpendLookup spend) = .ok spend := by
  have hlength : (encodeSpendLookup spend).length = 21 := by simp [encodeSpendLookup]
  have hflags : (encodeSpendLookup spend).getD 20 0 = spend.flags := by
    rw [encodeSpendLookup, List.getD_eq_getElem?_getD, List.getElem?_append_right (by simp)]
    simp
  rw [readSpendLookup, if_pos hlength, readSpendFields_encode h, hflags]

/-! ## Columns -/

/-- The rows of unspent outputs. -/
def outpointColumn : Column Bytes Bytes OutPointKey SpendLookup :=
  ⟨outpointKey, readSpendLookup, outpointKey_injective⟩

/-- How often a key was paid to. -/
def seenColumn : Column Bytes Bytes XOnlyKey UInt64 where
  key := seenKey
  read bytes := do
    let count ← readU64Be bytes "seen key count"
    return UInt64.ofNat count
  key_injective := seenKey_injective

theorem seenColumn_read (count : UInt64) : seenColumn.read (toBeBytes 8 count.toNat) = .ok count := by
  change (readU64Be _ _ >>= _) = _
  rw [readU64Be_toBeBytes count.toNat_lt, ok_bind, pure_eq_ok, UInt64.ofNat_toNat]

/-- The database stores what the typed store holds. Rows may be of any form that is read so. -/
structure Represents (db : RocksDb) (store : RocksIndexStore) : Prop where
  network : db.lookup (asBytes KEY_NETWORK) = store.network.map asBytes
  startHeight : db.lookup (asBytes KEY_START_HEIGHT) = store.startHeight.map (toBeBytes 8)
  startHeight_le : ∀ height ∈ store.startHeight, height ≤ U64_MAX
  /-- The network is put first. -/
  started : store.startHeight.isSome → store.network.isSome
  tip : db.tip = .ok store.tip
  outpoints : outpointColumn.Reads db store.outpoints
  seen : seenColumn.Reads db store.seen

theorem represents_empty : Represents ∅ .empty where
  network := rfl
  startHeight := rfl
  startHeight_le _ h := by cases h
  started h := by cases h
  tip := rfl
  outpoints := outpointColumn.reads_empty
  seen := seenColumn.reads_empty

end BitcoinData
