import Mathlib.Data.List.GetD
import BitcoinData.Lib.Toggle
import BitcoinData.Spec.Stats.Scan

/-! The rolling UTXO hash: the accumulator kept from block to block is the XOR of the events of the
last blocks of the window. -/

namespace BitcoinData.Stats

open Lib

/-! ## Blocks of events -/

inductive UtxoEvent
  | addOutput (globalId : ℕ)
  | removeOutput (globalId : ℕ)
deriving DecidableEq

section
variable [Sha256]

def RollingUtxoHash.event (self : RollingUtxoHash) : UtxoEvent → RollingUtxoHash
  | .addOutput globalId => self.addOutput globalId
  | .removeOutput globalId => self.removeOutput globalId

/-- What `finalize_block` returns for each block, and the accumulator after the last. -/
def RollingUtxoHash.blocks (self : RollingUtxoHash) :
    List (List UtxoEvent) → List (List Char) × RollingUtxoHash
  | [] => ([], self)
  | events :: later =>
    let (hex, self) := (events.foldl event self).finalizeBlock
    let (hexes, self) := self.blocks later
    (hex :: hexes, self)

def UtxoEvent.digest : UtxoEvent → FixedBytes 32
  | .addOutput globalId => Sha256.digest ([0x61, 0x64, 0x64] ++ u64ToBeBytes globalId)
  | .removeOutput globalId => Sha256.digest ([0x72, 0x65, 0x6d] ++ u64ToBeBytes globalId)

end

def zeroHash : FixedBytes 32 := FixedBytes.fill 32 0

/-- Each byte is the XOR of the bytes at its place. -/
def xorAll (digests : List (FixedBytes 32)) : FixedBytes 32 :=
  ⟨(List.range 32).map fun i => (digests.map fun digest => digest.bytes.getD i 0).foldl (· ^^^ ·) 0, by simp⟩

/-- The same through `xor_into`. -/
def xorFold (digests : List (FixedBytes 32)) : FixedBytes 32 := digests.foldl xorInto zeroHash

/-! ## XOR of hashes -/

theorem xorInto_bytes (a b : FixedBytes 32) :
    (xorInto a b).bytes = List.zipWith (· ^^^ ·) a.bytes b.bytes := rfl

theorem zeroHash_bytes : zeroHash.bytes = List.replicate 32 0 := rfl

theorem getD_foldl_xorInto (digests : List (FixedBytes 32)) (acc : FixedBytes 32) {i : ℕ} (hi : i < 32) :
    (digests.foldl xorInto acc).bytes.getD i 0 =
      (digests.map fun digest => digest.bytes.getD i 0).foldl (· ^^^ ·) (acc.bytes.getD i 0) := by
  induction digests generalizing acc with
  | nil => rfl
  | cons digest digests ih =>
    have hacc : i < acc.bytes.length := by rwa [acc.length_eq]
    have hdigest : i < digest.bytes.length := by rwa [digest.length_eq]
    have hbyte : (xorInto acc digest).bytes.getD i 0 = acc.bytes.getD i 0 ^^^ digest.bytes.getD i 0 := by
      rw [xorInto_bytes, List.getD_eq_getElem _ _ (by rw [List.length_zipWith]; omega), List.getElem_zipWith,
        List.getD_eq_getElem _ _ hacc, List.getD_eq_getElem _ _ hdigest]
    rw [List.foldl_cons, ih, List.map_cons, List.foldl_cons, hbyte]

theorem xorFold_eq (digests : List (FixedBytes 32)) : xorFold digests = xorAll digests := by
  apply FixedBytes.ext
  apply List.ext_getElem
  · rw [(xorFold digests).length_eq, (xorAll digests).length_eq]
  · intro i h _
    have hi : i < 32 := (xorFold digests).length_eq ▸ h
    have hget := getD_foldl_xorInto digests zeroHash hi
    have hzero : zeroHash.bytes.getD i 0 = 0 := by
      rw [zeroHash_bytes, List.getD_eq_getElem _ _ (by rwa [List.length_replicate]), List.getElem_replicate]
    rw [hzero] at hget
    rw [← List.getD_eq_getElem _ 0 h]
    simpa [xorAll, xorFold] using hget

theorem toggle_xorInto : Toggle xorInto zeroHash := by
  refine ⟨fun a b => ?_, fun a b c => ?_, fun a => ?_, fun a => ?_⟩
  · apply FixedBytes.ext
    rw [xorInto_bytes, xorInto_bytes]
    exact List.zipWith_comm_of_comm fun x y => UInt8.xor_comm x y
  · apply FixedBytes.ext
    apply List.ext_getElem
    · simp [xorInto_bytes]
    · intro i _ _
      simp [xorInto_bytes, UInt8.xor_assoc]
  · apply FixedBytes.ext
    apply List.ext_getElem
    · rw [(xorInto _ _).length_eq, a.length_eq]
    · intro i _ _
      simp only [xorInto_bytes, zeroHash_bytes, List.getElem_zipWith, List.getElem_replicate, UInt8.zero_xor]
  · apply FixedBytes.ext
    apply List.ext_getElem
    · rw [(xorInto _ _).length_eq, zeroHash.length_eq]
    · intro i _ _
      simp only [xorInto_bytes, zeroHash_bytes, List.getElem_zipWith, List.getElem_replicate, UInt8.xor_self]

/-! ## The window -/

section
variable [Sha256] {windowBlocks : ℕ}

def blockDigest (events : List UtxoEvent) : FixedBytes 32 := xorFold (events.map UtxoEvent.digest)

/-- The state between two blocks, after the blocks of `past`. -/
structure Windowed (windowBlocks : ℕ) (past : List (List UtxoEvent)) (hash : RollingUtxoHash) : Prop where
  window : hash.window = (past.drop (past.length - windowBlocks)).map blockDigest
  acc : hash.acc = xorFold hash.window
  windowBlocks_eq : hash.windowBlocks = windowBlocks
  currentBlock : hash.currentBlock = zeroHash

theorem windowed_new (windowBlocks : ℕ) : Windowed windowBlocks [] (.new windowBlocks) :=
  ⟨by rw [List.drop_nil]; rfl, rfl, rfl, rfl⟩

theorem foldl_event {self : RollingUtxoHash} (henabled : self.enabled = true) (events : List UtxoEvent) :
    events.foldl RollingUtxoHash.event self =
      { self with currentBlock := (events.map UtxoEvent.digest).foldl xorInto self.currentBlock } := by
  induction events generalizing self with
  | nil => rfl
  | cons event events ih =>
    have hevent : self.event event =
        { self with currentBlock := xorInto self.currentBlock event.digest } := by
      cases event <;> exact if_pos henabled
    rw [List.foldl_cons, hevent]
    exact @ih { self with currentBlock := xorInto self.currentBlock event.digest } henabled

theorem Windowed.finalizeBlock {past : List (List UtxoEvent)} {self : RollingUtxoHash}
    (h : Windowed windowBlocks past self) (hpos : 0 < windowBlocks) (events : List UtxoEvent) :
    ∃ self', Windowed windowBlocks (past ++ [events]) self' ∧
      (events.foldl RollingUtxoHash.event self).finalizeBlock = (hexEncode self'.acc.bytes, self') := by
  have henabled : self.enabled = true := by
    rw [RollingUtxoHash.enabled, h.windowBlocks_eq]
    exact decide_eq_true hpos
  have hcurrent : (events.map UtxoEvent.digest).foldl xorInto self.currentBlock = blockDigest events := by
    rw [h.currentBlock]
    rfl
  rw [foldl_event henabled, hcurrent]
  set window := self.window ++ [blockDigest events] with hwindow
  set excess := window.length - self.windowBlocks with hexcess
  refine ⟨⟨window.drop excess, (window.take excess).foldl xorInto (xorInto self.acc (blockDigest events)),
    self.windowBlocks, zeroHash⟩, ⟨?_, ?_, h.windowBlocks_eq, rfl⟩, if_pos henabled⟩
  · have hlen : self.window.length = past.length - (past.length - windowBlocks) := by
      rw [h.window, List.length_map, List.length_drop]
    have hnew : window = ((past ++ [events]).drop (past.length - windowBlocks)).map blockDigest := by
      rw [hwindow, List.drop_append_of_le_length (Nat.sub_le _ _), List.map_append, ← h.window]
      rfl
    have hdrop : past.length - windowBlocks + excess = (past ++ [events]).length - windowBlocks := by
      have hnewLen : window.length = self.window.length + 1 := by rw [hwindow, List.length_append]; rfl
      have heq := h.windowBlocks_eq
      rw [List.length_append, List.length_singleton]
      omega
    change window.drop excess = _
    rw [← hdrop, ← List.drop_drop, List.map_drop, ← hnew]
  · -- what falls out of the window was in the accumulator once, and is combined once more
    have htotal : xorInto self.acc (blockDigest events) = window.foldl xorInto zeroHash := by
      rw [h.acc, hwindow, toggle_xorInto.foldl_append, List.foldl_cons, List.foldl_nil, toggle_xorInto.zero_op]
      rfl
    have hevict := toggle_xorInto.foldl_evict (window.take excess) (window.drop excess)
    rw [List.take_append_drop, ← htotal] at hevict
    exact hevict

theorem Windowed.blocks {past : List (List UtxoEvent)} {self : RollingUtxoHash}
    (h : Windowed windowBlocks past self) (hpos : 0 < windowBlocks) (later : List (List UtxoEvent)) :
    (self.blocks later).1 = (List.range later.length).map fun n =>
      hexEncode (xorFold (((past ++ later.take (n + 1)).drop
        ((past ++ later.take (n + 1)).length - windowBlocks)).map blockDigest)).bytes := by
  induction later generalizing past self with
  | nil => rfl
  | cons events later ih =>
    obtain ⟨self', h', hfinal⟩ := h.finalizeBlock hpos events
    have hhead : self'.acc = xorFold (((past ++ [events]).drop
        ((past ++ [events]).length - windowBlocks)).map blockDigest) := by
      rw [h'.acc, h'.window]
    simp only [RollingUtxoHash.blocks, hfinal, ih h', hhead, List.length_cons, List.range_succ_eq_map,
      List.map_cons, List.map_map, List.take_succ_cons, List.take_zero, List.append_assoc,
      List.singleton_append]
    rfl

/-- The digests of the last `windowBlocks` of the blocks so far. -/
def windowDigest (windowBlocks : ℕ) (past : List (List UtxoEvent)) : FixedBytes 32 :=
  xorFold ((past.drop (past.length - windowBlocks)).flatten.map UtxoEvent.digest)

theorem xorFold_blockDigest (blocks : List (List UtxoEvent)) :
    xorFold (blocks.map blockDigest) = xorFold (blocks.flatten.map UtxoEvent.digest) := by
  have h := toggle_xorInto.foldl_flatten (blocks.map fun events => events.map UtxoEvent.digest)
  rw [List.map_map, ← List.map_flatten] at h
  exact h

theorem blocks_get (hpos : 0 < windowBlocks) {blocks : List (List UtxoEvent)} {n : ℕ} (hn : 0 < n)
    (hle : n ≤ blocks.length) : ((RollingUtxoHash.new windowBlocks).blocks blocks).1[n - 1]? =
      some (hexEncode (windowDigest windowBlocks (blocks.take n)).bytes) := by
  rw [(windowed_new windowBlocks).blocks hpos blocks, List.getElem?_map,
    List.getElem?_range (by omega), Option.map_some, Nat.sub_add_cancel hn, List.nil_append,
    xorFold_blockDigest]
  rfl

omit [Sha256] in
theorem flatten_perm {past past' : List (List UtxoEvent)} (h : List.Forall₂ List.Perm past past') :
    past.flatten.Perm past'.flatten := by
  induction h with
  | nil => exact List.Perm.refl _
  | cons hhead _ ih => exact hhead.append ih

theorem windowDigest_perm {past past' : List (List UtxoEvent)} (h : List.Forall₂ List.Perm past past') :
    windowDigest windowBlocks past = windowDigest windowBlocks past' := by
  refine toggle_xorInto.foldl_perm (List.Perm.map _ ?_)
  rw [h.length_eq]
  exact flatten_perm (List.forall₂_drop _ h)

/-- The accumulator is the XOR of the events of the last blocks, at most `windowBlocks` of them:
the order inside a block does not matter, and older blocks leave no trace. -/
theorem rolling_window (windowBlocks : ℕ) (hpos : 0 < windowBlocks) :
    (∀ (blocks : List (List UtxoEvent)) (n : ℕ), 0 < n → n ≤ blocks.length →
      ∃ older recent, blocks.take n = older ++ recent ∧ recent.length = min n windowBlocks ∧
        ((RollingUtxoHash.new windowBlocks).blocks blocks).1[n - 1]? =
          some (hexEncode (xorAll (recent.flatten.map UtxoEvent.digest)).bytes)) ∧
    (∀ blocks blocks' : List (List UtxoEvent), List.Forall₂ List.Perm blocks blocks' →
      ((RollingUtxoHash.new windowBlocks).blocks blocks).1 =
        ((RollingUtxoHash.new windowBlocks).blocks blocks').1) ∧
    ∀ (older older' recent : List (List UtxoEvent)) (n : ℕ), windowBlocks ≤ n → n ≤ recent.length →
      ((RollingUtxoHash.new windowBlocks).blocks (older ++ recent)).1[older.length + n - 1]? =
        ((RollingUtxoHash.new windowBlocks).blocks (older' ++ recent)).1[older'.length + n - 1]? := by
  refine ⟨?_, ?_, ?_⟩
  · intro blocks n hn hle
    have hlen : (blocks.take n).length = n := List.length_take_of_le hle
    refine ⟨(blocks.take n).take (n - windowBlocks), (blocks.take n).drop (n - windowBlocks),
      (List.take_append_drop _ _).symm, ?_, ?_⟩
    · rw [List.length_drop, hlen]
      omega
    · rw [blocks_get hpos hn hle, windowDigest, hlen, xorFold_eq]
  · intro blocks blocks' hperm
    have hlen := hperm.length_eq
    have hall : ∀ blocks : List (List UtxoEvent), ((RollingUtxoHash.new windowBlocks).blocks blocks).1.length =
        blocks.length := by
      intro blocks
      rw [(windowed_new windowBlocks).blocks hpos blocks, List.length_map, List.length_range]
    apply List.ext_getElem?
    intro i
    by_cases hi : i < blocks.length
    · have hget := @blocks_get _ windowBlocks hpos blocks (i + 1) (Nat.succ_pos i) hi
      have hget' := @blocks_get _ windowBlocks hpos blocks' (i + 1) (Nat.succ_pos i) (hlen ▸ hi)
      rw [Nat.add_sub_cancel] at hget hget'
      rw [hget, hget', windowDigest_perm (List.forall₂_take _ hperm)]
    · rw [List.getElem?_eq_none (by rw [hall]; omega), List.getElem?_eq_none (by rw [hall]; omega)]
  · intro older older' recent n hw hn
    have hlast : ∀ older : List (List UtxoEvent), windowDigest windowBlocks ((older ++ recent).take (older.length + n)) =
        xorFold (((recent.take n).drop (n - windowBlocks)).flatten.map UtxoEvent.digest) := by
      intro older
      have hlen : (recent.take n).length = n := List.length_take_of_le hn
      rw [List.take_length_add_append, windowDigest, List.length_append, hlen,
        Nat.add_sub_assoc hw, List.drop_length_add_append]
    rw [blocks_get hpos (by omega) (by rw [List.length_append]; omega),
      blocks_get hpos (by omega) (by rw [List.length_append]; omega), hlast, hlast]

end

/-- SHA-256 of `add` and `rem` with the number 1, and of `add` with the number 2. -/
def addedFirst : FixedBytes 32 :=
  ⟨[0x59, 0x65, 0x55, 0x18, 0xd7, 0xa9, 0xa0, 0x64, 0x71, 0x2d, 0xa3, 0xf9, 0xd6, 0x13, 0x63, 0x5b,
    0x4b, 0xf3, 0x89, 0x93, 0x51, 0xd8, 0x72, 0xff, 0x8e, 0x36, 0x3b, 0x91, 0x67, 0xe5, 0x9f, 0xac], rfl⟩

def removedFirst : FixedBytes 32 :=
  ⟨[0xfe, 0x94, 0x28, 0xed, 0xae, 0xf8, 0x88, 0x38, 0xa2, 0x91, 0x4f, 0x58, 0xcc, 0x05, 0x06, 0x44,
    0x12, 0x8e, 0x31, 0xbb, 0xc4, 0x63, 0x6e, 0x59, 0xe1, 0x93, 0x0f, 0xf4, 0x22, 0x81, 0x77, 0xbd], rfl⟩

def addedSecond : FixedBytes 32 :=
  ⟨[0x4d, 0x0a, 0xf1, 0xf1, 0x47, 0xf5, 0xdc, 0xd1, 0x6b, 0xcf, 0xe4, 0x84, 0x13, 0xae, 0x44, 0xf8,
    0xb0, 0x28, 0x80, 0x43, 0x6d, 0xa1, 0x1e, 0xf3, 0x32, 0xba, 0xfe, 0x13, 0xff, 0x73, 0x37, 0x22], rfl⟩

@[reducible] def tableSha256 : Sha256 where
  digest message :=
    if message = [0x61, 0x64, 0x64] ++ u64ToBeBytes 1 then addedFirst
    else if message = [0x72, 0x65, 0x6d] ++ u64ToBeBytes 1 then removedFirst
    else addedSecond

section
attribute [local instance] tableSha256

/-- A window of one block after two blocks, their events in another order, and another first block. -/
theorem rolling_window_sample :
    (∃ older recent, [[UtxoEvent.addOutput 1], [.removeOutput 1, .addOutput 2]] = older ++ recent ∧
      recent.length = 1 ∧
      ((RollingUtxoHash.new 1).blocks [[.addOutput 1], [.removeOutput 1, .addOutput 2]]).1[1]? =
        some (hexEncode (xorAll (recent.flatten.map UtxoEvent.digest)).bytes)) ∧
    ((RollingUtxoHash.new 1).blocks [[.addOutput 1], [.removeOutput 1, .addOutput 2]]).1 =
      ((RollingUtxoHash.new 1).blocks [[.addOutput 1], [.addOutput 2, .removeOutput 1]]).1 ∧
    ((RollingUtxoHash.new 1).blocks [[.addOutput 1], [.removeOutput 1, .addOutput 2]]).1[1]? =
      ((RollingUtxoHash.new 1).blocks [[.addOutput 3], [.addOutput 4], [.removeOutput 1, .addOutput 2]]).1[2]? := by
  refine ⟨?_, ?_, ?_⟩
  · exact (rolling_window 1 (by decide)).1 [[.addOutput 1], [.removeOutput 1, .addOutput 2]] 2 (by decide) (by decide)
  · exact (rolling_window 1 (by decide)).2.1 [[.addOutput 1], [.removeOutput 1, .addOutput 2]]
      [[.addOutput 1], [.addOutput 2, .removeOutput 1]] (.cons (.refl _) (.cons (.swap _ _ _) .nil))
  · exact (rolling_window 1 (by decide)).2.2 [[.addOutput 1]] [[.addOutput 3], [.addOutput 4]]
      [[.removeOutput 1, .addOutput 2]] 1 (by decide) (by decide)

end

end BitcoinData.Stats
