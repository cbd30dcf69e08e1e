import BitcoinData.Proofs.RestNode
import BitcoinData.Spec.IpcChain

/-! The sources of an indexer over IPC. The blocks come from the Chain interface of a node and their
undo data from its REST interface, and together they serve the chain. -/

namespace BitcoinData

open Lib

theorem tryI32_of_le {height : ℕ} (h : height ≤ I32_MAX) : tryI32 height = .ok (height : ℤ) := if_pos h

theorem dataToHash_bytes (hash : BlockHashBytes) (field : String) :
    dataToHash hash.bytes field = .ok hash := dif_pos hash.length_eq

section
variable {startHeight : ℕ} {chain : List NodeBlock} {client : ChainClient}

/-- The frame of a block without its undo data. -/
def bareFrame (block : NodeBlock × ℕ) : RawBlockFrame :=
  { height := block.2
    hash := block.1.block.blockHash
    bytes := block.1.bytes
    spentTxouts := none }

theorem IpcNode.getBlockByHeight_ok (hi : IpcNode startHeight chain client)
    (hheights : startHeight + chain.length ≤ I32_MAX + 1) {p : NodeBlock × ℕ}
    (hp : p ∈ chain.zipIdx startHeight) : client.getBlockByHeight p.2 = .ok (bareFrame p) := by
  obtain ⟨hle, hget⟩ := List.mk_mem_zipIdx_iff_le_and_getElem?_sub.mp hp
  have hanswer := hi.block _ p.1 hget
  rw [Nat.add_sub_cancel' hle] at hanswer
  have hlt := (List.getElem?_eq_some_iff.mp hget).1
  rw [ChainClient.getBlockByHeight, tryI32_of_le (by omega), ok_bind, hanswer]
  simp only [ok_bind, okOr, dataToHash_bytes, pure_eq_ok]
  rfl

theorem IpcNode.getBlockByHeight_beyond (hi : IpcNode startHeight chain client) {height : ℕ}
    (hbeyond : startHeight + chain.length ≤ height) : ∃ e, client.getBlockByHeight height = .error e := by
  unfold ChainClient.getBlockByHeight tryI32
  split_ifs with hfits
  · rw [ok_bind, hi.beyond height hbeyond]
    exact ⟨_, rfl⟩
  · exact ⟨_, rfl⟩

variable [HexCrate] {source : RestSource}

/-- Frames come without undo data, and the undo source has all of it. -/
theorem ipc_bundle_serves (hi : IpcNode startHeight chain client) (hn : RestNode startHeight chain source)
    (hhex : DecodesHex) (hheights : startHeight + chain.length ≤ I32_MAX + 1)
    {undoSchedule : RestSchedule} (hup : undoSchedule.Possible) :
    ServesFrames startHeight chain client.toBlockSource (source.toBlockSource undoSchedule) where
  range first count hstart hcount hend := by
    have hfits : I32_MAX ≤ U64_MAX := by decide
    refine ⟨(((chain.drop (first - startHeight)).take count).zipIdx first).map bareFrame, ?_, ?_⟩
    · refine range_mapM_iff.mpr ⟨fun offset hlt => by omega, ?_⟩
      rw [← slice_numbers hstart fun _ => hend, List.mapM_map]
      exact mapM_eq_map fun p hp =>
        orFailed_eq_ok.mpr (hi.getBlockByHeight_ok hheights (mem_of_mem_slice hstart hp))
    · rw [List.forall₂_map_right_iff, List.forall₂_same]
      exact fun p _ => ⟨rfl, rfl, rfl, .inl rfl⟩
  beyond first count hstart hcount hend := by
    cases h : client.toBlockSource.getBlockRangeByHeight first count with
    | error e => exact ⟨e, rfl⟩
    | ok frames =>
      obtain ⟨-, hframes⟩ := range_mapM_iff.mp h
      have hlast : first + count - 1 ∈ List.range' first count := by
        rw [List.mem_range'_1]
        omega
      obtain ⟨frame, hframe⟩ := ok_of_mem_mapM hframes hlast
      obtain ⟨e, he⟩ := hi.getBlockByHeight_beyond (show _ ≤ first + count - 1 by omega)
      rw [orFailed_eq_ok, he] at hframe
      cases hframe
  undo blocks hne hsub := hn.undo_ok hhex hup hne hsub

end

/-! ## Samples -/

def sampleChainClient : ChainClient where
  getHeight := .ok (some 101)
  getBlockHash height := .error s!"IPC Chain.getBlockHash({height}) failed"
  findFirstBlockWithTimeAndHeight _ height := .ok
    ((sampleNodeChain.zipIdx 100).findSome? fun block =>
      if (block.2 : ℤ) = height then
        some ⟨true, height, .ok block.1.block.blockHash.bytes, .ok block.1.bytes⟩
      else none)
  findBlock _ := .ok none

theorem sampleIpcNode : IpcNode 100 sampleNodeChain sampleChainClient where
  block k block hblock := by
    have hk : k < 2 := (List.getElem?_eq_some_iff.mp hblock).1
    interval_cases k
    · obtain rfl := Option.some.inj hblock
      rfl
    · obtain rfl := Option.some.inj hblock
      rfl
  beyond height h := by
    have hlarge : 102 ≤ height := h
    change Except.ok (List.findSome? _ _) = _
    rw [Except.ok.injEq, List.findSome?_eq_none_iff]
    intro p hp
    obtain ⟨hle, hget⟩ := List.mk_mem_zipIdx_iff_le_and_getElem?_sub.mp hp
    have hlt : p.2 - 100 < 2 := (List.getElem?_eq_some_iff.mp hget).1
    exact if_neg (by omega)

section
attribute [local instance] sampleHexCrate

theorem ipc_bundle_serves_sample : ServesFrames 100 sampleNodeChain sampleChainClient.toBlockSource
    (sampleRestSource.toBlockSource swappedRest) :=
  ipc_bundle_serves sampleIpcNode sampleRestNode sampleHexCrate_decodes (by decide) swappedRest_possible

end

end BitcoinData
