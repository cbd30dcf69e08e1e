import BitcoinData.Proofs.IpcNode
import BitcoinData.Proofs.RestScan

/-! A scan over IPC commits the blocks of the node. The blocks of a batch are fetched one by one,
beside each other, and sorted when all are there. -/

namespace BitcoinData.Stats

open Lib

section
variable [ConsensusDecode] {startHeight : ℕ} {chain : List NodeBlock} {client : ChainClient}

theorem attachIpc_block (hi : IpcNode startHeight chain client) (hdecode : DecodesChain chain)
    (hheights : startHeight + chain.length ≤ I32_MAX + 1) {height : ℕ} (hstart : startHeight ≤ height)
    (hend : height < startHeight + chain.length) :
    (attachIpc client).getBlockByHeight height = .ok (blockAt startHeight chain height) := by
  have hlt : height - startHeight < chain.length := by omega
  have hget := List.getElem?_eq_getElem hlt
  set block := chain[height - startHeight] with hblock
  have hmem : (block, height) ∈ chain.zipIdx startHeight :=
    List.mk_mem_zipIdx_iff_le_and_getElem?_sub.mpr ⟨hstart, hget⟩
  have hframe : client.getBlockByHeight height = .ok (bareFrame (block, height)) :=
    hi.getBlockByHeight_ok hheights hmem
  change ((orFailed (client.getBlockByHeight height)).mapError _ >>= _) = _
  rw [hframe, blockAt, hget]
  exact hdecode.decodeRawBlock (p := (block, height)) (fst_mem_of_mem_zipIdx hmem) rfl

theorem fetchesBlocks_ipc (hi : IpcNode startHeight chain client) (hdecode : DecodesChain chain)
    (hheights : startHeight + chain.length ≤ I32_MAX + 1) {schedule : Schedule} {limit : ℕ}
    (hpossible : schedule.Possible limit) {best : ℕ} (hlast : best + 1 = startHeight + chain.length) :
    FetchesBlocks (attachIpc client) schedule (blockAt startHeight chain) startHeight best := by
  intro start count hstart _ hend
  have hbound : I32_MAX + 1 ≤ U64_MAX := by decide
  refine fetchAndPrepareBatchIn_heights hpossible (by omega) rfl (fun height hheight => ?_)
    fun height _ => blockAt_height startHeight chain height
  have hmem := List.mem_range'_1.mp hheight
  exact attachIpc_block hi hdecode hheights (by omega) (by omega)

variable [Sha256] {cfg : ScanConfig} {schedule : Schedule} {dir : CheckpointDir}
  {restored : Option StatsCheckpoint}

/-- A scan over IPC commits the blocks of the node one after the other, in whatever order the blocks
of a batch are ready. From a state that earlier blocks have led to, it comes to its end, with one row
for each height. -/
theorem ipc_scan_exact (hi : IpcNode startHeight chain client) (hdecode : DecodesChain chain)
    (hheights : startHeight + chain.length ≤ I32_MAX + 1) (buffer : ℕ)
    (hpossible : schedule.Possible (cfg.inFlight buffer)) {best : ℕ}
    (hlast : best + 1 = startHeight + chain.length) (hbest : client.getHeight = .ok (some (best : ℤ)))
    (hresume : resumedFrom (attachIpc client) cfg dir = .ok restored)
    (hstart : startHeight ≤ scanStart cfg restored) :
    (emittedRows (scanIn (attachIpc client) cfg schedule dir).effects,
        (scanIn (attachIpc client) cfg schedule dir).result) =
      runBlocks cfg.utxoHashWindow (startState cfg restored)
        ((nodeFrames startHeight chain (scanStart cfg restored) (cfg.maxEnd best)).map
          prepareDecodedBlock) ∧
    ∀ earlier rows,
      runBlocks cfg.utxoHashWindow (.new cfg.utxoHashWindow) (earlier.map prepareDecodedBlock) =
        (rows, .ok (startState cfg restored)) →
      ((earlier ++ nodeFrames startHeight chain (scanStart cfg restored) (cfg.maxEnd best)).map fun b =>
        (b.txdata.map fun tx => tx.output.length).sum).sum < 2 ^ 60 →
      (emittedRows (scanIn (attachIpc client) cfg schedule dir).effects).map (·.height) =
          List.range' (scanStart cfg restored) (cfg.maxEnd best + 1 - scanStart cfg restored) ∧
        ∃ state, (scanIn (attachIpc client) cfg schedule dir).result = .ok state := by
  have hbound : I32_MAX + 1 ≤ U64_MAX := by decide
  have htip : (attachIpc client).getBestHeight = .ok best := by
    change client.getBestHeight = _
    rw [ChainClient.getBestHeight, hbest, ok_bind, okOr, ok_bind, ensure_of (Int.natCast_nonneg best),
      ok_bind, pure_eq_ok, Int.toNat_natCast]
  exact (fetchesBlocks_ipc hi hdecode hheights hpossible hlast).scan_node (by omega) hlast htip hresume
    hstart

end

section
attribute [local instance] sampleConsensusDecode sampleSha256

/-- The second block of the batch is ready first. -/
theorem ipc_scan_sample :
    (emittedRows (scanIn (attachIpc sampleChainClient) (pairsConfig 100 5) swapped
        []).effects).map (·.height) = [100, 101] ∧
      ∃ state, (scanIn (attachIpc sampleChainClient) (pairsConfig 100 5) swapped
        []).result = .ok state := by
  have hresume : resumedFrom (attachIpc sampleChainClient) (pairsConfig 100 5) [] = .ok none := rfl
  have hpossible : swapped.Possible ((pairsConfig 100 5).inFlight 2) := swapped_possible (by decide)
  obtain ⟨-, hrows⟩ := ipc_scan_exact sampleIpcNode sampleNodeChain_decodes (by decide) 2 hpossible
    (show 101 + 1 = 100 + sampleNodeChain.length from rfl) rfl hresume (show 100 ≤ 100 from le_rfl)
  exact hrows [] [] rfl (by decide)

end

end BitcoinData.Stats
