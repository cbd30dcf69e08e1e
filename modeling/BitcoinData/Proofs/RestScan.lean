import BitcoinData.Proofs.Pipeline
import BitcoinData.Proofs.RestNode
import BitcoinData.Spec.Stats.Attached

/-! A scan over the REST interface of a node commits the blocks of the node. It never asks for an
empty batch nor for heights outside its range, so what the source answers elsewhere does not
matter. -/

namespace BitcoinData.Stats

open Lib

/-! ## The blocks of a node -/

/-- The block of a height, and an empty one where the node has none. -/
def blockAt (startHeight : ℕ) (chain : List NodeBlock) (height : ℕ) : DecodedBlockFrame :=
  match chain[height - startHeight]? with
  | some block => nodeFrame (block, height)
  | none => { height, hash := FixedBytes.fill 32 0, txdata := [] }

theorem blockAt_height (startHeight : ℕ) (chain : List NodeBlock) (height : ℕ) :
    (blockAt startHeight chain height).height = height := by
  unfold blockAt
  cases chain[height - startHeight]? <;> rfl

theorem map_nodeFrame {startHeight : ℕ} {chain : List NodeBlock} {first count : ℕ}
    (hstart : startHeight ≤ first) (hend : 0 < count → first + count ≤ startHeight + chain.length) :
    (((chain.drop (first - startHeight)).take count).zipIdx first).map nodeFrame =
      (List.range' first count).map (blockAt startHeight chain) := by
  rw [← slice_numbers hstart hend, List.map_map]
  refine List.map_congr_left fun p hp => ?_
  obtain ⟨-, hget⟩ := List.mk_mem_zipIdx_iff_le_and_getElem?_sub.mp (mem_of_mem_slice hstart hp)
  rw [Function.comp_apply, blockAt, hget]

section
variable [Sha256] {cfg : ScanConfig} {schedule : Schedule} {dir : CheckpointDir}
  {restored : Option StatsCheckpoint} {startHeight : ℕ} {chain : List NodeBlock}

theorem FetchesBlocks.scan_node {source : BlockSource} {best : ℕ}
    (h : FetchesBlocks source schedule (blockAt startHeight chain) startHeight best)
    (hheights : startHeight + chain.length ≤ U64_MAX) (hlast : best + 1 = startHeight + chain.length)
    (hbest : source.getBestHeight = .ok best) (hresume : resumedFrom source cfg dir = .ok restored)
    (hstart : startHeight ≤ scanStart cfg restored) :
    (emittedRows (scanIn source cfg schedule dir).effects, (scanIn source cfg schedule dir).result) =
      runBlocks cfg.utxoHashWindow (startState cfg restored)
        ((nodeFrames startHeight chain (scanStart cfg restored) (cfg.maxEnd best)).map
          prepareDecodedBlock) ∧
    ∀ earlier rows,
      runBlocks cfg.utxoHashWindow (.new cfg.utxoHashWindow) (earlier.map prepareDecodedBlock) =
        (rows, .ok (startState cfg restored)) →
      ((earlier ++ nodeFrames startHeight chain (scanStart cfg restored) (cfg.maxEnd best)).map fun b =>
        (b.txdata.map fun tx => tx.output.length).sum).sum < 2 ^ 60 →
      (emittedRows (scanIn source cfg schedule dir).effects).map (·.height) =
          List.range' (scanStart cfg restored) (cfg.maxEnd best + 1 - scanStart cfg restored) ∧
        ∃ state, (scanIn source cfg schedule dir).result = .ok state := by
  have hmax := maxEnd_le cfg best
  have hframes : (nodeFrames startHeight chain (scanStart cfg restored) (cfg.maxEnd best)).map
      prepareDecodedBlock = preparedBlocks (blockAt startHeight chain) (scanStart cfg restored)
        (cfg.maxEnd best + 1 - scanStart cfg restored) := by
    rw [preparedBlocks_eq, nodeFrames, map_nodeFrame hstart (by omega)]
  have hexact := @FetchesBlocks.scanFromIn_run _ _ _ _ cfg _ _ _ h hmax (by omega) dir restored hstart
  rw [← hframes, ← scanIn_eq_scanFromIn hbest hresume] at hexact
  refine ⟨hexact, fun earlier rows hearlier hcount => ?_⟩
  obtain ⟨rows', state', hrun⟩ := runBlocks_of_reached hearlier hcount
  rw [hrun, Prod.mk.injEq] at hexact
  refine ⟨?_, state', hexact.2⟩
  rw [hexact.1, runBlocks_heights_ok hrun, hframes, preparedBlocks, List.map_map]
  exact (List.map_congr_left fun height _ => blockAt_height startHeight chain height).trans (List.map_id _)

end

section
variable [HexCrate] [ChainInfoJson] [ConsensusDecode]
variable {startHeight : ℕ} {chain : List NodeBlock} {source : RestSource} {rest : RestSchedule}

omit [HexCrate] [ChainInfoJson] in
theorem DecodesChain.decodeRawBlock (h : DecodesChain chain) {p : NodeBlock × ℕ} (hp : p.1 ∈ chain)
    {frame : RawBlockFrame} (hframe : { frame with spentTxouts := some p.1.undo } = fullFrame p) :
    decodeRawBlock frame = .ok (nodeFrame p) := by
  obtain ⟨behind, hdecode⟩ := h p.1 hp
  obtain ⟨height, hash, bytes, undo⟩ := frame
  obtain ⟨rfl, rfl, rfl, -⟩ := RawBlockFrame.mk.inj hframe
  change (ConsensusDecode.blockConsensusDecode p.1.bytes >>= _) = _
  rw [hdecode]
  rfl

theorem fetchesBlocks_rest (hn : RestNode startHeight chain source) (hhex : DecodesHex)
    (hdecode : DecodesChain chain) (hheights : startHeight + chain.length ≤ U64_MAX + 1)
    (hp : rest.Possible) {best : ℕ} (hbest : best + 1 = startHeight + chain.length)
    (schedule : Schedule) :
    FetchesBlocks (attachRest source rest) schedule (blockAt startHeight chain) startHeight best := by
  intro start count hstart hcount hend
  have hrange : (attachRest source rest).getBlockRangeByHeight start count =
      .ok ((List.range' start count).map (blockAt startHeight chain)) := by
    have hframes := hn.range_ok hhex hheights hp hstart hcount (hbest ▸ hend)
    change ((source.getBlockRangeByHeight rest start count).mapError _ >>= _) = _
    rw [hframes]
    change List.mapM Stats.decodeRawBlock (List.map fullFrame _) = _
    have hmap : ∀ p ∈ ((chain.drop (start - startHeight)).take count).zipIdx start,
        (Stats.decodeRawBlock ∘ fullFrame) p = .ok (nodeFrame p) := by
      intro p hp
      exact hdecode.decodeRawBlock (fst_mem_of_mem_zipIdx (mem_of_mem_slice hstart hp)) rfl
    rw [List.mapM_map, mapM_eq_map hmap, map_nodeFrame hstart fun _ => hbest ▸ hend]
  change ((attachRest source rest).getBlockRangeByHeight start count >>= _) = _
  rw [hrange, ok_bind, preparedBlocks_eq]
  rfl

variable [Sha256] {cfg : ScanConfig} {schedule : Schedule} {dir : CheckpointDir}
  {restored : Option StatsCheckpoint}

/-- A scan over the REST interface of a node commits the blocks of the node one after the other,
whatever the order in which the answers of a stage arrive. From a state that earlier blocks have led
to, it comes to its end, with one row for each height. -/
theorem rest_scan_exact (hn : RestNode startHeight chain source) (hhex : DecodesHex)
    (hdecode : DecodesChain chain) (hheights : startHeight + chain.length ≤ U64_MAX)
    (hp : rest.Possible) {best : ℕ} (hlast : best + 1 = startHeight + chain.length)
    (hbest : source.getBestHeight = .ok best)
    (hresume : resumedFrom (attachRest source rest) cfg dir = .ok restored)
    (hstart : startHeight ≤ scanStart cfg restored) :
    (emittedRows (scanIn (attachRest source rest) cfg schedule dir).effects,
        (scanIn (attachRest source rest) cfg schedule dir).result) =
      runBlocks cfg.utxoHashWindow (startState cfg restored)
        ((nodeFrames startHeight chain (scanStart cfg restored) (cfg.maxEnd best)).map
          prepareDecodedBlock) ∧
    ∀ earlier rows,
      runBlocks cfg.utxoHashWindow (.new cfg.utxoHashWindow) (earlier.map prepareDecodedBlock) =
        (rows, .ok (startState cfg restored)) →
      ((earlier ++ nodeFrames startHeight chain (scanStart cfg restored) (cfg.maxEnd best)).map fun b =>
        (b.txdata.map fun tx => tx.output.length).sum).sum < 2 ^ 60 →
      (emittedRows (scanIn (attachRest source rest) cfg schedule dir).effects).map (·.height) =
          List.range' (scanStart cfg restored) (cfg.maxEnd best + 1 - scanStart cfg restored) ∧
        ∃ state, (scanIn (attachRest source rest) cfg schedule dir).result = .ok state := by
  exact (fetchesBlocks_rest hn hhex hdecode (by omega) hp hlast schedule).scan_node hheights hlast hbest
    hresume hstart

end

/-! ## Samples -/

section
attribute [local instance] sampleHexCrate sampleSha256

@[reducible] def sampleConsensusDecode : ConsensusDecode where
  blockConsensusDecode bytes :=
    if bytes = firstBytes then .ok (firstRawBlock, [])
    else if bytes = secondBytes then .ok (secondRawBlock, [])
    else .error "unexpected end of file"

attribute [local instance] sampleConsensusDecode

theorem sampleNodeChain_decodes : DecodesChain sampleNodeChain := by
  have hne : secondBytes ≠ firstBytes := fun h =>
    absurd (congrArg (fun bytes : Bytes => bytes[4]?) h) (by decide)
  intro block hblock
  simp only [sampleNodeChain, List.mem_cons, List.not_mem_nil, or_false] at hblock
  rcases hblock with rfl | rfl
  · exact ⟨[], if_pos rfl⟩
  · exact ⟨[], (if_neg hne).trans (if_pos rfl)⟩

def sampleChainInfo : String := "\x7b\"chain\":\"regtest\",\"blocks\":101\x7d"

@[reducible] def sampleChainInfoJson : ChainInfoJson where
  fromStr text := if text = sampleChainInfo then .ok ⟨101⟩ else .error "expected value"

def sampleInfoSource : RestSource where
  base := ""
  send url :=
    if url = "/rest/chaininfo.json" then .ok ⟨true, "200 OK", sampleChainInfo, .ok []⟩
    else sampleRestSource.send url

theorem sampleInfoSource_send {path : String} (h : path.toList[6]? ≠ some 'c') :
    sampleInfoSource.getText path = sampleRestSource.getText path ∧
      sampleInfoSource.getBytes path = sampleRestSource.getBytes path := by
  have hpath : sampleInfoSource.url path ≠ "/rest/chaininfo.json" := by
    change "" ++ path ≠ _
    rw [String.empty_append]
    rintro rfl
    exact h rfl
  have hsend : sampleInfoSource.send (sampleInfoSource.url path) =
      sampleRestSource.send (sampleRestSource.url path) := if_neg hpath
  simp only [RestSource.getText, RestSource.getBytes, hsend]
  exact ⟨rfl, rfl⟩

theorem sampleInfoNode : RestNode 100 sampleNodeChain sampleInfoSource where
  hash k block hblock := by
    rw [(sampleInfoSource_send (by rw [hashPath_toList]; simp)).1]
    exact sampleRestNode.hash k block hblock
  beyond height h := by
    rw [(sampleInfoSource_send (by rw [hashPath_toList]; simp)).1]
    exact sampleRestNode.beyond height h
  block block hblock := by
    have hpath : (s!"/rest/block/{displayHash block.block.blockHash}.bin").toList[6]? = some 'b' := by
      rw [String.toList_append, String.toList_append, List.append_assoc]
      rfl
    rw [(sampleInfoSource_send (by rw [hpath]; decide)).2]
    exact sampleRestNode.block block hblock
  undo block hblock := by
    have hpath : (s!"/rest/spenttxouts/{displayHash block.block.blockHash}.bin").toList[6]? = some 's' := by
      rw [String.toList_append, String.toList_append, List.append_assoc]
      rfl
    rw [(sampleInfoSource_send (by rw [hpath]; decide)).2]
    exact sampleRestNode.undo block hblock
  held := sampleRestNode.held
  values := sampleRestNode.values

attribute [local instance] sampleChainInfoJson

/-- Both blocks, with the answers the other way round in every stage. -/
theorem rest_scan_sample :
    (emittedRows (scanIn (attachRest sampleInfoSource swappedRest) (pairsConfig 100 5) swapped
        []).effects).map (·.height) = [100, 101] ∧
      ∃ state, (scanIn (attachRest sampleInfoSource swappedRest) (pairsConfig 100 5) swapped
        []).result = .ok state := by
  have hbest : sampleInfoSource.getBestHeight = .ok 101 := by
    have hsend : sampleInfoSource.send (sampleInfoSource.url "/rest/chaininfo.json") =
        .ok ⟨true, "200 OK", sampleChainInfo, .ok []⟩ := by
      have hurl : sampleInfoSource.url "/rest/chaininfo.json" = "/rest/chaininfo.json" :=
        String.empty_append
      rw [hurl]
      simp only [sampleInfoSource, if_true]
    have htext : sampleInfoSource.getText "/rest/chaininfo.json" = .ok sampleChainInfo := by
      simp only [RestSource.getText, hsend]
      rfl
    have hinfo : ChainInfoJson.fromStr sampleChainInfo = .ok ⟨101⟩ := if_pos rfl
    rw [RestSource.getBestHeight, htext, ok_bind, hinfo]
    rfl
  have hresume : resumedFrom (attachRest sampleInfoSource swappedRest) (pairsConfig 100 5) [] =
      .ok none := by
    change (sampleInfoSource.getBestHeight >>= _) = _
    rw [hbest]
    rfl
  obtain ⟨-, hrows⟩ := rest_scan_exact sampleInfoNode sampleHexCrate_decodes sampleNodeChain_decodes
    (by decide) swappedRest_possible (show 101 + 1 = 100 + sampleNodeChain.length from rfl) hbest hresume
    (show 100 ≤ 100 from le_rfl)
  exact hrows [] [] rfl (by decide)

end

end BitcoinData.Stats
