import BitcoinData.Sanity.Stats.Ids
import BitcoinData.Sanity.Stats.Measure
import BitcoinData.Sanity.Stats.Sample

/-! The stats scan never trips its own assertions, whatever blocks it is given: the spent IDs of a
block are distinct and none lies above the last ID, no spend is counted inside its own transaction,
and a spend is counted as one of the same block exactly when the block created the output. -/

namespace BitcoinData.Stats

open Lib

/-! ## Measuring a stream -/

theorem streamSafe_of_nodup {uids : List ℕ} {anchor : ℕ} (hnd : uids.Nodup)
    (hle : ∀ uid ∈ uids, uid ≤ anchor) : StreamSafe uids anchor :=
  ⟨(sorted_ascending hnd).isChain, hle⟩

theorem StreamSafe.measure {uids : List ℕ} {anchor : ℕ} (h : StreamSafe uids anchor)
    (hanchor : anchor < U64_MAX) (stats : SortedUidCodecStats) :
    ∃ r, measureSortedUidStream uids anchor stats = .ok r := by
  cases hsort : uids.insertionSort (· ≤ ·) with
  | nil =>
    unfold measureSortedUidStream
    rw [hsort]
    exact ⟨_, rfl⟩
  | cons first rest =>
    have hnd : uids.Nodup := (List.perm_insertionSort (· ≤ ·) uids).nodup_iff.mp
      (h.ascending.pairwise.imp fun hlt => ne_of_lt hlt)
    have hlast := h.le_anchor _ (sorted_last_mem hsort)
    exact measureSortedUidStream_isOk hnd hsort (h.le_anchor first (sorted_first_mem hsort)) (by omega)
      (by omega) stats

section
variable [Sha256] {b n : ℕ} {origins : Origins} {state : StatsScannerState}

/-! ## One block -/

omit [Sha256] in
theorem IdInv.streams {perBlock : PerBlock} (h : IdInv b n origins perBlock state) :
    StreamSafe perBlock.spentUids state.lastId ∧ StreamSafe perBlock.p2trSpentUids state.lastId :=
  ⟨streamSafe_of_nodup h.alloc.freed_nodup h.alloc.freed_le,
    streamSafe_of_nodup (h.p2tr.nodup h.alloc.freed_nodup) fun uid hu =>
      h.alloc.freed_le uid (h.p2tr.subset hu)⟩

omit [Sha256] in
/-- The next block begins: every live output is older than it. -/
theorem IdInv.next {perBlock : PerBlock} {state' : StatsScannerState}
    (h : IdInv b n origins perBlock state)
    (hutxo : state'.utxo = state.utxo) (hlast : state'.lastId = state.lastId)
    (hctx : ContextStep state.stats state'.stats 0 0) :
    IdInv (b + 1) state'.lastId origins .default state' := by
  refine ⟨by rw [hlast]; exact h.bound, le_refl _, ?_, List.Sublist.refl _, fun o e he => ?_,
    fun o ho => ?_,
    hctx.sameTx.trans h.sameTx, hctx.p2trSameTx.trans h.p2trSameTx⟩
  · rw [hutxo, hlast]
    exact h.alloc.restart
  · rw [hutxo] at he
    obtain ⟨c, hc, ho, -⟩ := h.live o e he
    have hle := h.alloc.le_last o e he
    refine ⟨c, by omega, ho, ?_⟩
    rw [hlast]
    constructor
    · intro hlt
      omega
    · intro heq
      omega
  · rw [hutxo] at ho
    exact h.gone o ho

theorem processBlock_of_idInv (window : ℕ) (h : IdInv b state.lastId origins .default state)
    (frame : PreparedBlockFrame)
    (hroom : state.lastId + (frame.txs.map PreparedTx.outputCount).sum < 2 ^ 60) :
    ∃ state' row, processBlock window state frame = .ok (state', row) ∧
      state'.lastId = state.lastId + (frame.txs.map PreparedTx.outputCount).sum ∧
      IdInv (b + 1) state'.lastId (frame.txs.foldl (Origins.tx b) origins) .default state' := by
  have hstart : IdInv b state.lastId origins (state, PerBlock.default).2 (state,
      PerBlock.default).1 := h
  obtain ⟨hinv, hlast⟩ := hstart.processTxs frame.txs hroom
  obtain ⟨hspent, hp2tr⟩ := hinv.streams
  unfold Stats.processBlock
  dsimp only
  set acc := frame.txs.foldl (processTx state.lastId) (state, PerBlock.default) with hacc
  have hanchor : acc.1.lastId < U64_MAX := lt_trans hinv.bound (by decide)
  obtain ⟨⟨all, sortedSpentIds⟩, hall⟩ := hspent.measure hanchor acc.1.stats.sortedSpentIds
  obtain ⟨⟨p2tr, sortedP2trSpentIds⟩, hp2tr⟩ := hp2tr.measure hanchor acc.1.stats.sortedP2trSpentIds
  unfold PerBlock.measureSortedUidEncoding
  rw [hall, ok_bind]
  dsimp only
  rw [hp2tr, ok_bind]
  exact ⟨_, _, rfl, hlast, hinv.next rfl rfl ⟨rfl, rfl, rfl, rfl⟩⟩

theorem blockSafe_of_idInv (h : IdInv b state.lastId origins .default state)
    (frame : PreparedBlockFrame)
    (hroom : state.lastId + (frame.txs.map PreparedTx.outputCount).sum < 2 ^ 60) :
    BlockSafe b origins state frame := by
  have hstart : IdInv b state.lastId origins (state, PerBlock.default).2 (state,
      PerBlock.default).1 := h
  obtain ⟨hinv, hlast⟩ := hstart.processTxs frame.txs hroom
  obtain ⟨hspent, hp2tr⟩ := hinv.streams
  refine ⟨by rw [hlast]; exact Nat.le_add_right _ _, hspent, hp2tr, ?_⟩
  intro txs tx rest htxs _ before input after _
  rw [htxs, List.map_append, List.sum_append] at hroom
  obtain ⟨hbefore, -⟩ := hstart.processTxs txs (by simp only; omega)
  set acc := txs.foldl (processTx state.lastId) (state, PerBlock.default) with hacc
  have hloop : IdInv b state.lastId (txs.foldl (Origins.tx b) origins)
      (⟨acc.1, acc.2, false, false, false⟩ : InputLoop).perBlock
      (⟨acc.1, acc.2, false, false, false⟩ : InputLoop).state := hbefore
  obtain ⟨hinputs, hat⟩ := hloop.processInputs rfl before
  refine ⟨hinputs.idsSafe, ?_⟩
  obtain ⟨-, -, hcount⟩ := hinputs.processInput hat.symm input
  unfold inputLoopAt
  rw [List.foldl_append, ← hacc]
  exact hcount

/-! ## The run -/

def preparedOutputs (frames : List PreparedBlockFrame) : ℕ :=
  (frames.map fun frame => (frame.txs.map PreparedTx.outputCount).sum).sum

theorem runBlocks_of_idInv (window : ℕ) (frames : List PreparedBlockFrame)
    (h : IdInv b state.lastId origins .default state)
    (hroom : state.lastId + preparedOutputs frames < 2 ^ 60) :
    ∃ rows state', runBlocks window state frames = (rows, .ok state') ∧ rows.length = frames.length ∧
      state'.lastId = state.lastId + preparedOutputs frames ∧
      IdInv (b + frames.length) state'.lastId (Origins.blocks b origins frames) .default state' := by
  induction frames generalizing b origins state with
  | nil => exact ⟨[], state, rfl, rfl, rfl, h⟩
  | cons frame frames ih =>
    rw [preparedOutputs, List.map_cons, List.sum_cons, ← preparedOutputs] at hroom ⊢
    obtain ⟨state₁, row, hblock, hlast, hinv⟩ := processBlock_of_idInv window h frame (by omega)
    obtain ⟨rows, state', hrun, hrows, hlast', hinv'⟩ := ih hinv (by omega)
    refine ⟨row :: rows, state', ?_, by rw [List.length_cons, hrows, List.length_cons], by omega, ?_⟩
    · rw [runBlocks, hblock]
      dsimp only
      rw [hrun]
    · rw [List.length_cons, Nat.add_comm frames.length 1, ← Nat.add_assoc]
      exact hinv'

omit [Sha256] in
theorem idInv_new (window : ℕ) : IdInv 0 0 ∅ .default (.new window) where
  bound := Nat.two_pow_pos 60
  start_le := le_refl 0
  alloc := allocated_empty
  p2tr := List.Sublist.refl _
  live o e h := by simp [StatsScannerState.new] at h
  gone o _ := Finmap.lookup_empty o
  sameTx := rfl
  p2trSameTx := rfl

omit [Sha256] in
theorem preparedOutputs_prepare (blocks : List DecodedBlockFrame) :
    preparedOutputs (blocks.map prepareDecodedBlock) =
      (blocks.map fun block => (block.txdata.map fun tx => tx.output.length).sum).sum := by
  rw [preparedOutputs, List.map_map]
  congr 1
  refine List.map_congr_left fun block _ => ?_
  rw [Function.comp_apply, prepareDecodedBlock, List.map_map]
  congr 1
  refine List.map_congr_left fun tx _ => ?_
  simp [PreparedTx.outputCount, prepareTx]

/-- Any sequence of decoded blocks with fewer than `2 ^ 60` outputs is scanned to its end. Before each
input of each block, and after the last block, the IDs are safe; the spent IDs of every block can be
measured; and the same-block counters follow the blocks. -/
theorem stats_scan_safe (window : ℕ) (blocks : List DecodedBlockFrame)
    (hcount : (blocks.map fun block => (block.txdata.map fun tx => tx.output.length).sum).sum < 2 ^ 60) :
    (∃ rows state, runBlocks window (.new window) (blocks.map prepareDecodedBlock) = (rows, .ok state) ∧
      rows.length = blocks.length ∧ IdsSafe state) ∧
    ∀ before block after, blocks = before ++ block :: after →
      ∃ rows state, runBlocks window (.new window) (before.map prepareDecodedBlock) = (rows, .ok state) ∧
        IdsSafe state ∧ BlockSafe before.length
          (Origins.blocks 0 ∅ (before.map prepareDecodedBlock)) state (prepareDecodedBlock block) := by
  have hnew : IdInv 0 (StatsScannerState.new window).lastId ∅ .default (.new window) :=
    idInv_new window
  have hzero : (StatsScannerState.new window).lastId = 0 := rfl
  rw [← preparedOutputs_prepare] at hcount
  refine ⟨?_, fun before block after hsplit => ?_⟩
  · obtain ⟨rows, state, hrun, hrows, -, hinv⟩ := runBlocks_of_idInv window
      (blocks.map prepareDecodedBlock) hnew (by omega)
    exact ⟨rows, state, hrun, by rw [hrows, List.length_map], hinv.idsSafe⟩
  · rw [hsplit, List.map_append, List.map_cons, preparedOutputs, List.map_append, List.sum_append,
      List.map_cons, List.sum_cons, ← preparedOutputs] at hcount
    obtain ⟨rows, state, hrun, -, hlast, hinv⟩ := runBlocks_of_idInv window
      (before.map prepareDecodedBlock) hnew (by omega)
    rw [List.length_map, Nat.zero_add] at hinv
    exact ⟨rows, state, hrun, hinv.idsSafe, blockSafe_of_idInv hinv _ (by omega)⟩

end

section
attribute [local instance] sampleSha256

/-- A transaction that spends the output of the coinbase before it, the same spend again, and the
coinbase a second time. -/
def oddBlock : DecodedBlockFrame :=
  { height := 7
    hash := FixedBytes.fill 32 7
    txdata := [sampleCoinbase 7, sampleSpend 8, sampleSpend 8, sampleCoinbase 7] }

theorem oddBlock_scan_safe : ∃ rows state,
    runBlocks 0 (.new 0) ([oddBlock].map prepareDecodedBlock) = (rows, .ok state) ∧ rows.length = 1 ∧
      IdsSafe state ∧ state.lastId = 4 ∧ state.stats.sameBlockSpends = 1 ∧ state.missing = 1 := by
  obtain ⟨⟨rows, state, hrun, hrows, hsafe⟩, -⟩ := stats_scan_safe 0 [oddBlock] (by decide +kernel)
  have hfacts : ((runBlocks 0 (.new 0) ([oddBlock].map prepareDecodedBlock)).2.toOption.any fun state =>
      decide (state.lastId = 4 ∧ state.stats.sameBlockSpends = 1 ∧ state.missing = 1)) = true := by
    decide +kernel
  rw [hrun] at hfacts
  exact ⟨rows, state, hrun, hrows, hsafe, of_decide_eq_true hfacts⟩

end

end BitcoinData.Stats
