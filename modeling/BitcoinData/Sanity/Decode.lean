import BitcoinData.Lib.Lists
import BitcoinData.Spec.Node

/-! What the decoder takes over from a block, and how undo data gets to the frames that miss it. -/

namespace BitcoinData

open Lib

/-! ## Scripts -/

/-- The pattern of a Taproot output is none of the patterns that are tried before it. -/
theorem classifyScript_p2tr {script : Bytes} (h : Stats.isP2tr script = true) :
    classifyScript script = .p2tr (copyBytes 32 ((script.drop 2).take 32)) := by
  have hshape : script.length = 34 ∧ [0x51, 0x20] <+: script := by
    simpa [Stats.isP2tr, List.isPrefixOf_iff_prefix] using h
  obtain ⟨hlen, rest, rfl⟩ := hshape
  have hother : Stats.isP2pkh ([0x51, 0x20] ++ rest) = false ∧ Stats.isP2sh ([0x51, 0x20] ++ rest) = false ∧
      Stats.isP2wpkh ([0x51, 0x20] ++ rest) = false ∧ Stats.isP2wsh ([0x51, 0x20] ++ rest) = false := by
    simp [Stats.isP2pkh, Stats.isP2sh, Stats.isP2wpkh, Stats.isP2wsh, List.isPrefixOf]
  obtain ⟨h₁, h₂, h₃, h₄⟩ := hother
  simp only [classifyScript, h₁, h₂, h₃, h₄, h, Bool.false_eq_true, if_false, if_true]

theorem isSome_extractP2trXonly (script : Bytes) :
    (extractP2trXonly script).isSome = Stats.isP2tr script := by
  unfold extractP2trXonly
  cases h : Stats.isP2tr script with
  | true =>
    rw [classifyScript_p2tr h]
    rfl
  | false =>
    unfold classifyScript
    simp only [h, Bool.false_eq_true, if_false]
    split_ifs <;> rfl

/-! ## Transactions -/

/-- A decoded transaction next to the one it comes from. -/
structure ScannedFrom (tx : Transaction) (index : ℕ) (scan : TxScanInput) : Prop where
  txid : scan.txid = tx.txid
  txIndex : scan.txIndex = UInt16.ofNat index
  inputs : scan.inputs = tx.input.map scanInput
  isP2tr : scan.outputs.map (·.isP2tr) = tx.output.map fun output => Stats.isP2tr output.scriptPubkey
  keys : ∀ output ∈ scan.outputs, output.isP2tr = true → ∃ key, output.p2trXonlyKey = some key

theorem scanOutput_eq_ok {output : TxOut × ℕ} {scan : TxOutputScan} (h : scanOutput output = .ok scan) :
    scan.isP2tr = Stats.isP2tr output.1.scriptPubkey ∧
      (scan.isP2tr = true → ∃ key, scan.p2trXonlyKey = some key) := by
  simp only [scanOutput, bind_eq_ok, pure_eq_ok, Except.ok.injEq] at h
  obtain ⟨vout, -, rfl⟩ := h
  exact ⟨isSome_extractP2trXonly _, fun hsome => Option.isSome_iff_exists.mp hsome⟩

theorem scanOutputs_isP2tr {outputs : List TxOut} {scans : List TxOutputScan} {n : ℕ}
    (h : List.Forall₂ (fun output scan => scanOutput output = .ok scan) (outputs.zipIdx n) scans) :
    scans.map (·.isP2tr) = outputs.map fun output => Stats.isP2tr output.scriptPubkey := by
  induction outputs generalizing n scans with
  | nil => rw [List.forall₂_nil_left_iff.mp h]; rfl
  | cons output outputs ih =>
    rw [List.zipIdx_cons] at h
    obtain ⟨scan, rest, hscan, hrest, rfl⟩ := List.forall₂_cons_left_iff.mp h
    rw [List.map_cons, List.map_cons, ih hrest, (scanOutput_eq_ok hscan).1]

theorem length_p2trSlots (block : BlockScanInput) :
    block.p2trSlots.length = (block.txs.map fun tx => tx.outputs.countP (·.isP2tr)).sum := by
  simp only [BlockScanInput.p2trSlots, List.length_flatMap, TxScanInput.p2trSlots, TxScanInput.slotsOf,
    List.length_map, List.countP_eq_length_filter]

theorem ScannedFrom.countP_isP2tr {tx : Transaction} {index : ℕ} {scan : TxScanInput}
    (h : ScannedFrom tx index scan) : scan.outputs.countP (·.isP2tr) =
      tx.output.countP fun output => Stats.isP2tr output.scriptPubkey := by
  have hmap := congrArg (List.countP id) h.isP2tr
  rwa [List.countP_map, List.countP_map] at hmap

section
variable [BitcoinCrate] [ScanPointCrypto]

theorem scanTx_eq_ok {undo : Option BlockSpentTxOuts} {tx : Transaction} {index : ℕ}
    {scan : TxScanInput} (h : scanTx undo (tx, index) = .ok scan) : ScannedFrom tx index scan := by
  simp only [scanTx, bind_eq_ok, pure_eq_ok, Except.ok.injEq] at h
  obtain ⟨outputs, houtputs, tweak, -, rfl⟩ := h
  refine ⟨rfl, rfl, rfl, scanOutputs_isP2tr (mapM_eq_ok.mp houtputs), ?_⟩
  intro output hmem
  obtain ⟨source, -, hsource⟩ := mem_of_mapM houtputs hmem
  exact (scanOutput_eq_ok hsource).2

theorem scanTxs_eq_ok {undo : Option BlockSpentTxOuts} {txdata : List Transaction} {n : ℕ}
    {scans : List TxScanInput}
    (h : List.Forall₂ (fun tx scan => scanTx undo tx = .ok scan) (txdata.zipIdx n) scans) :
    List.Forall₂ (fun tx scan => ScannedFrom tx.1 tx.2 scan) (txdata.zipIdx n) scans :=
  h.imp fun _ _ h => scanTx_eq_ok h

/-! ## Blocks -/

theorem decodeBlockFrame_eq_ok {height : ℕ} {hash : BlockHashBytes} {bytes : Bytes}
    {undo : Option BlockSpentTxOuts} {scan : BlockScanInput} {block : Block}
    (hblock : BitcoinCrate.deserialize bytes = .ok block)
    (h : decodeBlockFrame height hash bytes undo = .ok scan) :
    scan.height = height ∧ scan.blockHash = hash ∧ scan.previousBlockHash = block.prevBlockhash ∧
      scan.rawBlockBytes.toNat = bytes.length ∧
      List.Forall₂ (fun tx scan => ScannedFrom tx.1 tx.2 scan) block.txdata.zipIdx scan.txs := by
  simp only [decodeBlockFrame, hblock, ok_bind, bind_eq_ok, pure_eq_ok, Except.ok.injEq, tryU32_eq_ok] at h
  obtain ⟨_, -, txs, htxs, raw, hraw, rfl⟩ := h
  exact ⟨rfl, rfl, rfl, hraw, scanTxs_eq_ok (mapM_eq_ok.mp htxs)⟩

theorem NodeBlock.Fits.scanned {b : NodeBlock} (hf : b.Fits) {height : ℕ}
    {undo : Option BlockSpentTxOuts} {scan : BlockScanInput}
    (hblock : BitcoinCrate.deserialize b.bytes = .ok b.block)
    (h : decodeBlockFrame height b.block.blockHash b.bytes undo = .ok scan) :
    ScannedBlock scan := by
  obtain ⟨-, -, -, hraw, htxs⟩ := decodeBlockFrame_eq_ok hblock h
  have hlen := htxs.length_eq
  rw [List.length_zipIdx] at hlen
  refine ⟨hlen ▸ hf.txCount, ?_, ?_, ?_, ?_, ?_⟩
  · intro k tx htx
    obtain ⟨pair, hpair, hscan⟩ := forall₂_getElem? htxs htx
    obtain ⟨hlt, -⟩ := List.getElem?_eq_some_iff.mp htx
    rw [List.getElem?_zipIdx, Option.map_eq_some_iff] at hpair
    obtain ⟨source, -, rfl⟩ := hpair
    have hk : k ≤ U16_MAX := by
      have := hf.txCount
      omega
    rw [hscan.txIndex, Nat.zero_add, UInt16.toNat_ofNat_of_lt' (lt_of_le_of_lt hk (by decide))]
  · intro tx htx output hmem hp2tr
    obtain ⟨k, hk⟩ := List.mem_iff_getElem?.mp htx
    obtain ⟨pair, -, hscan⟩ := forall₂_getElem? htxs hk
    exact hscan.keys output hmem hp2tr
  · have hcounts := map_eq_of_forall₂ (g := fun tx : TxScanInput => tx.outputs.countP (·.isP2tr))
      (f := fun tx => tx.1.output.countP fun output => Stats.isP2tr output.scriptPubkey) htxs
      fun _ _ hscan => hscan.countP_isP2tr
    have htaproot := hf.taproot
    rw [List.countP_flatMap, ← List.zipIdx_map_fst 0 b.block.txdata, List.map_map] at htaproot
    rw [length_p2trSlots, hcounts]
    exact htaproot
  · have hcounts := map_eq_of_forall₂ (g := fun tx : TxScanInput => tx.inputs.length)
      (f := fun tx => tx.1.input.length) htxs fun _ _ hscan => by rw [hscan.inputs, List.length_map]
    have hinputs := hf.inputs
    rw [List.length_flatMap, ← List.zipIdx_map_fst 0 b.block.txdata, List.map_map] at hinputs
    simp only [BlockScanInput.inputOutpoints, List.length_flatMap, List.length_map, hcounts]
    exact hinputs
  · intro hzero
    rw [hzero] at hraw
    exact hf.bytes (List.length_eq_zero_iff.mp hraw.symm)

end

/-! ## Undo data -/

def fullFrame (block : NodeBlock × ℕ) : RawBlockFrame :=
  { height := block.2
    hash := block.1.block.blockHash
    bytes := block.1.bytes
    spentTxouts := some block.1.undo }

theorem FrameOf.eq_fullFrame {height : ℕ} {b : NodeBlock} {frame : RawBlockFrame}
    (h : FrameOf height b frame) (hundo : frame.spentTxouts = some b.undo) : frame = fullFrame (b, height) := by
  obtain ⟨height', hash, bytes, undo⟩ := frame
  obtain ⟨rfl, rfl, rfl, -⟩ := h
  subst hundo
  rfl

theorem missingUndo_cons (frame : RawBlockFrame) (frames : List RawBlockFrame) :
    missingUndo (frame :: frames) =
      (if frame.spentTxouts.isNone then [(0, frame.hash)] else []) ++
        (missingUndo frames).map fun entry => (entry.1 + 1, entry.2) := by
  have hshift : frames.zipIdx 1 = frames.zipIdx.map fun frame => (frame.1, frame.2 + 1) := by
    rw [List.zipIdx_succ]
  rw [missingUndo, List.zipIdx_cons, Nat.zero_add, hshift, List.filterMap_cons, List.filterMap_map]
  have hrest : frames.zipIdx.filterMap ((fun frame : RawBlockFrame × ℕ =>
        if frame.1.spentTxouts.isNone then some (frame.2, frame.1.hash) else none) ∘
          fun frame => (frame.1, frame.2 + 1)) =
      (missingUndo frames).map fun entry => (entry.1 + 1, entry.2) := by
    rw [missingUndo, List.map_filterMap]
    refine List.filterMap_congr fun frame _ => ?_
    simp only [Function.comp_apply]
    split_ifs <;> rfl
  rw [hrest]
  split_ifs <;> rfl

theorem attachUndo_cons (frame : RawBlockFrame) (frames : List RawBlockFrame)
    (undo : List (ℕ × Option BlockSpentTxOuts)) :
    attachUndo (frame :: frames) (undo.map fun entry => (entry.1 + 1, entry.2)) =
      frame :: attachUndo frames undo := by
  unfold attachUndo
  induction undo generalizing frames with
  | nil => rfl
  | cons entry undo ih => rw [List.map_cons, List.foldl_cons, List.modify_succ_cons, ih, List.foldl_cons]

/-- The frames that miss their undo data get it, and the others keep theirs. -/
theorem attachUndo_full {blocks : List NodeBlock} {frames : List RawBlockFrame} {first : ℕ}
    (h : List.Forall₂ (fun block frame => FrameOf block.2 block.1 frame) (blocks.zipIdx first) frames) :
    ∃ missing : List NodeBlock, missing ⊆ blocks ∧
      (missingUndo frames).map (·.2) = missing.map (·.block.blockHash) ∧
      attachUndo frames (((missingUndo frames).map (·.1)).zip (missing.map (some ·.undo))) =
        (blocks.zipIdx first).map fullFrame := by
  induction blocks generalizing frames first with
  | nil =>
    rw [List.forall₂_nil_left_iff.mp h]
    exact ⟨[], List.Subset.refl _, rfl, rfl⟩
  | cons b blocks ih =>
    rw [List.zipIdx_cons] at h
    obtain ⟨frame, frames, hframe, hrest, rfl⟩ := List.forall₂_cons_left_iff.mp h
    obtain ⟨missing, hsub, hhashes, hattach⟩ := ih hrest
    have hpositions : ((missingUndo frames).map fun entry => (entry.1 + 1, entry.2)).map (·.1) =
        ((missingUndo frames).map (·.1)).map (· + 1) := by
      rw [List.map_map, List.map_map]
      rfl
    have hrestHashes : ((missingUndo frames).map fun entry => (entry.1 + 1, entry.2)).map (·.2) =
        missing.map (·.block.blockHash) := by
      rw [List.map_map, ← hhashes]
      rfl
    rw [missingUndo_cons, List.zipIdx_cons, List.map_cons]
    rcases hframe.undo with hnone | hsome
    · refine ⟨b :: missing, List.cons_subset_cons b hsub, ?_, ?_⟩
      · rw [hnone, Option.isNone_none, if_pos rfl, List.singleton_append, List.map_cons, hrestHashes,
          hframe.hash, List.map_cons]
      · rw [hnone, Option.isNone_none, if_pos rfl, List.singleton_append, List.map_cons, hpositions,
          List.map_cons, List.zip_cons_cons, List.zip_map_left]
        have hfull : ({ frame with spentTxouts := some b.undo } : RawBlockFrame) = fullFrame (b, first) := by
          rw [fullFrame, ← hframe.height, ← hframe.hash, ← hframe.bytes]
        calc attachUndo (frame :: frames) ((0, some b.undo) ::
              (((missingUndo frames).map (·.1)).zip (missing.map (some ·.undo))).map (Prod.map (· + 1) id))
            = attachUndo (fullFrame (b, first) :: frames)
                ((((missingUndo frames).map (·.1)).zip (missing.map (some ·.undo))).map fun entry =>
                  (entry.1 + 1, entry.2)) := by rw [← hfull]; rfl
          _ = fullFrame (b, first) :: (blocks.zipIdx (first + 1)).map fullFrame := by
              rw [attachUndo_cons, hattach]
    · refine ⟨missing, List.subset_cons_of_subset b hsub, ?_, ?_⟩
      · rw [hsome, Option.isNone_some, if_neg Bool.false_ne_true, List.nil_append, hrestHashes]
      · rw [hsome, Option.isNone_some, if_neg Bool.false_ne_true, List.nil_append, hpositions,
          List.zip_map_left, hframe.eq_fullFrame hsome]
        exact (attachUndo_cons _ frames _).trans (by rw [hattach])

end BitcoinData
