import BitcoinData.Sanity.ChainRun
import BitcoinData.Sanity.Reuse
import BitcoinData.Sanity.Sample

/-! Reuse flags in the archive. A process restores its state by UID alone, without the
set of seen keys, and so flags nothing: the flags are right exactly while no key comes
twice. -/

namespace BitcoinData

open Lib

theorem entries_of_unmarked {a b : StoredLightBlockInput} (h : a.unmarked = b.unmarked) :
    a.outputs.map (fun o => (o.key, o.flags)) = b.outputs.map fun o => (o.key, o.flags) := by
  have := congrArg (fun block : StoredLightBlockInput =>
    block.outputs.map fun o => (o.key, o.flags)) h
  simpa [StoredLightBlockInput.unmarked, Function.comp_def] using this

theorem storedSlots_of_unmarked {a b : StoredLightBlockInput} (h : a.unmarked = b.unmarked) :
    a.storedSlots = b.storedSlots := by
  have hskipped : a.unmarked.skippedOutputs = b.unmarked.skippedOutputs := by rw [h]
  change a.skippedOutputs = b.skippedOutputs at hskipped
  rw [StoredLightBlockInput.storedSlots, StoredLightBlockInput.storedSlots, hskipped,
    outputs_length_of_unmarked h]

section
variable [Externals] {config : IndexerConfig} {chain : List BlockScanInput}

theorem flags_eq_zero {state state' : P2trIndexerState} {blocks : List BlockScanInput}
    {A : List AppliedBlock} (h : state.applyBlocks blocks = .ok (state', A))
    (hnone : state.seenP2trKeys = none) {a : AppliedBlock} (ha : a ∈ A) :
    ∀ output ∈ a.storageBlock.outputs, output.flags = 0 := by
  obtain ⟨k, hk⟩ := List.mem_iff_getElem?.mp ha
  obtain ⟨hlt, -⟩ := List.getElem?_eq_some_iff.mp hk
  rw [applyBlocks_length h] at hlt
  have hb := List.getElem?_eq_getElem hlt
  obtain ⟨s, s', hs⟩ := applyBlocks_get h hb hk
  have hreused := applyBlocks_reuse h hb hk
  intro output hmem
  rw [hs.outputs] at hmem
  obtain ⟨created, hc, rfl⟩ := List.mem_map.mp hmem
  have hflag : created.isReused ∈ a.createdUtxos.map (·.isReused) := List.mem_map_of_mem hc
  rw [hreused, hnone] at hflag
  obtain ⟨p, -, hp⟩ := List.mem_map.mp hflag
  have hfalse : created.isReused = false := hp.symm
  rw [storedEntry, hfalse]
  rfl

/-- What the file of a committed block says about its outputs. -/
theorem Follows.output_slot {disk : Disk} {n : ℕ} {S : P2trIndexerState} {A : List AppliedBlock}
    (hf : Follows config chain disk n S A) {k : ℕ} {block : StoredLightBlockInput} (hk : k < n)
    (hs : disk.archive.Stored (config.emitStartHeight + k) block) :
    ∃ scan, (chain.take n)[k]? = some scan ∧
      block.outputs.length = (keptSlots scan.p2trSlots).length ∧
      ∀ i output, block.outputs[i]? = some output → output.flags = 0 ∧
        ∃ p, (keptSlots scan.p2trSlots)[i]? = some p ∧
          p.1.output.p2trXonlyKey = some output.key ∧ block.storedSlots.getD i 0 = p.2 := by
  have hle := hf.le
  have hlen := hf.length_applied
  obtain ⟨a, ha⟩ : ∃ a, A[k]? = some a := ⟨_, List.getElem?_eq_getElem (by omega)⟩
  have hklt : k < (chain.take n).length := by
    rw [List.length_take]
    omega
  have hscan := List.getElem?_eq_getElem hklt
  obtain ⟨s, s', hspec⟩ := applyBlocks_get hf.seq hscan ha
  obtain ⟨b, hb, hu⟩ := hf.files k a ha
  rw [hs.unique hb]
  have hentries := entries_of_unmarked hu
  have hout : a.storageBlock.normalised.outputs = a.storageBlock.outputs := rfl
  have hslots : b.storedSlots = a.storageBlock.normalised.storedSlots := storedSlots_of_unmarked hu
  refine ⟨_, hscan, ?_, fun i output hi => ?_⟩
  · have hcreated := congrArg List.length hspec.created
    rw [List.length_map, List.length_map] at hcreated
    rw [outputs_length_of_unmarked hu, hout, hspec.outputs, List.length_map, hcreated]
  · have hget := congrArg (·[i]?) hentries
    simp only [List.getElem?_map, hi, Option.map_some, hout] at hget
    cases hstored : a.storageBlock.outputs[i]? with
    | none => rw [hstored] at hget; cases hget
    | some stored =>
      rw [hstored, Option.map_some, Option.some.injEq, Prod.mk.injEq] at hget
      obtain ⟨p, hp, hkey, hslot⟩ := hspec.output_slot hstored
      refine ⟨?_, p, hp, by rw [hget.1]; exact hkey, ?_⟩
      · rw [hget.2]
        exact flags_eq_zero hf.seq rfl (List.mem_of_getElem? ha) stored
          (List.mem_of_getElem? hstored)
      · rw [hslots, List.getD_eq_getElem?_getD]
        exact congrArg (·.getD 0) hslot

omit [Externals] in
theorem earlierKeys_of_get {blocks : List BlockScanInput} {k slot : ℕ} {block : BlockScanInput}
    (h : blocks[k]? = some block) : earlierKeys blocks k slot =
      slotKeys ((blocks.take k).flatMap BlockScanInput.p2trSlots) ++
        slotKeys (block.p2trSlots.take slot) := by
  rw [earlierKeys, h, slotKeys_append]
  rfl

/-- The flags of an indexer that tracks keys from the first block on. -/
theorem new_flags_eq_zero {state : P2trIndexerState} {blocks : List BlockScanInput}
    {A : List AppliedBlock} (h : P2trIndexerState.new.applyBlocks blocks = .ok (state, A))
    (hno : NoKeyReuse blocks) {a : AppliedBlock} (ha : a ∈ A) :
    ∀ output ∈ a.storageBlock.outputs, output.flags = 0 := by
  obtain ⟨k, hk⟩ := List.mem_iff_getElem?.mp ha
  obtain ⟨hlt, -⟩ := List.getElem?_eq_some_iff.mp hk
  rw [applyBlocks_length h] at hlt
  have hb := List.getElem?_eq_getElem hlt
  obtain ⟨s, s', hs⟩ := applyBlocks_get h hb hk
  have hreused := applyBlocks_reuse h hb hk
  intro output hmem
  obtain ⟨i, hi⟩ := List.mem_iff_getElem?.mp hmem
  obtain ⟨p, hp, hkey, -⟩ := hs.output_slot hi
  rw [hs.outputs, List.getElem?_map, Option.map_eq_some_iff] at hi
  obtain ⟨created, hc, rfl⟩ := hi
  have hget := congrArg (·[i]?) hreused
  simp only [List.getElem?_map, hc, hp, Option.map_some, Option.some.injEq] at hget
  have hfresh := hno k _ hb p (List.mem_of_getElem? hp) _ hkey
  rw [earlierKeys_of_get hb, List.mem_append] at hfresh
  have hfalse : created.isReused = false := by
    rw [hget, ← Bool.not_eq_true]
    intro htrue
    have := (reusedSlot_eq_true hkey).mp htrue
    simp only [Finset.empty_union, List.mem_toFinset] at this
    exact hfresh this
  rw [storedEntry, hfalse]
  rfl

section
variable {disk : Disk} {n : ℕ} {S : P2trIndexerState} {A : List AppliedBlock}

/-- A key that came before would have to be flagged, and the files flag nothing. -/
theorem Follows.noKeyReuse (hf : Follows config chain disk n S A)
    (h : ReuseFlagged config.emitStartHeight (chain.take n) disk.archive) :
    NoKeyReuse (chain.take n) := by
  intro k scan hscan p hp key hkey hmem
  obtain ⟨hk, -⟩ := List.getElem?_eq_some_iff.mp hscan
  rw [hf.length_take] at hk
  have hlen := hf.length_applied
  obtain ⟨a, ha⟩ : ∃ a, A[k]? = some a := ⟨_, List.getElem?_eq_getElem (by omega)⟩
  obtain ⟨block, hs, -⟩ := hf.files k a ha
  obtain ⟨scan', hscan', hcount, hslots⟩ := hf.output_slot hk hs
  rw [hscan, Option.some.injEq] at hscan'
  subst hscan'
  obtain ⟨i, hi⟩ := List.mem_iff_getElem?.mp hp
  obtain ⟨hilt, -⟩ := List.getElem?_eq_some_iff.mp hi
  have hget : block.outputs[i]? = some block.outputs[i] := List.getElem?_eq_getElem (by omega)
  obtain ⟨hflags, p', hp', hkey', hslot⟩ := hslots i _ hget
  rw [hi, Option.some.injEq] at hp'
  subst hp'
  rw [hkey, Option.some.injEq] at hkey'
  have hiff := h.flags k block i _ (by rw [hf.length_take]; exact hk) hs hget
  rw [hflags, hslot, ← hkey'] at hiff
  exact absurd (hiff.mpr hmem) (by decide)

/-- An output that is filed has no flag, and where no key comes twice it needs none. -/
theorem Follows.fresh_output (hf : Follows config chain disk n S A) (hno : NoKeyReuse (chain.take n))
    {k i : ℕ} {block : StoredLightBlockInput} {output : StoredOutputEntryInput}
    (hk : k < (chain.take n).length) (hs : disk.archive.Stored (config.emitStartHeight + k) block)
    (hi : block.outputs[i]? = some output) :
    output.flags = 0 ∧ output.key ∉ earlierKeys (chain.take n) k (block.storedSlots.getD i 0) := by
  rw [hf.length_take] at hk
  obtain ⟨scan, hscan, -, hslots⟩ := hf.output_slot hk hs
  obtain ⟨hflags, p, hp, hkey, hslot⟩ := hslots i output hi
  rw [hslot]
  exact ⟨hflags, hno k scan hscan p (List.mem_of_getElem? hp) _ hkey⟩

/-- Where no key comes twice, an indexer that tracks keys writes the same flags. -/
theorem Follows.live_flags (hf : Follows config chain disk n S A) (hno : NoKeyReuse (chain.take n))
    {state : P2trIndexerState} {applied : List AppliedBlock}
    (hnew : P2trIndexerState.new.applyBlocks (chain.take n) = .ok (state, applied)) {k : ℕ}
    {a : AppliedBlock} {block : StoredLightBlockInput} (ha : applied[k]? = some a)
    (hs : disk.archive.Stored (config.emitStartHeight + k) block) :
    block.outputs.map (·.flags) = a.storageBlock.outputs.map (·.flags) := by
  obtain ⟨hk, -⟩ := List.getElem?_eq_some_iff.mp ha
  rw [applyBlocks_length hnew, hf.length_take] at hk
  obtain ⟨scan, hscan, hcount, hslots⟩ := hf.output_slot hk hs
  obtain ⟨s, s', hspec⟩ := applyBlocks_get hnew hscan ha
  have hcreated := congrArg List.length hspec.created
  rw [List.length_map, List.length_map] at hcreated
  rw [List.eq_replicate_of_mem (l := block.outputs.map (·.flags)) (a := 0),
    List.eq_replicate_of_mem (l := a.storageBlock.outputs.map (·.flags)) (a := 0),
    List.length_map, List.length_map, hcount, hspec.outputs, List.length_map, hcreated]
  · intro flags hmem
    obtain ⟨output, hout, rfl⟩ := List.mem_map.mp hmem
    exact new_flags_eq_zero hnew hno (List.mem_of_getElem? ha) output hout
  · intro flags hmem
    obtain ⟨output, hout, rfl⟩ := List.mem_map.mp hmem
    obtain ⟨i, hi⟩ := List.mem_iff_getElem?.mp hout
    exact (hslots i output hi).1

theorem Follows.reuseFlagged (hf : Follows config chain disk n S A) (hno : NoKeyReuse (chain.take n)) :
    ReuseFlagged config.emitStartHeight (chain.take n) disk.archive := by
  refine ⟨?_, fun state applied hnew k a block ha hs => hf.live_flags hno hnew ha hs, ?_⟩
  · intro k block i output hk hs hi
    obtain ⟨hflags, hkey⟩ := hf.fresh_output hno hk hs hi
    rw [hflags]
    exact iff_of_false (by decide) hkey
  · intro k block i output labels hk hs hi
    obtain ⟨hflags, hkey⟩ := hf.fresh_output hno hk hs hi
    have hkept : shouldOmitStoredOutput block.height output ⟨none, none, true, labels⟩ = false := by
      rw [shouldOmitStoredOutput, hflags]
      rfl
    rw [hkept]
    exact iff_of_false (by decide) hkey

end

theorem reuse_flags_iff (config : IndexerConfig) (chain : List BlockScanInput)
    (hv : ValidChain config.emitStartHeight chain) (acts : List Action) (hon : OnChain chain acts)
    (sys : System) (hrun : run (step config) System.init acts = some sys) (tip : IndexTip)
    (htip : sys.disk.indexStore.tip = some tip) (n : ℕ)
    (hn : tip.height + 1 = config.emitStartHeight + n) :
    ReuseFlagged config.emitStartHeight (chain.take n) sys.disk.archive ↔
      NoKeyReuse (chain.take n) := by
  obtain ⟨m, S, A, hf, -⟩ := (chainInv_of_run hv hon hrun).follows
  have hnext := hf.next
  rw [nextHeight_of_tip htip] at hnext
  obtain rfl : m = n := by omega
  exact ⟨hf.noKeyReuse, hf.reuseFlagged⟩

end

/-! One block that pays two outputs, to one key or to two. -/

section
attribute [local instance] sampleExternals

def payingBlock (first second : UInt8) : BlockScanInput :=
  sampleBlock 100 1 0 [sampleTx 10 0 [] [first, second]]

def payingActions (first second : UInt8) : List Action :=
  [.start, sampleCatchUp 101 [payingBlock first second]] ++ List.replicate 5 .effect

theorem payingBlock_fetch (first second : UInt8) :
    HonestFetch [payingBlock first second] (sampleFetch [payingBlock first second]) := by
  intro start count chunk h
  obtain rfl := Except.ok.inj h
  simp only [List.filter_cons, List.filter_nil]
  split_ifs
  · exact List.infix_rfl
  · exact List.nil_infix

theorem payingActions_onChain (first second : UInt8) :
    OnChain [payingBlock first second] (payingActions first second) := by
  intro tuning best fetch hmem
  have hfetch : fetch = sampleFetch [payingBlock first second] := by
    simp only [payingActions, sampleCatchUp, List.mem_append, List.mem_cons, List.mem_replicate,
      reduceCtorEq, Action.catchUp.injEq, List.not_mem_nil, and_false, or_false, false_or] at hmem
    exact hmem.2.2
  rw [hfetch]
  exact payingBlock_fetch first second

theorem payingBlock_valid {first second : UInt8}
    (hcreated : (createdOutpoints [payingBlock first second]).Nodup)
    (hevents : (chainEvents [payingBlock first second]).Nodup)
    (hnull : ∀ outpoint ∈ createdOutpoints [payingBlock first second], outpoint.isCoinbase = false) :
    ValidChain sampleConfig.emitStartHeight [payingBlock first second] where
  heights := rfl
  createdOnce := hcreated
  spentOnce := by
    intro before outpoint after h
    rw [h] at hevents
    exact List.nodup_iff_count_le_one.mp
      (List.nodup_cons.mp (List.nodup_append.mp hevents).2.1).2 _
  notNull := hnull

/-- The second output pays to the key of the first and is stored without a flag. -/
theorem reuse_unflagged : ∃ sys tip, run (step sampleConfig) System.init (payingActions 1 1) = some sys ∧
    sys.disk.indexStore.tip = some tip ∧ tip.height = 100 ∧
    (∃ block output, sys.disk.archive.Stored 100 block ∧ block.outputs[1]? = some output ∧
      output.key ∈ earlierKeys [payingBlock 1 1] 0 (block.storedSlots.getD 1 0) ∧
      output.flags = 0) ∧
    ¬ ReuseFlagged 100 [payingBlock 1 1] sys.disk.archive := by
  have hrun : ((run (step sampleConfig) System.init (payingActions 1 1)).any fun sys =>
      (sys.disk.indexStore.tip.any fun tip => decide (tip.height = 100)) &&
      ((sys.disk.archive.blocks.lookup 100).any fun bytes =>
        (decodeStoredLightBlock bytes).toOption.any fun block =>
          block.outputs[1]?.any fun output =>
            decide (output.key ∈ earlierKeys [payingBlock 1 1] 0 (block.storedSlots.getD 1 0) ∧
              output.flags = 0))) = true := by
    decide +kernel
  obtain ⟨sys, hsys, hfacts⟩ := (Option.any_eq_true _ _).mp hrun
  rw [Bool.and_eq_true] at hfacts
  obtain ⟨tip, htip, hheight⟩ := (Option.any_eq_true _ _).mp hfacts.1
  obtain ⟨bytes, hbytes, hdec⟩ := (Option.any_eq_true _ _).mp hfacts.2
  obtain ⟨block, hblock, hout⟩ := (Option.any_eq_true _ _).mp hdec
  obtain ⟨output, hget, hkey⟩ := (Option.any_eq_true _ _).mp hout
  obtain ⟨hearlier, hflags⟩ := of_decide_eq_true hkey
  have hs : sys.disk.archive.Stored 100 block := ⟨bytes, hbytes, toOption_eq_some.mp hblock⟩
  refine ⟨sys, tip, hsys, htip, of_decide_eq_true hheight,
    ⟨block, output, hs, hget, hearlier, hflags⟩, fun h => ?_⟩
  have := (h.flags 0 block 1 output (by decide) hs hget).mpr hearlier
  rw [hflags] at this
  exact this (by decide)

theorem reuse_flags_sample : ∃ sys, run (step sampleConfig) System.init (payingActions 1 2) = some sys ∧
    NoKeyReuse [payingBlock 1 2] ∧ ReuseFlagged 100 [payingBlock 1 2] sys.disk.archive := by
  have hrun : ((run (step sampleConfig) System.init (payingActions 1 2)).any fun sys =>
      sys.disk.indexStore.tip.any fun tip => decide (tip.height = 100)) = true := by
    decide +kernel
  obtain ⟨sys, hsys, hfacts⟩ := (Option.any_eq_true _ _).mp hrun
  obtain ⟨tip, htip, hheight⟩ := (Option.any_eq_true _ _).mp hfacts
  replace hheight := of_decide_eq_true hheight
  have hno : NoKeyReuse [payingBlock 1 2] := by
    have hfresh : ∀ p ∈ keptSlots (payingBlock 1 2).p2trSlots,
        (p.1.output.p2trXonlyKey.all fun key =>
          decide (key ∉ earlierKeys [payingBlock 1 2] 0 p.2)) = true := by
      decide +kernel
    intro k block hk p hp key hkey
    obtain ⟨hlt, -⟩ := List.getElem?_eq_some_iff.mp hk
    obtain rfl : k = 0 := by simpa using hlt
    rw [List.getElem?_cons_zero, Option.some.injEq] at hk
    rw [← hk] at hp
    have := hfresh p hp
    rw [hkey] at this
    exact of_decide_eq_true this
  have hvalid : ValidChain sampleConfig.emitStartHeight [payingBlock 1 2] :=
    payingBlock_valid (by decide +kernel) (by decide +kernel) (by decide +kernel)
  refine ⟨sys, hsys, hno, ?_⟩
  exact (reuse_flags_iff sampleConfig [payingBlock 1 2] hvalid (payingActions 1 2)
    (payingActions_onChain 1 2) sys hsys tip htip 1 (by rw [hheight]; rfl)).mpr hno

end

end BitcoinData
