import BitcoinData.Sanity.Sample
import BitcoinData.Spec.IndexStore

/-! The seen-key counts over any sequence of commits. A commit reads the counts from the database
while its own increments wait in the batch, so a key counts once for each commit that creates it. -/

namespace BitcoinData

open Lib

/-- The arguments of one `commit_applied_blocks` call. -/
structure CommitCall where
  blocks : List AppliedBlock
  tipHeight : ℕ
  tipHash : BlockHashBytes
  lastUid : UInt64

/-- The keys of the outputs that the blocks create, one for each output. -/
def createdKeys (blocks : List AppliedBlock) : List XOnlyKey :=
  blocks.flatMap fun block => block.createdUtxos.map (·.entry.p2trXonlyKey)

def storeAfter (calls : List CommitCall) : RocksIndexStore :=
  calls.foldl (fun store call => store.commitAppliedBlocks call.blocks call.tipHeight call.tipHash call.lastUid)
    RocksIndexStore.empty

def createdCount (calls : List CommitCall) (key : XOnlyKey) : ℕ :=
  (calls.flatMap fun call => createdKeys call.blocks).count key

namespace RocksIndexStore

/-- The count of a key, zero where there is none. -/
def seenCount (store : RocksIndexStore) (key : XOnlyKey) : ℕ := ((store.seen.lookup key).getD 0).toNat

/-! ## One commit -/

theorem batchCreated_seen (db : RocksIndexStore) (created : List CreatedScopedUtxo)
    (batch : RocksIndexStore)
    (key : XOnlyKey) :
    (created.foldl (batchCreated db) batch).seen.lookup key =
      if key ∈ created.map (·.entry.p2trXonlyKey) then some (saturatingAdd64 ((db.seen.lookup key).getD 0) 1)
      else batch.seen.lookup key := by
  induction created generalizing batch with
  | nil => rfl
  | cons c created ih =>
    rw [List.foldl_cons, ih, List.map_cons]
    by_cases hlater : key ∈ created.map (·.entry.p2trXonlyKey)
    · rw [if_pos hlater, if_pos (List.mem_cons_of_mem _ hlater)]
    · rw [if_neg hlater, batchCreated]
      by_cases hkey : key = c.entry.p2trXonlyKey
      · rw [if_pos (hkey ▸ List.mem_cons_self), hkey]
        exact Finmap.lookup_insert _
      · rw [if_neg fun hmem => (List.mem_cons.mp hmem).elim hkey hlater]
        exact Finmap.lookup_insert_of_ne _ hkey

theorem batchSpent_seen (spent : List SpentScopedUtxo) (batch : RocksIndexStore) :
    (spent.foldl batchSpent batch).seen = batch.seen := by
  induction spent generalizing batch with
  | nil => rfl
  | cons s spent ih => rw [List.foldl_cons, ih, batchSpent]

theorem batchBlocks_seen (db : RocksIndexStore) (blocks : List AppliedBlock) (batch : RocksIndexStore)
    (key : XOnlyKey) :
    (blocks.foldl (batchBlock db) batch).seen.lookup key =
      if key ∈ createdKeys blocks then some (saturatingAdd64 ((db.seen.lookup key).getD 0) 1)
      else batch.seen.lookup key := by
  induction blocks generalizing batch with
  | nil => rfl
  | cons block blocks ih =>
    rw [List.foldl_cons, ih, batchBlock, batchSpent_seen, batchCreated_seen, createdKeys, createdKeys,
      List.flatMap_cons]
    by_cases hlater : key ∈ blocks.flatMap fun block => block.createdUtxos.map (·.entry.p2trXonlyKey)
    · rw [if_pos hlater, if_pos (List.mem_append_right _ hlater)]
    · simp only [hlater, if_false, List.mem_append, or_false]

/-- A commit adds one for each key that it creates, however often it does. -/
theorem seenCount_commit (store : RocksIndexStore) (call : CommitCall) (key : XOnlyKey) :
    (store.commitAppliedBlocks call.blocks call.tipHeight call.tipHash call.lastUid).seenCount key =
      if key ∈ createdKeys call.blocks then min (store.seenCount key + 1) U64_MAX else store.seenCount key := by
  have hone : (1 : UInt64).toNat = 1 := rfl
  rw [seenCount, commitAppliedBlocks, batchBlocks_seen]
  split_ifs
  · rw [Option.getD_some, saturatingAdd64_toNat, hone]
    rfl
  · rfl

end RocksIndexStore

/-! ## All commits -/

theorem storeAfter_append (calls : List CommitCall) (call : CommitCall) :
    storeAfter (calls ++ [call]) =
    (storeAfter calls).commitAppliedBlocks call.blocks call.tipHeight call.tipHash call.lastUid := by
  rw [storeAfter, List.foldl_append]
  rfl

theorem createdCount_append (calls : List CommitCall) (call : CommitCall) (key : XOnlyKey) :
    createdCount (calls ++ [call]) key = createdCount calls key + (createdKeys call.blocks).count key := by
  rw [createdCount, List.flatMap_append, List.count_append, List.flatMap_singleton]
  rfl

theorem createdCount_take_le (calls : List CommitCall) (n : ℕ) (key : XOnlyKey) :
    createdCount (calls.take n) key ≤ createdCount calls key := by
  have h := List.take_append_drop n calls
  rw [createdCount, createdCount, ← congrArg (List.flatMap _) h, List.flatMap_append,
    List.count_append]
  exact Nat.le_add_right _ _

/-- With distinct keys in each commit, the counts are those of the outputs. -/
theorem seenCount_of_nodup {calls : List CommitCall}
    (h : ∀ call ∈ calls, (createdKeys call.blocks).Nodup)
    {key : XOnlyKey} (hsmall : createdCount calls key < U64_MAX) :
    (storeAfter calls).seenCount key = createdCount calls key := by
  induction calls using List.reverseRecOn with
  | nil => rfl
  | append_singleton calls call ih =>
    have hnd := h call (by simp)
    rw [createdCount_append] at hsmall ⊢
    rw [storeAfter_append, RocksIndexStore.seenCount_commit,
      ih (fun c hc => h c (List.mem_append_left _ hc)) (by omega)]
    split_ifs with hmem
    · rw [List.count_eq_one_of_mem hnd hmem] at hsmall ⊢
      omega
    · rw [List.count_eq_zero_of_not_mem hmem, Nat.add_zero]

/-- As long as no key has `u64::MAX` outputs: the stored counts are right after every commit if and
only if no commit creates two outputs with one key. -/
theorem seenCounts_exact_iff (calls : List CommitCall)
    (hsmall : ∀ key, createdCount calls key < U64_MAX) :
    (∀ n ≤ calls.length, ∀ key, (storeAfter (calls.take n)).seenCount key = createdCount (calls.take n) key) ↔
      ∀ call ∈ calls, (createdKeys call.blocks).Nodup := by
  constructor
  · intro h call hmem
    obtain ⟨n, hn, hcall⟩ := List.mem_iff_getElem.mp hmem
    rw [List.nodup_iff_count_le_one]
    intro key
    -- the counts before and after the commit
    have hbefore := h n (by omega) key
    have hafter := h (n + 1) (by omega) key
    rw [List.take_succ_eq_append_getElem hn, hcall, storeAfter_append,
      RocksIndexStore.seenCount_commit,
      createdCount_append, hbefore] at hafter
    split_ifs at hafter with hkey
    · omega
    · omega
  · intro h n hn key
    exact seenCount_of_nodup (fun call hmem => h call (List.mem_of_mem_take hmem))
      (lt_of_le_of_lt (createdCount_take_le calls n key) (hsmall key))

section
attribute [local instance] sampleExternals

def sampleCommit (applied : AppliedBlock) : CommitCall := ⟨[applied], 100, sampleId 1, 2⟩

/-- A block with two outputs to one key counts once. -/
theorem seenCounts_lose_update : ∃ state applied,
    P2trIndexerState.new.applyBlockWithStats (sampleBlock 100 1 0 [sampleTx 10 0 [] [1, 1]]) = .ok (state, applied) ∧
    createdCount [sampleCommit applied] (sampleId 1) = 2 ∧
    (storeAfter [sampleCommit applied]).seenCount (sampleId 1) = 1 := by
  have h : ((P2trIndexerState.new.applyBlockWithStats
      (sampleBlock 100 1 0 [sampleTx 10 0 [] [1, 1]])).toOption.any fun p =>
        decide (createdCount [sampleCommit p.2] (sampleId 1) = 2 ∧
          (storeAfter [sampleCommit p.2]).seenCount (sampleId 1) = 1)) = true := by
    decide +kernel
  obtain ⟨⟨state, applied⟩, happly, hcounts⟩ := (Option.any_eq_true _ _).mp h
  exact ⟨state, applied, toOption_eq_some.mp happly, of_decide_eq_true hcounts⟩

theorem seenCounts_exact_sample : ∃ state applied,
    P2trIndexerState.new.applyBlockWithStats (sampleBlock 100 1 0 [sampleTx 10 0 [] [1, 2]]) = .ok (state, applied) ∧
    ∀ key, (storeAfter [sampleCommit applied]).seenCount key = createdCount [sampleCommit applied] key := by
  have h : ((P2trIndexerState.new.applyBlockWithStats
      (sampleBlock 100 1 0 [sampleTx 10 0 [] [1, 2]])).toOption.any fun p =>
        decide (createdKeys [p.2] = [sampleId 1, sampleId 2])) = true := by
    decide +kernel
  obtain ⟨⟨state, applied⟩, happly, hkeys⟩ := (Option.any_eq_true _ _).mp h
  replace hkeys : createdKeys [applied] = [sampleId 1, sampleId 2] := of_decide_eq_true hkeys
  refine ⟨state, applied, toOption_eq_some.mp happly, fun key => ?_⟩
  refine (seenCounts_exact_iff [sampleCommit applied] fun key => ?_).mpr
    (fun call hmem => ?_) 1 le_rfl key
  · have hle : createdCount [sampleCommit applied] key ≤ [sampleId 1, sampleId 2].length := by
      rw [createdCount, List.flatMap_singleton, sampleCommit, hkeys]
      exact List.count_le_length
    exact lt_of_le_of_lt hle (by decide)
  · rw [List.mem_singleton.mp hmem, sampleCommit, hkeys]
    decide

end

end BitcoinData
