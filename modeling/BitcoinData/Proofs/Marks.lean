import Mathlib.Algebra.BigOperators.Group.Finset.Basic
import BitcoinData.Sanity.Marking
import BitcoinData.Sanity.Sample

/-! `mark_spent_outputs` over whole archives. A call rewrites the named blocks with the named
marks; calls compose, their order does not matter, and a second identical call is no change. -/

namespace BitcoinData

open Lib

/-- Marks `(output_index, spent_height)` on one block. -/
abbrev Marks := List (UInt32 × UInt32)

/-! ## Marks on one block -/

section
variable {block : StoredLightBlockInput} {marks marks' : Marks}

theorem marked_append (block : StoredLightBlockInput) (marks marks' : Marks) :
    block.marked (marks ++ marks') = (block.marked marks).marked marks' := by
  rw [StoredLightBlockInput.marked, applyMarks, List.foldl_append]
  rfl

theorem mark_of_mem (hnd : (marks.map (·.1)).Nodup) {m : UInt32 × UInt32} (hm : m ∈ marks)
    (hlt : m.1.toNat < block.outputs.length) : (block.marked marks).mark m.1.toNat = m.2 := by
  obtain ⟨m', hm', hi, hmark⟩ := (mark_marked block marks hlt).1 ⟨m, hm, rfl⟩
  rw [hmark, List.inj_on_of_nodup_map hnd hm' hm (UInt32.toNat_inj.mp hi)]

theorem mark_of_not_mem {i : ℕ} (hlt : i < block.outputs.length) (h : ∀ m ∈ marks, m.1.toNat ≠ i) :
    (block.marked marks).mark i = block.mark i :=
  (mark_marked block marks hlt).2 h

theorem marked_outputs_length : (block.marked marks).outputs.length = block.outputs.length :=
  applyMarks_length marks block.outputs

theorem marked_perm (hnd : (marks.map (·.1)).Nodup) (hperm : marks.Perm marks') :
    block.marked marks = block.marked marks' := by
  refine eq_of_unmarked_eq (by rw [unmarked_marked, unmarked_marked]) fun i hi => ?_
  rw [marked_outputs_length] at hi
  by_cases h : ∃ m ∈ marks, m.1.toNat = i
  · obtain ⟨m, hm, rfl⟩ := h
    rw [mark_of_mem hnd hm hi, mark_of_mem ((hperm.map _).nodup_iff.mp hnd) (hperm.mem_iff.mp hm) hi]
  · push Not at h
    rw [mark_of_not_mem hi h, mark_of_not_mem hi fun m hm => h m (hperm.mem_iff.mpr hm)]

theorem marked_again (hnd : (marks.map (·.1)).Nodup) :
    (block.marked marks).marked marks = block.marked marks := by
  refine eq_of_unmarked_eq (by rw [unmarked_marked]) fun i hi => ?_
  rw [marked_outputs_length] at hi
  by_cases h : ∃ m ∈ marks, m.1.toNat = i
  · obtain ⟨m, hm, rfl⟩ := h
    rw [mark_of_mem hnd hm hi, mark_of_mem hnd hm (by rwa [marked_outputs_length] at hi)]
  · push Not at h
    rw [mark_of_not_mem hi h]

/-- The outputs of a block with another spent height in the second one. -/
def changedIn (a b : StoredLightBlockInput) : ℕ :=
  ((Finset.range a.outputs.length).filter fun i => a.mark i ≠ b.mark i).card

theorem changedIn_self (a : StoredLightBlockInput) : changedIn a a = 0 := by
  simp [changedIn]

theorem changedIn_add {a b c : StoredLightBlockInput} (hlen : b.outputs.length = a.outputs.length)
    (h : ∀ i < a.outputs.length, a.mark i = b.mark i ∨ b.mark i = c.mark i) :
    changedIn a c = changedIn a b + changedIn b c := by
  rw [changedIn, changedIn, changedIn, hlen, Finset.card_filter, Finset.card_filter,
    Finset.card_filter,
    ← Finset.sum_add_distrib]
  refine Finset.sum_congr rfl fun i hi => ?_
  rcases h i (Finset.mem_range.mp hi) with heq | heq
  · simp [heq]
  · simp [heq]

theorem changedIn_marked
    (hnd : (marks.map (·.1)).Nodup) (hlt : ∀ m ∈ marks, m.1.toNat < block.outputs.length) :
    changedIn block (block.marked marks) = marks.countP fun m => block.mark m.1.toNat ≠ m.2 := by
  have hset : (Finset.range block.outputs.length).filter (fun i => block.mark i ≠ (block.marked marks).mark i) =
      ((marks.filter fun m => block.mark m.1.toNat ≠ m.2).map (·.1.toNat)).toFinset := by
    ext i
    simp only [Finset.mem_filter, Finset.mem_range, List.mem_toFinset, List.mem_map, List.mem_filter,
      decide_eq_true_eq]
    constructor
    · rintro ⟨hi, hne⟩
      by_cases h : ∃ m ∈ marks, m.1.toNat = i
      · obtain ⟨m, hm, rfl⟩ := h
        rw [mark_of_mem hnd hm hi] at hne
        exact ⟨m, ⟨hm, hne⟩, rfl⟩
      · push Not at h
        exact absurd (mark_of_not_mem hi h).symm hne
    · rintro ⟨m, ⟨hm, hne⟩, hi⟩
      subst hi
      rw [mark_of_mem hnd hm (hlt m hm)]
      exact ⟨hlt m hm, hne⟩
  have hnodup : ((marks.filter fun m => block.mark m.1.toNat ≠ m.2).map (·.1.toNat)).Nodup := by
    have hsub :=
      (List.filter_sublist (p := fun m => decide (block.mark m.1.toNat ≠ m.2)) (l := marks)).map (·.1)
    have := (hsub.nodup hnd).map (f := UInt32.toNat) fun a b h => UInt32.toNat_inj.mp h
    rwa [List.map_map] at this
  rw [changedIn, hset, List.toFinset_card_of_nodup hnodup, List.length_map,
    List.countP_eq_length_filter]

end

namespace FileArchive

theorem markOutput_of_lt {creationHeight k : ℕ} {block : StoredLightBlockInput} {m : UInt32 × UInt32}
    (hlt : m.1.toNat < block.outputs.length) : markOutput creationHeight (block, k) m =
      .ok (block.marked [m], k + if block.mark m.1.toNat ≠ m.2 then 1 else 0) := by
  obtain ⟨i, s⟩ := m
  have hget : block.outputs[i.toNat]? = some (block.outputs.get ⟨i.toNat, hlt⟩) :=
    List.getElem?_eq_getElem hlt
  have hmark : block.mark i.toNat = (block.outputs.get ⟨i.toNat, hlt⟩).spentHeight := by
    simp [StoredLightBlockInput.mark, hget]
  cases hr : markOutput creationHeight (block, k) (i, s) with
  | error e =>
    exfalso
    simp only [markOutput, hget, okOr_some, ok_bind] at hr
    split_ifs at hr
    · cases hr
    · cases hr
  | ok acc =>
    obtain ⟨hblock, -⟩ := markOutput_eq_ok hr
    simp only [markOutput, hget, okOr_some, ok_bind] at hr
    rw [Except.ok.injEq, ← hblock, ← Prod.mk.eta (p := acc), Prod.mk.injEq]
    refine ⟨rfl, ?_⟩
    rw [hmark]
    split_ifs at hr with hne
    · rw [if_pos hne, ← Except.ok.inj hr]
    · rw [if_neg hne, ← Except.ok.inj hr]
      rfl

theorem markOutputs_of_lt {creationHeight k : ℕ} {block : StoredLightBlockInput} {marks : Marks}
    (hnd : (marks.map (·.1)).Nodup) (hlt : ∀ m ∈ marks, m.1.toNat < block.outputs.length) :
    marks.foldlM (markOutput creationHeight) (block, k) =
      .ok (block.marked marks, k + marks.countP fun m => block.mark m.1.toNat ≠ m.2) := by
  induction marks generalizing block k with
  | nil => rfl
  | cons m marks ih =>
    rw [List.map_cons, List.nodup_cons] at hnd
    have hm := hlt m List.mem_cons_self
    have hrest :=
      @ih (k + if block.mark m.1.toNat ≠ m.2 then 1 else 0) (block.marked [m]) hnd.2 (fun m' hm' => by
      rw [marked_outputs_length]
      exact hlt m' (List.mem_cons_of_mem _ hm'))
    have hcount : (marks.countP fun m' => (block.marked [m]).mark m'.1.toNat ≠ m'.2) =
        marks.countP fun m' => block.mark m'.1.toNat ≠ m'.2 := by
      refine List.countP_congr fun m' hm' => ?_
      rw [mark_of_not_mem (hlt m' (List.mem_cons_of_mem _ hm')) fun m₀ hm₀ heq => ?_]
      rw [List.mem_singleton.mp hm₀] at heq
      exact hnd.1 (List.mem_map.mpr ⟨m', hm', (UInt32.toNat_inj.mp heq).symm⟩)
    rw [List.foldlM_cons, markOutput_of_lt hm, ok_bind, hrest, hcount, ← marked_append,
      List.countP_cons,
      List.singleton_append]
    simp only [decide_eq_true_eq]
    congr 2
    omega

end FileArchive

/-! ## Marks on an archive -/

section
variable [Externals] {A B C : FileArchive} {f g : ℕ → Marks}

theorem storedBlockBytes_of_valid {block : StoredLightBlockInput} (h : StoredValid block) :
    ∃ bytes, storedBlockBytes block = .ok bytes := by
  have hvalid : validateStoredLightBlockInput block = .ok () :=
    validateStoredLightBlockInput_eq_ok.mpr h
  have hheight : tryU32 block.height = .ok (UInt32.ofNat block.height) :=
    tryU32_eq_ok.mpr (UInt32.toNat_ofNat_of_lt' (lt_of_le_of_lt h.height (by decide)))
  exact ⟨_, by rw [storedBlockBytes, encodeStoredLightBlock, hvalid, ok_bind, hheight]; rfl⟩

/-- The file of a block after the marks; no marks leave it alone. -/
def rewriteMarks (marks : Marks) (bytes : Bytes) : Bytes :=
  if marks = [] then bytes
  else match decodeStoredLightBlock bytes >>= fun block => storedBlockBytes (block.marked marks) with
    | .ok bytes' => bytes'
    | .error _ => bytes

@[simp] theorem rewriteMarks_nil : rewriteMarks [] = id := funext fun _ => if_pos rfl

theorem storedBlockBytes_marked {bytes : Bytes} {block : StoredLightBlockInput}
    (h : decodeStoredLightBlock bytes = .ok block) {marks : Marks} (hne : marks ≠ []) :
    storedBlockBytes (block.marked marks) = .ok (rewriteMarks marks bytes) := by
  have hvalid : StoredValid (block.marked marks) :=
    (decode_fields h).1.congr rfl (applyMarks_length marks block.outputs)
  obtain ⟨bytes', hbytes⟩ := storedBlockBytes_of_valid hvalid
  rw [rewriteMarks, if_neg hne, h, ok_bind, hbytes]

theorem decode_rewriteMarks {bytes : Bytes} {block : StoredLightBlockInput}
    (h : decodeStoredLightBlock bytes = .ok block) (marks : Marks) :
    decodeStoredLightBlock (rewriteMarks marks bytes) = .ok (block.marked marks) := by
  by_cases hne : marks = []
  · rw [rewriteMarks, if_pos hne, hne, h]
    rfl
  · have hnorm : (block.marked marks).normalised = block.marked marks := by
      have hblock := congrArg StoredLightBlockInput.tweaks (decode_fields h).2
      simp only [StoredLightBlockInput.normalised] at hblock
      simp only [StoredLightBlockInput.normalised, StoredLightBlockInput.marked, hblock]
    rw [decode_storedBlockBytes (storedBlockBytes_marked h hne), hnorm]

theorem rewriteMarks_congr {bytes bytes' : Bytes} {block block' : StoredLightBlockInput}
    {marks marks' : Marks}
    (h : decodeStoredLightBlock bytes = .ok block) (h' : decodeStoredLightBlock bytes' = .ok block')
    (hne : marks ≠ []) (hne' : marks' ≠ []) (hmarked : block.marked marks = block'.marked marks') :
    rewriteMarks marks bytes = rewriteMarks marks' bytes' := by
  have hbytes := storedBlockBytes_marked h hne
  rw [hmarked, storedBlockBytes_marked h' hne'] at hbytes
  exact (Except.ok.inj hbytes).symm

theorem rewriteMarks_append {bytes : Bytes} {block : StoredLightBlockInput}
    (h : decodeStoredLightBlock bytes = .ok block) (marks marks' : Marks) :
    rewriteMarks (marks ++ marks') bytes = rewriteMarks marks' (rewriteMarks marks bytes) := by
  by_cases hne' : marks' = []
  · rw [hne', List.append_nil]
    exact (if_pos rfl).symm
  · refine rewriteMarks_congr h (decode_rewriteMarks h marks)
      (fun h0 => hne' (List.append_eq_nil_iff.mp h0).2) hne' ?_
    exact marked_append block marks marks'

/-- The files of `B` are those of `A` with the marks `f` of their heights. -/
structure Rewritten (f : ℕ → Marks) (A B : FileArchive) : Prop where
  manifest : B.manifest = A.manifest
  lookup : ∀ h, B.blocks.lookup h = (A.blocks.lookup h).map (rewriteMarks (f h))

/-- Every file decodes, and the marks are distinct and inside the blocks. -/
structure MarkReady (f : ℕ → Marks) (A : FileArchive) : Prop where
  block : ∀ h bytes, A.blocks.lookup h = some bytes → ∃ block,
    decodeStoredLightBlock bytes = .ok block ∧
    ∀ m ∈ f h, m.1.toNat < block.outputs.length
  distinct : ∀ h, ((f h).map (·.1)).Nodup

theorem Rewritten.unique (hB : Rewritten f A B) (hC : Rewritten f A C) : B = C := by
  obtain ⟨blocks, manifest⟩ := B
  obtain ⟨blocks', manifest'⟩ := C
  rw [FileArchive.mk.injEq]
  exact ⟨Finmap.ext_lookup fun h => (hB.lookup h).trans (hC.lookup h).symm,
    hB.manifest.trans hC.manifest.symm⟩

theorem Rewritten.trans (hready : MarkReady f A) (hB : Rewritten f A B) (hC : Rewritten g B C) :
    Rewritten (fun h => f h ++ g h) A C := by
  refine ⟨hC.manifest.trans hB.manifest, fun h => ?_⟩
  rw [hC.lookup, hB.lookup]
  cases hA : A.blocks.lookup h with
  | none => rfl
  | some bytes =>
    obtain ⟨block, hdec, -⟩ := hready.block h bytes hA
    simp only [Option.map_some, rewriteMarks_append hdec]

theorem Rewritten.perm (hready : MarkReady f A)
    (hperm : ∀ h, (f h).Perm (g h)) (hB : Rewritten f A B) :
    Rewritten g A B := by
  refine ⟨hB.manifest, fun h => ?_⟩
  rw [hB.lookup]
  cases hA : A.blocks.lookup h with
  | none => rfl
  | some bytes =>
    obtain ⟨block, hdec, -⟩ := hready.block h bytes hA
    by_cases hne : f h = []
    · have hnil := hperm h
      rw [hne, List.nil_perm] at hnil
      rw [hne, hnil]
    · have hne' : g h ≠ [] := fun h0 => hne (List.perm_nil.mp (h0 ▸ hperm h))
      rw [Option.map_some, Option.map_some,
        rewriteMarks_congr hdec hdec hne hne' (marked_perm (hready.distinct h) (hperm h))]

theorem MarkReady.perm (hready : MarkReady f A) (hperm : ∀ h, (f h).Perm (g h)) : MarkReady g A := by
  refine ⟨fun h bytes hA => ?_, fun h => ((hperm h).map _).nodup_iff.mp (hready.distinct h)⟩
  obtain ⟨block, hdec, hlt⟩ := hready.block h bytes hA
  exact ⟨block, hdec, fun m hm => hlt m ((hperm h).mem_iff.mpr hm)⟩

/-- Marks that were made can be made again, and further ones inside the blocks too. -/
theorem MarkReady.rewritten (hready : MarkReady g A)
    (hg : ∀ h, ((g h).map (·.1)).Nodup) (hB : Rewritten f A B) :
    MarkReady g B := by
  refine ⟨fun h bytes hbytes => ?_, hg⟩
  rw [hB.lookup, Option.map_eq_some_iff] at hbytes
  obtain ⟨bytes₀, hA, rfl⟩ := hbytes
  obtain ⟨block, hdec, hlt⟩ := hready.block h bytes₀ hA
  exact ⟨block.marked (f h), decode_rewriteMarks hdec _, fun m hm => by
    rw [marked_outputs_length]
    exact hlt m hm⟩

/-! ## Counting -/

def FileArchive.block (A : FileArchive) (height : ℕ) : Option StoredLightBlockInput :=
  (A.blocks.lookup height).bind fun bytes => (decodeStoredLightBlock bytes).toOption

/-- Outputs at one height with another spent height in the second archive. -/
def changedAt (A B : FileArchive) (height : ℕ) : ℕ :=
  match A.block height, B.block height with
  | some a, some b => changedIn a b
  | _, _ => 0

/-- Outputs with another spent height in the second archive. -/
def changedOutputs (A B : FileArchive) : ℕ := ∑ height ∈ A.blocks.keys, changedAt A B height

theorem Rewritten.block (hready : MarkReady f A) (hB : Rewritten f A B) (h : ℕ) :
    B.block h = (A.block h).map fun block => block.marked (f h) := by
  rw [FileArchive.block, FileArchive.block, hB.lookup]
  cases hA : A.blocks.lookup h with
  | none => rfl
  | some bytes =>
    obtain ⟨block, hdec, -⟩ := hready.block h bytes hA
    simp only [Option.map_some, Option.bind_some, decode_rewriteMarks hdec, hdec, Except.toOption]

theorem Rewritten.keys (hB : Rewritten f A B) : B.blocks.keys = A.blocks.keys := by
  ext h
  rw [Finmap.mem_keys, Finmap.mem_keys, ← Finmap.lookup_isSome, ← Finmap.lookup_isSome, hB.lookup,
    Option.isSome_map]

theorem MarkReady.left (h : MarkReady (fun h => f h ++ g h) A) : MarkReady f A := by
  refine ⟨fun height bytes hA => ?_, fun height => ?_⟩
  · obtain ⟨block, hdec, hlt⟩ := h.block height bytes hA
    exact ⟨block, hdec, fun m hm => hlt m (List.mem_append_left _ hm)⟩
  · exact ((List.sublist_append_left _ _).map _).nodup (h.distinct height)

theorem MarkReady.right (h : MarkReady (fun h => f h ++ g h) A) : MarkReady g A := by
  refine ⟨fun height bytes hA => ?_, fun height => ?_⟩
  · obtain ⟨block, hdec, hlt⟩ := h.block height bytes hA
    exact ⟨block, hdec, fun m hm => hlt m (List.mem_append_right _ hm)⟩
  · exact ((List.sublist_append_right _ _).map _).nodup (h.distinct height)

theorem changedOutputs_add (hready : MarkReady (fun h => f h ++ g h) A) (hB : Rewritten f A B)
    (hC : Rewritten g B C) : changedOutputs A C = changedOutputs A B + changedOutputs B C := by
  have hreadyB : MarkReady g B := hready.right.rewritten hready.right.distinct hB
  rw [changedOutputs, changedOutputs, changedOutputs, hB.keys, ← Finset.sum_add_distrib]
  refine Finset.sum_congr rfl fun h _ => ?_
  rw [changedAt, changedAt, changedAt, hC.block hreadyB, hB.block hready.left]
  cases hA : A.block h with
  | none => rfl
  | some a =>
    refine changedIn_add marked_outputs_length fun i hi => ?_
    -- an output is marked by one of the two at most
    by_cases hf : ∃ m ∈ f h, m.1.toNat = i
    · obtain ⟨m, hm, rfl⟩ := hf
      refine .inr (mark_of_not_mem (by rwa [marked_outputs_length]) fun m' hm' heq => ?_).symm
      have hnd := hready.distinct h
      rw [List.map_append] at hnd
      exact List.disjoint_of_nodup_append hnd (List.mem_map_of_mem hm)
        (UInt32.toNat_inj.mp heq ▸ List.mem_map_of_mem hm')
    · push Not at hf
      exact .inl (mark_of_not_mem hi hf).symm

theorem changedOutputs_self (A : FileArchive) : changedOutputs A A = 0 := by
  refine Finset.sum_eq_zero fun h _ => ?_
  rw [changedAt]
  cases A.block h with
  | none => rfl
  | some a => exact changedIn_self a

/-! ## Calls -/

/-- One step that makes the marks `f` and counts the changes. -/
def Makes (step : FileArchive → Except String (FileArchive × ℕ)) (f : ℕ → Marks) : Prop :=
  ∀ A, MarkReady f A → ∃ B, step A = .ok (B, changedOutputs A B) ∧ Rewritten f A B

/-- Steps that each make their marks make all of them, and their counts add up. -/
theorem foldlM_makes {ι : Type}
    {step : FileArchive → ι → Except String (FileArchive × ℕ)} {marks : ι → ℕ → Marks}
    {xs : List ι} (hstep : ∀ x ∈ xs, Makes (fun A => step A x) (marks x)) (k : ℕ) (A : FileArchive)
    (hready : MarkReady (fun h => xs.flatMap fun x => marks x h) A) :
    ∃ B, xs.foldlM (fun acc x => do
        let (archive, updated) ← step acc.1 x
        return (archive, acc.2 + updated)) (A, k) = .ok (B, k + changedOutputs A B) ∧
      Rewritten (fun h => xs.flatMap fun x => marks x h) A B := by
  induction xs generalizing k A with
  | nil => exact ⟨A, by rw [changedOutputs_self]; rfl, rfl, fun h => by simp⟩
  | cons x xs ih =>
    simp only [List.flatMap_cons] at hready
    obtain ⟨B, hB, hrewB⟩ := hstep x List.mem_cons_self A hready.left
    obtain ⟨C, hC, hrewC⟩ :=
      ih (fun y hy => hstep y (List.mem_cons_of_mem _ hy)) (k + changedOutputs A B) B
      (hready.right.rewritten hready.right.distinct hrewB)
    refine ⟨C, ?_, ?_⟩
    · simp only at hB
      rw [List.foldlM_cons, hB, ok_bind]
      simp only [pure_eq_ok, ok_bind]
      simp only [pure_eq_ok] at hC
      rw [hC, changedOutputs_add hready hrewB hrewC, Nat.add_assoc]
    · simp only [List.flatMap_cons]
      exact hrewB.trans hready.left hrewC

def groupMarks (group : ℕ × Marks) (height : ℕ) : Marks := if group.1 = height then group.2 else []

theorem markCreationBlock_makes {group : ℕ × Marks} (hne : group.2 ≠ []) :
    Makes (fun A => A.markCreationBlock group) (groupMarks group) := by
  obtain ⟨height, marks⟩ := group
  intro A hready
  have hhere : groupMarks (height, marks) height = marks := if_pos rfl
  have hother : ∀ h, h ≠ height → groupMarks (height, marks) h = [] :=
    fun h hh => if_neg fun heq => hh heq.symm
  cases hA : A.blocks.lookup height with
  | none =>
    refine ⟨A, by simp only [FileArchive.markCreationBlock, hA, changedOutputs_self], rfl,
      fun h => ?_⟩
    by_cases hh : h = height
    · rw [hh, hA]
      rfl
    · rw [hother h hh]
      simp
  | some bytes =>
    obtain ⟨block, hdec, hlt⟩ := hready.block height bytes hA
    have hnd := hready.distinct height
    rw [hhere] at hlt hnd
    have hrew : Rewritten (groupMarks (height, marks)) A
        (A.writeBlockBytes height (rewriteMarks marks bytes)) := by
      refine ⟨rfl, fun h => ?_⟩
      by_cases hh : h = height
      · rw [hh, hA, hhere]
        exact Finmap.lookup_insert _
      · rw [hother h hh]
        simp [FileArchive.writeBlockBytes, Finmap.lookup_insert_of_ne _ hh]
    refine ⟨_, ?_, hrew⟩
    have hcount : changedOutputs A (A.writeBlockBytes height (rewriteMarks marks bytes)) =
        marks.countP fun m => block.mark m.1.toNat ≠ m.2 := by
      have hblock : A.block height = some block := by
        rw [FileArchive.block, hA, Option.bind_some, hdec]
        rfl
      rw [changedOutputs, Finset.sum_eq_single height]
      · rw [changedAt, hrew.block hready, hblock, hhere]
        exact changedIn_marked hnd hlt
      · intro h _ hh
        rw [changedAt, hrew.block hready, hother h hh]
        cases A.block h with
        | none => rfl
        | some a => exact changedIn_self a
      · intro hmem
        rw [Finmap.mem_keys, ← Finmap.lookup_isSome, hA] at hmem
        exact absurd rfl hmem
    simp only [FileArchive.markCreationBlock, hA, hdec, ok_bind,
      FileArchive.markOutputs_of_lt hnd hlt,
      storedBlockBytes_marked hdec hne, hcount, Nat.zero_add, pure_eq_ok]

def spendMarks (spends : List (ℕ × UInt32 × ℕ)) (height : ℕ) : Marks :=
  spends.flatMap fun spend => if spend.1 = height then [(spend.2.1, UInt32.ofNat spend.2.2)] else []

omit [Externals] in
theorem groupMarks_pushSpend
    (groups : List (ℕ × Marks)) (creationHeight : ℕ) (spend : UInt32 × UInt32) (height : ℕ) :
    ((FileArchive.pushSpend creationHeight spend groups).flatMap fun group => groupMarks group height).Perm
      ((groups.flatMap fun group => groupMarks group height) ++ groupMarks (creationHeight, [spend]) height) := by
  induction groups with
  | nil => simp [FileArchive.pushSpend, groupMarks]
  | cons group groups ih =>
    obtain ⟨height₀, marks₀⟩ := group
    unfold FileArchive.pushSpend
    split_ifs with hlt heq
    · simp only [List.flatMap_cons]
      exact List.perm_append_comm
    · subst heq
      simp only [List.flatMap_cons, groupMarks]
      by_cases hh : creationHeight = height
      · simp only [hh, if_true, List.append_assoc]
        exact List.perm_append_comm.append_left _
      · simp [hh]
    · simp only [List.flatMap_cons, List.append_assoc]
      exact ih.append_left _

omit [Externals] in
theorem pushSpend_ne_nil {groups : List (ℕ × Marks)} {creationHeight : ℕ} {spend : UInt32 × UInt32}
    (h : ∀ group ∈ groups, group.2 ≠ []) :
    ∀ group ∈ FileArchive.pushSpend creationHeight spend groups, group.2 ≠ [] := by
  induction groups with
  | nil => simp [FileArchive.pushSpend]
  | cons group groups ih =>
    obtain ⟨height₀, marks₀⟩ := group
    rw [List.forall_mem_cons] at h
    unfold FileArchive.pushSpend
    split_ifs with hlt heq
    · exact List.forall_mem_cons.mpr ⟨by simp, List.forall_mem_cons.mpr h⟩
    · exact List.forall_mem_cons.mpr ⟨by simp, h.2⟩
    · exact List.forall_mem_cons.mpr ⟨h.1, ih h.2⟩

omit [Externals] in
/-- The groups make the marks of the spends, and none of them is empty. -/
theorem groupSpends_of_heights
    {spends : List (ℕ × UInt32 × ℕ)} (h : ∀ spend ∈ spends, spend.2.2 ≤ U32_MAX) :
    ∃ groups, FileArchive.groupSpends spends = .ok groups ∧ (∀ group ∈ groups, group.2 ≠ []) ∧
      ∀ height, (groups.flatMap fun group => groupMarks group height).Perm (spendMarks spends height) := by
  unfold FileArchive.groupSpends
  induction spends using List.reverseRecOn with
  | nil => exact ⟨[], rfl, by simp, fun _ => .rfl⟩
  | append_singleton spends spend ih =>
    obtain ⟨c, i, s⟩ := spend
    obtain ⟨groups, hgroups, hne, hperm⟩ := ih fun spend hs => h spend (List.mem_append_left _ hs)
    have hs : s ≤ U32_MAX := h (c, i, s) (by simp)
    have htry : tryU32 s = .ok (UInt32.ofNat s) :=
      tryU32_eq_ok.mpr (UInt32.toNat_ofNat_of_lt' (lt_of_le_of_lt hs (by decide)))
    refine ⟨FileArchive.pushSpend c (i, UInt32.ofNat s) groups, ?_, ?_, fun height => ?_⟩
    · rw [List.foldlM_append, hgroups, ok_bind, List.foldlM_cons]
      simp only [htry, ok_bind, List.foldlM_nil, pure_eq_ok]
    · exact pushSpend_ne_nil hne
    · refine (groupMarks_pushSpend groups c _ height).trans ?_
      rw [spendMarks, List.flatMap_append, List.flatMap_singleton]
      exact (hperm height).append_right _

theorem markSpentOutputs_makes
    {spends : List (ℕ × UInt32 × ℕ)} (h : ∀ spend ∈ spends, spend.2.2 ≤ U32_MAX) :
    Makes (fun A => A.markSpentOutputs spends) (spendMarks spends) := by
  intro A hready
  obtain ⟨groups, hgroups, hne, hperm⟩ := groupSpends_of_heights h
  have hready' := hready.perm fun height => (hperm height).symm
  obtain ⟨B, hB, hrew⟩ :=
    foldlM_makes (fun group hg => markCreationBlock_makes (hne group hg)) 0 A hready'
  refine ⟨B, ?_, hrew.perm hready' hperm⟩
  rw [Nat.zero_add] at hB
  simp only [FileArchive.markSpentOutputs, hgroups, ok_bind]
  exact hB

/-! ## Replays -/

/-- An archive of valid blocks and spends of distinct outputs of them, at heights that fit. -/
structure Markable (A : FileArchive) (spends : List (ℕ × UInt32 × ℕ)) : Prop where
  blocks : ∀ height bytes, A.blocks.lookup height = some bytes → ∃ block,
    decodeStoredLightBlock bytes = .ok block
  distinct : (spends.map fun spend => (spend.1, spend.2.1)).Nodup
  range : ∀ spend ∈ spends, ∀ block, A.Stored spend.1 block → spend.2.1.toNat < block.outputs.length
  heights : ∀ spend ∈ spends, spend.2.2 ≤ U32_MAX

omit [Externals] in
theorem mem_spendMarks {spends : List (ℕ × UInt32 × ℕ)} {height : ℕ} {m : UInt32 × UInt32} :
    m ∈ spendMarks spends height ↔ ∃ spend ∈ spends, spend.1 = height ∧ m = (spend.2.1,
      UInt32.ofNat spend.2.2) := by
  simp only [spendMarks, List.mem_flatMap]
  refine exists_congr fun spend => and_congr_right fun _ => ?_
  split_ifs with h
  · simp [h]
  · simp [h]

omit [Externals] in
theorem nodup_spendMarks {spends : List (ℕ × UInt32 × ℕ)}
    (h : (spends.map fun spend => (spend.1, spend.2.1)).Nodup) (height : ℕ) :
    ((spendMarks spends height).map (·.1)).Nodup := by
  induction spends with
  | nil => exact List.nodup_nil
  | cons spend spends ih =>
    rw [List.map_cons, List.nodup_cons] at h
    rw [spendMarks, List.flatMap_cons, ← spendMarks]
    split_ifs with hheight
    · rw [List.singleton_append, List.map_cons, List.nodup_cons]
      refine ⟨fun hmem => ?_, ih h.2⟩
      obtain ⟨m, hm, hi⟩ := List.mem_map.mp hmem
      obtain ⟨spend', hs, hheight', rfl⟩ := mem_spendMarks.mp hm
      exact h.1 (List.mem_map.mpr ⟨spend', hs, by rw [hheight, hheight']; exact congrArg _ hi⟩)
    · exact ih h.2

theorem Markable.ready {spends : List (ℕ × UInt32 × ℕ)} (h : Markable A spends) :
    MarkReady (spendMarks spends) A := by
  refine ⟨fun height bytes hA => ?_, nodup_spendMarks h.distinct⟩
  obtain ⟨block, hdec⟩ := h.blocks height bytes hA
  refine ⟨block, hdec, fun m hm => ?_⟩
  obtain ⟨spend, hs, rfl, rfl⟩ := mem_spendMarks.mp hm
  exact h.range spend hs block ⟨bytes, hA, hdec⟩

/-- Calls one after the other, with their counts added. -/
def markCalls (A : FileArchive) (calls : List (List (ℕ × UInt32 × ℕ))) : Except String (FileArchive × ℕ) :=
  calls.foldlM (fun acc call => do
    let (archive, updated) ← acc.1.markSpentOutputs call
    return (archive, acc.2 + updated)) (A, 0)

omit [Externals] in
theorem spendMarks_flatten (calls : List (List (ℕ × UInt32 × ℕ))) (height : ℕ) :
    (calls.flatMap fun call => spendMarks call height) = spendMarks calls.flatten height := by
  rw [spendMarks, List.flatten_eq_flatMap, List.flatMap_assoc]
  rfl

omit [Externals] in
theorem spendMarks_perm
    {spends spends' : List (ℕ × UInt32 × ℕ)} (h : spends.Perm spends') (height : ℕ) :
    (spendMarks spends height).Perm (spendMarks spends' height) := h.flatMap_right _

/-- What the blocks of `B` show of those of `A` and the spends. -/
structure MarkedWith (spends : List (ℕ × UInt32 × ℕ)) (A B : FileArchive) : Prop where
  manifest : B.manifest = A.manifest
  missing : ∀ height, A.blocks.lookup height = none → B.blocks.lookup height = none
  unnamed : ∀ height, (∀ spend ∈ spends,
    spend.1 ≠ height) → B.blocks.lookup height = A.blocks.lookup height
  named : ∀ height block, A.Stored height block → ∃ block', B.Stored height block' ∧
    block'.unmarked = block.unmarked ∧
    (∀ i s, (height, i, s) ∈ spends → (block'.mark i.toNat).toNat = s) ∧
    ∀ i < block.outputs.length, (∀ spend ∈ spends, spend.1 = height → spend.2.1.toNat ≠ i) →
      block'.mark i = block.mark i

theorem Rewritten.markedWith {spends : List (ℕ × UInt32 × ℕ)} (h : Markable A spends)
    (hB : Rewritten (spendMarks spends) A B) : MarkedWith spends A B := by
  refine ⟨hB.manifest, fun height hnone => by rw [hB.lookup, hnone]; rfl, fun height hno => ?_, ?_⟩
  · have hnil : spendMarks spends height = [] := by
      refine List.eq_nil_iff_forall_not_mem.mpr fun m hm => ?_
      obtain ⟨spend, hs, hheight, -⟩ := mem_spendMarks.mp hm
      exact hno spend hs hheight
    rw [hB.lookup, hnil]
    simp
  · rintro height block ⟨bytes, hA, hdec⟩
    refine ⟨block.marked (spendMarks spends height),
      ⟨_, by rw [hB.lookup, hA]; rfl, decode_rewriteMarks hdec _⟩,
      unmarked_marked _ _, fun i s hs => ?_, fun i hi hno => mark_of_not_mem hi fun m hm => ?_⟩
    · have hlt := h.range _ hs block ⟨bytes, hA, hdec⟩
      have hmark := @mark_of_mem block _ (nodup_spendMarks h.distinct height) _
        (mem_spendMarks.mpr ⟨_, hs, rfl, rfl⟩) hlt
      rw [hmark]
      exact UInt32.toNat_ofNat_of_lt' (lt_of_le_of_lt (h.heights _ hs) (by decide))
    · obtain ⟨spend, hs, hheight, rfl⟩ := mem_spendMarks.mp hm
      exact hno spend hs hheight

/-- A call marks the named outputs and changes nothing else, and its count is the number of outputs
that changed. Any order of the spends and any split into calls gives the same archive and the same
count in all, and a second identical call changes nothing. -/
theorem markSpentOutputs_replays (A : FileArchive)
    (spends : List (ℕ × UInt32 × ℕ)) (h : Markable A spends) :
    ∃ B count, A.markSpentOutputs spends = .ok (B, count) ∧ MarkedWith spends A B ∧
      count = changedOutputs A B ∧
      (∀ calls : List (List (ℕ × UInt32 × ℕ)), calls.flatten.Perm spends → markCalls A calls = .ok (B, count)) ∧
      B.markSpentOutputs spends = .ok (B, 0) := by
  obtain ⟨B, hB, hrew⟩ := markSpentOutputs_makes h.heights A h.ready
  refine ⟨B, _, hB, hrew.markedWith h, rfl, fun calls hperm => ?_, ?_⟩
  · have hflat : ∀ height,
        (spendMarks spends height).Perm (calls.flatMap fun call => spendMarks call height) := by
      intro height
      rw [spendMarks_flatten]
      exact spendMarks_perm hperm.symm height
    have hheights : ∀ call ∈ calls, ∀ spend ∈ call, spend.2.2 ≤ U32_MAX := fun call hc spend hs =>
      h.heights spend (hperm.mem_iff.mp (List.mem_flatten.mpr ⟨call, hc, hs⟩))
    obtain ⟨C, hC, hrewC⟩ :=
      foldlM_makes (fun call hc => markSpentOutputs_makes (hheights call hc)) 0 A
      (h.ready.perm hflat)
    obtain rfl := hrewC.unique (hrew.perm h.ready hflat)
    rw [Nat.zero_add] at hC
    exact hC
  · obtain ⟨C, hC, hrewC⟩ :=
      markSpentOutputs_makes h.heights B (h.ready.rewritten h.ready.distinct hrew)
    have hsame : Rewritten (spendMarks spends) B B := by
      refine ⟨rfl, fun height => ?_⟩
      rw [hrew.lookup]
      cases hA : A.blocks.lookup height with
      | none => rfl
      | some bytes =>
        obtain ⟨block, hdec, -⟩ := h.ready.block height bytes hA
        by_cases hne : spendMarks spends height = []
        · rw [hne]
          simp
        · rw [Option.map_some, Option.map_some,
            rewriteMarks_congr (decode_rewriteMarks hdec _) hdec hne hne
            (marked_again (h.ready.distinct height))]
    obtain rfl := hrewC.unique hsame
    rw [changedOutputs_self] at hC
    exact hC

end

section
attribute [local instance] sampleExternals

/-- Two outputs of block 100, and one of a block that is not in the archive. -/
def sampleSpends : List (ℕ × UInt32 × ℕ) := [(100, 1, 151), (99, 0, 150), (100, 0, 150)]

theorem sampleSpends_markable {bytes : Bytes} {block : StoredLightBlockInput}
    (hdec : decodeStoredLightBlock bytes = .ok block) (hlen : block.outputs.length = 2) :
    Markable (FileArchive.empty.writeBlockBytes 100 bytes) sampleSpends := by
  have hlookup : ∀ height bytes',
      (FileArchive.empty.writeBlockBytes 100 bytes).blocks.lookup height = some bytes' →
      bytes' = bytes := by
    intro height bytes' h
    by_cases hh : height = 100
    · rw [hh] at h
      exact (Option.some.inj ((Finmap.lookup_insert _).symm.trans h)).symm
    · rw [FileArchive.writeBlockBytes, Finmap.lookup_insert_of_ne _ hh] at h
      cases h
  refine ⟨fun height bytes' h => ⟨block, hlookup height bytes' h ▸ hdec⟩, by decide, ?_, by decide⟩
  rintro spend hs block' ⟨bytes', hb, hdec'⟩
  rw [hlookup _ _ hb, hdec, Except.ok.injEq] at hdec'
  subst hdec'
  rw [hlen]
  have hsmall : ∀ spend ∈ sampleSpends, spend.2.1.toNat < 2 := by decide
  exact hsmall spend hs

theorem markSpentOutputs_replays_sample : ∃ (A B : FileArchive) (count : ℕ),
    A.markSpentOutputs sampleSpends = .ok (B, count) ∧
    markCalls A [[(100, 0, 150)], [(100, 1, 151), (99, 0, 150)]] = .ok (B, count) ∧
    B.markSpentOutputs sampleSpends = .ok (B, 0) := by
  have hblock : ((P2trIndexerState.new.applyBlockWithStats (sampleBlock 100 1 0 [sampleTx 10 0 [] [1, 2]])).toOption.any
      fun p => (storedBlockBytes p.2.storageBlock).toOption.any fun bytes =>
        (decodeStoredLightBlock bytes).toOption.any fun block => decide (block.outputs.length = 2)) = true := by
    decide +kernel
  obtain ⟨_, -, hblock⟩ := (Option.any_eq_true _ _).mp hblock
  obtain ⟨bytes, -, hblock⟩ := (Option.any_eq_true _ _).mp hblock
  obtain ⟨block, hdec, hlen⟩ := (Option.any_eq_true _ _).mp hblock
  obtain ⟨B, count, hB, -, -, hcalls, hagain⟩ := markSpentOutputs_replays _ sampleSpends
    (sampleSpends_markable (toOption_eq_some.mp hdec) (of_decide_eq_true hlen))
  exact ⟨_, B, count, hB, hcalls _ (by decide), hagain⟩

end

end BitcoinData
