import BitcoinData.Spec.ScriptPushes

/-! The pushes of a script: exactly the operands of its complete pushes, up to where it is cut off.
The loop ends for every script, and what it returns lies inside. -/

namespace BitcoinData

open Lib

/-! ## One header -/

theorem readPushHeader_complete {form : PushForm} {len : ℕ} (h : form.Fits len) (rest : Bytes) :
    readPushHeader (form.opcode len) (form.lengthBytes len ++ rest) = .push len rest := by
  cases form with
  | direct =>
    obtain ⟨hpos, hle⟩ := h
    have hlen : (UInt8.ofNat len).toNat = len :=
      UInt8.toNat_ofNat_of_lt' (by unfold UInt8.size; omega)
    have hin : 0x01 ≤ UInt8.ofNat len ∧ UInt8.ofNat len ≤ 0x4b := by
      rw [UInt8.le_iff_toNat_le, UInt8.le_iff_toNat_le, hlen]
      exact ⟨hpos, hle⟩
    change readPushHeader (UInt8.ofNat len) rest = _
    unfold readPushHeader
    rw [if_pos hin, hlen]
  | pushdata1 =>
    have hlen := fromDigits_digits h
    simp only [digits, fromDigits, Nat.mul_zero, Nat.add_zero] at hlen
    exact congrArg (PushHeader.push · rest) hlen
  | pushdata2 =>
    have hlen := fromDigits_digits h
    simp only [digits, fromDigits] at hlen
    refine congrArg (PushHeader.push · rest) ?_
    omega
  | pushdata4 =>
    have hlen := fromDigits_digits h
    simp only [digits, fromDigits] at hlen
    refine congrArg (PushHeader.push · rest) ?_
    omega

theorem readPushHeader_cut (form : PushForm) (len : ℕ) (short : Bytes)
    (h : short.length < (form.lengthBytes len).length) :
    readPushHeader (form.opcode len) short = .stop := by
  cases form with
  | direct => exact absurd h (Nat.not_lt_zero _)
  | pushdata1 =>
    obtain rfl : short = [] := List.length_eq_zero_iff.mp (Nat.lt_one_iff.mp h)
    rfl
  | pushdata2 =>
    change short.length < 2 at h
    rcases short with _ | ⟨b₀, _ | ⟨b₁, rest⟩⟩
    · rfl
    · rfl
    · simp at h
  | pushdata4 =>
    change short.length < 4 at h
    rcases short with _ | ⟨b₀, _ | ⟨b₁, _ | ⟨b₂, _ | ⟨b₃, rest⟩⟩⟩⟩
    · rfl
    · rfl
    · rfl
    · rfl
    · simp at h
      omega

theorem readPushHeader_other {opcode : UInt8} (h : ¬ (0x01 ≤ opcode ∧ opcode ≤ 0x4e)) (rest : Bytes) :
    readPushHeader opcode rest = .skip := by
  rw [UInt8.le_iff_toNat_le, UInt8.le_iff_toNat_le] at h
  change ¬ (1 ≤ opcode.toNat ∧ opcode.toNat ≤ 78) at h
  unfold readPushHeader
  have hdirect : ¬ (0x01 ≤ opcode ∧ opcode ≤ 0x4b) := by
    rw [UInt8.le_iff_toNat_le, UInt8.le_iff_toNat_le]
    change ¬ (1 ≤ opcode.toNat ∧ opcode.toNat ≤ 75)
    omega
  rw [if_neg hdirect, if_neg, if_neg, if_neg]
  · rintro rfl
    exact h (by decide)
  · rintro rfl
    exact h (by decide)
  · rintro rfl
    exact h (by decide)

/-! ## Operations in order -/

theorem parsePushesFrom_nil (fuel : ℕ) : parseScriptPushesFrom fuel [] = [] := by
  cases fuel with
  | zero => rfl
  | succ fuel => rfl

theorem parsePushesFrom_push (fuel : ℕ) (p : ScriptPush) (rest : Bytes) :
    parseScriptPushesFrom (fuel + 1) (p.encoded ++ rest) =
      p.operand :: parseScriptPushesFrom fuel rest := by
  rw [ScriptPush.encoded, List.cons_append, List.append_assoc, parseScriptPushesFrom,
    readPushHeader_complete p.fits]
  dsimp only
  rw [if_neg (by rw [List.length_append]; omega), List.take_left, List.drop_left]

theorem parsePushesFrom_truncated (fuel : ℕ) (last : TruncatedPush) :
    parseScriptPushesFrom fuel last.bytes = [] := by
  obtain ⟨p, hpre, hne⟩ := last.truncated
  cases fuel with
  | zero => rfl
  | succ fuel =>
    cases hbytes : last.bytes with
    | nil => exact absurd hbytes last.nonempty
    | cons opcode rest =>
      rw [hbytes, ScriptPush.encoded] at hpre hne
      obtain ⟨rfl, hrest⟩ := List.cons_prefix_cons.mp hpre
      rw [parseScriptPushesFrom]
      by_cases hcut : rest.length < (p.form.lengthBytes p.operand.length).length
      · rw [readPushHeader_cut p.form p.operand.length rest hcut]
      · -- the length is there, so it is the operand that is cut
        obtain ⟨data, rfl⟩ := List.prefix_of_prefix_length_le (List.prefix_append _ _) hrest
          (Nat.le_of_not_lt hcut)
        have hdata : data <+: p.operand := (List.prefix_append_right_inj _).mp hrest
        have hlt : data.length < p.operand.length := by
          refine lt_of_le_of_ne hdata.length_le fun hlen => hne ?_
          rw [hdata.eq_of_length hlen]
        rw [readPushHeader_complete p.fits]
        dsimp only
        rw [if_pos hlt]

theorem scriptOf_cons (op : ScriptOp) (ops : List ScriptOp) (last : Option TruncatedPush) :
    scriptOf (op :: ops) last = op.encoded ++ scriptOf ops last := by
  rw [scriptOf, List.flatMap_cons, List.append_assoc, scriptOf]

theorem parsePushesFrom_ops (ops : List ScriptOp) (last : Option TruncatedPush) (fuel : ℕ)
    (hfuel : (scriptOf ops last).length ≤ fuel) :
    parseScriptPushesFrom fuel (scriptOf ops last) = ops.filterMap ScriptOp.operand := by
  induction ops generalizing fuel with
  | nil =>
    cases last with
    | none => exact parsePushesFrom_nil fuel
    | some last => exact parsePushesFrom_truncated fuel last
  | cons op ops ih =>
    rw [scriptOf_cons, List.length_append] at hfuel
    rw [scriptOf_cons]
    cases fuel with
    | zero =>
      cases op with
      | push p => simp [ScriptOp.encoded, ScriptPush.encoded] at hfuel
      | other opcode hother => simp [ScriptOp.encoded] at hfuel
    | succ fuel =>
      cases op with
      | push p =>
        have hle : (scriptOf ops last).length ≤ fuel := by
          simp only [ScriptOp.encoded, ScriptPush.encoded, List.length_cons] at hfuel
          omega
        exact (parsePushesFrom_push fuel p _).trans (congrArg (p.operand :: ·) (ih fuel hle))
      | other opcode hother =>
        have hle : (scriptOf ops last).length ≤ fuel := by
          simp only [ScriptOp.encoded, List.length_singleton] at hfuel
          omega
        rw [ScriptOp.encoded, List.singleton_append, parseScriptPushesFrom,
          readPushHeader_other hother]
        exact ih fuel hle

/-! ## Every byte string -/

/-- A script begins with an operation, or it is a push that is cut off. -/
def BeginsWell (script : Bytes) : Prop :=
  (∃ (op : ScriptOp) (rest : Bytes), script = op.encoded ++ rest) ∨
    ∃ last : TruncatedPush, script = last.bytes

theorem exists_push {form : PushForm} {len : ℕ} (h : form.Fits len) {operand : Bytes}
    (hlen : operand.length = len) :
    ∃ p : ScriptPush, p.encoded = form.opcode len :: (form.lengthBytes len ++ operand) := by
  subst hlen
  exact ⟨⟨form, operand, h⟩, rfl⟩

/-- Behind a complete header stands the operand, or the beginning of one. -/
theorem beginsWell_header {form : PushForm} {len : ℕ} (h : form.Fits len) (data : Bytes) :
    BeginsWell (form.opcode len :: (form.lengthBytes len ++ data)) := by
  by_cases hle : len ≤ data.length
  · obtain ⟨p, hp⟩ := exists_push h (List.length_take_of_le hle)
    refine Or.inl ⟨.push p, data.drop len, ?_⟩
    rw [ScriptOp.encoded, hp, List.cons_append, List.append_assoc, List.take_append_drop]
  · have hlen : (data ++ List.replicate (len - data.length) 0).length = len := by
      rw [List.length_append, List.length_replicate]
      omega
    obtain ⟨p, hp⟩ := exists_push h hlen
    refine Or.inr ⟨⟨_, List.cons_ne_nil _ _, p, ?_, ?_⟩, rfl⟩
    · rw [hp, List.cons_prefix_cons, List.prefix_append_right_inj]
      exact ⟨rfl, List.prefix_append _ _⟩
    · intro heq
      have hlens := congrArg List.length heq
      rw [hp] at hlens
      simp only [List.length_cons, List.length_append, List.length_replicate] at hlens
      omega

/-- A push whose length has `k` bytes of its own. -/
theorem beginsWell_pushdata (form : PushForm) {opcode : UInt8} {k : ℕ}
    (hopcode : ∀ len, form.opcode len = opcode) (hbytes : ∀ len, form.lengthBytes len = digits k len)
    (hfits : ∀ len, len < 256 ^ k → form.Fits len) (bytes : Bytes) : BeginsWell (opcode :: bytes) := by
  by_cases hle : k ≤ bytes.length
  · have hlen : (bytes.take k).length = k := List.length_take_of_le hle
    have hlt := fromDigits_lt (bytes.take k)
    have hdigits := digits_fromDigits (bytes.take k)
    rw [hlen] at hlt hdigits
    have h := beginsWell_header (hfits _ hlt) (bytes.drop k)
    rwa [hopcode, hbytes, hdigits, List.take_append_drop] at h
  · -- a length that goes on with zeros, and as many bytes behind it
    let field := bytes ++ List.replicate (k - bytes.length) 0
    have hlen : field.length = k := by
      rw [List.length_append, List.length_replicate]
      omega
    have hlt := fromDigits_lt field
    have hdigits := digits_fromDigits field
    rw [hlen] at hlt hdigits
    obtain ⟨p, hp⟩ := exists_push (hfits _ hlt)
      (List.length_replicate (n := fromDigits field) (a := (0 : UInt8)))
    rw [hopcode, hbytes, hdigits] at hp
    refine Or.inr ⟨⟨_, List.cons_ne_nil _ _, p, ?_, ?_⟩, rfl⟩
    · rw [hp, List.cons_prefix_cons, List.append_assoc]
      exact ⟨rfl, List.prefix_append _ _⟩
    · intro heq
      have hlens := congrArg List.length heq
      rw [hp, List.length_cons, List.length_cons, List.length_append, hlen] at hlens
      omega

theorem beginsWell_cons (opcode : UInt8) (bytes : Bytes) : BeginsWell (opcode :: bytes) := by
  by_cases hpush : 0x01 ≤ opcode ∧ opcode ≤ 0x4e
  · by_cases hdirect : opcode ≤ 0x4b
    · have hfits : PushForm.Fits .direct opcode.toNat :=
        ⟨UInt8.le_iff_toNat_le.mp hpush.1, UInt8.le_iff_toNat_le.mp hdirect⟩
      have h := beginsWell_header hfits bytes
      rwa [PushForm.opcode, UInt8.ofNat_toNat] at h
    · have hcases : opcode = 0x4c ∨ opcode = 0x4d ∨ opcode = 0x4e := by
        rw [UInt8.le_iff_toNat_le] at hdirect
        have hle := UInt8.le_iff_toNat_le.mp hpush.2
        change ¬ opcode.toNat ≤ 75 at hdirect
        change opcode.toNat ≤ 78 at hle
        simp only [← UInt8.toNat_inj]
        change opcode.toNat = 76 ∨ opcode.toNat = 77 ∨ opcode.toNat = 78
        omega
      rcases hcases with rfl | rfl | rfl
      · exact beginsWell_pushdata .pushdata1 (fun _ => rfl) (fun _ => rfl) (fun _ h => h) bytes
      · exact beginsWell_pushdata .pushdata2 (fun _ => rfl) (fun _ => rfl) (fun _ h => h) bytes
      · exact beginsWell_pushdata .pushdata4 (fun _ => rfl) (fun _ => rfl) (fun _ h => h) bytes
  · exact Or.inl ⟨.other opcode hpush, bytes, rfl⟩

theorem ScriptOp.encoded_ne_nil (op : ScriptOp) : op.encoded ≠ [] := by
  cases op with
  | push p => exact List.cons_ne_nil _ _
  | other opcode hother => exact List.cons_ne_nil _ _

/-- Every byte string is operations in order with at most one push cut off. -/
theorem exists_scriptOf (script : Bytes) : ∃ ops last, script = scriptOf ops last := by
  induction hn : script.length using Nat.strongRecOn generalizing script with
  | ind n ih =>
    subst hn
    cases script with
    | nil => exact ⟨[], none, rfl⟩
    | cons opcode bytes =>
      rcases beginsWell_cons opcode bytes with ⟨op, rest, heq⟩ | ⟨last, heq⟩
      · have hpos := List.length_pos_iff.mpr op.encoded_ne_nil
        have hlt : rest.length < (opcode :: bytes).length := by
          rw [heq, List.length_append]
          omega
        obtain ⟨ops, last, hrest⟩ := ih rest.length hlt rest rfl
        refine ⟨op :: ops, last, ?_⟩
        rw [heq, scriptOf_cons, hrest]
      · exact ⟨[], some last, heq⟩

/-! ## The cursor -/

section
variable {script : Bytes} {opcode : UInt8} {i : ℕ}

theorem scriptByte_of_lt (h : i < script.length) :
    ∃ byte, scriptByte script i = .ok byte ∧ script.drop i = byte :: script.drop (i + 1) := by
  refine ⟨script[i], ?_, List.drop_eq_getElem_cons h⟩
  rw [scriptByte, List.getElem?_eq_getElem h]

/-- The cursor and the rest of the script give the same header, and the cursor stays inside. -/
inductive HeaderAt (script : Bytes) (opcode : UInt8) (i : ℕ) : Prop
  | skip : readPushHeader opcode (script.drop i) = .skip →
    readPushLength script opcode i = .ok .next → HeaderAt script opcode i
  | stop : readPushHeader opcode (script.drop i) = .stop →
    readPushLength script opcode i = .ok .done → HeaderAt script opcode i
  | push (len j : ℕ) : i ≤ j → j ≤ script.length →
    readPushHeader opcode (script.drop i) = .push len (script.drop j) →
    readPushLength script opcode i = .ok (.found len j) → HeaderAt script opcode i

theorem headerAt_pushdata1 (hi : i ≤ script.length) : HeaderAt script 0x4c i := by
  have hlength : readPushLength script 0x4c i = if i ≥ script.length then return .done
    else do
      let b₀ ← scriptByte script i
      return .found b₀.toNat (i + 1) := rfl
  by_cases hend : i ≥ script.length
  · rw [if_pos hend] at hlength
    refine .stop (readPushHeader_cut .pushdata1 0 _ ?_) hlength
    rw [List.length_drop]
    exact Nat.lt_one_iff.mpr (by omega)
  · obtain ⟨b₀, hb₀, hdrop₀⟩ := scriptByte_of_lt (not_le.mp hend)
    rw [if_neg hend, hb₀] at hlength
    exact .push b₀.toNat (i + 1) (by omega) (by omega) (by rw [hdrop₀]; rfl) hlength

theorem headerAt_pushdata2 (hi : i ≤ script.length) : HeaderAt script 0x4d i := by
  have hlength : readPushLength script 0x4d i = if i + 2 > script.length then return .done
    else do
      let b₀ ← scriptByte script i
      let b₁ ← scriptByte script (i + 1)
      return .found (b₀.toNat + 2 ^ 8 * b₁.toNat) (i + 2) := rfl
  by_cases hend : i + 2 > script.length
  · rw [if_pos hend] at hlength
    refine .stop (readPushHeader_cut .pushdata2 0 _ ?_) hlength
    rw [List.length_drop]
    change _ < 2
    omega
  · obtain ⟨b₀, hb₀, hdrop₀⟩ := scriptByte_of_lt (show i < script.length by omega)
    obtain ⟨b₁, hb₁, hdrop₁⟩ := scriptByte_of_lt (show i + 1 < script.length by omega)
    rw [if_neg hend, hb₀, hb₁] at hlength
    exact .push _ (i + 2) (by omega) (by omega) (by rw [hdrop₀, hdrop₁]; rfl) hlength

theorem headerAt_pushdata4 (hi : i ≤ script.length) : HeaderAt script 0x4e i := by
  have hlength : readPushLength script 0x4e i = if i + 4 > script.length then return .done
    else do
      let b₀ ← scriptByte script i
      let b₁ ← scriptByte script (i + 1)
      let b₂ ← scriptByte script (i + 2)
      let b₃ ← scriptByte script (i + 3)
      return .found (b₀.toNat + 2 ^ 8 * b₁.toNat + 2 ^ 16 * b₂.toNat + 2 ^ 24 * b₃.toNat)
        (i + 4) := rfl
  by_cases hend : i + 4 > script.length
  · rw [if_pos hend] at hlength
    refine .stop (readPushHeader_cut .pushdata4 0 _ ?_) hlength
    rw [List.length_drop]
    change _ < 4
    omega
  · obtain ⟨b₀, hb₀, hdrop₀⟩ := scriptByte_of_lt (show i < script.length by omega)
    obtain ⟨b₁, hb₁, hdrop₁⟩ := scriptByte_of_lt (show i + 1 < script.length by omega)
    obtain ⟨b₂, hb₂, hdrop₂⟩ := scriptByte_of_lt (show i + 2 < script.length by omega)
    obtain ⟨b₃, hb₃, hdrop₃⟩ := scriptByte_of_lt (show i + 3 < script.length by omega)
    rw [if_neg hend, hb₀, hb₁, hb₂, hb₃] at hlength
    exact .push _ (i + 4) (by omega) (by omega) (by rw [hdrop₀, hdrop₁, hdrop₂, hdrop₃]; rfl) hlength

theorem headerAt (opcode : UInt8) (hi : i ≤ script.length) : HeaderAt script opcode i := by
  by_cases hdirect : 0x01 ≤ opcode ∧ opcode ≤ 0x4b
  · refine .push opcode.toNat i (le_refl _) hi ?_ (if_pos hdirect)
    unfold readPushHeader
    rw [if_pos hdirect]
  · by_cases h1 : opcode = 0x4c
    · exact h1 ▸ headerAt_pushdata1 hi
    · by_cases h2 : opcode = 0x4d
      · exact h2 ▸ headerAt_pushdata2 hi
      · by_cases h4 : opcode = 0x4e
        · exact h4 ▸ headerAt_pushdata4 hi
        · refine .skip ?_ ?_
          · unfold readPushHeader
            rw [if_neg hdirect, if_neg h1, if_neg h2, if_neg h4]
          · unfold readPushLength
            rw [if_neg hdirect, if_neg h1, if_neg h2, if_neg h4]
            rfl

end

/-- From the cursor on, the loop ends within the bytes that are left, with slices inside the script
that are the pushes of those bytes. -/
structure SlicesFrom (script : Bytes) (left i : ℕ) (slices : List ScriptSlice) : Prop where
  ends : ∀ rounds pushes, left < rounds →
    scriptPushSlices script rounds i pushes = .ok (some (pushes ++ slices))
  inside : ∀ slice ∈ slices, slice.start ≤ slice.stop ∧ slice.stop ≤ script.length
  reads : ∀ fuel, left ≤ fuel →
    slices.map (·.read script) = parseScriptPushesFrom fuel (script.drop i)

/-- It is enough to look at one round. -/
theorem SlicesFrom.of_round {script : Bytes} {left i : ℕ} {slices : List ScriptSlice}
    (ends : ∀ rounds pushes, left ≤ rounds →
      scriptPushSlices script (rounds + 1) i pushes = .ok (some (pushes ++ slices)))
    (inside : ∀ slice ∈ slices, slice.start ≤ slice.stop ∧ slice.stop ≤ script.length)
    (reads : ∀ fuel, left ≤ fuel + 1 →
      slices.map (·.read script) = parseScriptPushesFrom (fuel + 1) (script.drop i))
    (hleft : left ≠ 0) : SlicesFrom script left i slices := by
  refine ⟨?_, inside, ?_⟩
  · intro rounds pushes hlt
    obtain ⟨rounds, rfl⟩ := Nat.exists_eq_add_one_of_ne_zero (show rounds ≠ 0 by omega)
    exact ends rounds pushes (by omega)
  · intro fuel hle
    obtain ⟨fuel, rfl⟩ := Nat.exists_eq_add_one_of_ne_zero (show fuel ≠ 0 by omega)
    exact reads fuel hle

theorem slicesFrom_end {script : Bytes} {i : ℕ} (hi : script.length ≤ i) : SlicesFrom script 0 i [] := by
  refine ⟨?_, nofun, ?_⟩
  · intro rounds pushes hlt
    obtain ⟨rounds, rfl⟩ := Nat.exists_eq_add_one_of_ne_zero (show rounds ≠ 0 by omega)
    rw [scriptPushSlices, if_neg (by omega), List.append_nil]
  · intro fuel _
    rw [List.drop_eq_nil_of_le hi, parsePushesFrom_nil]
    rfl

theorem slicesFrom_exists (script : Bytes) (left i : ℕ) (hi : i + left = script.length) :
    ∃ slices, SlicesFrom script left i slices := by
  induction left using Nat.strongRecOn generalizing i with
  | ind left ih =>
    by_cases hend : left = 0
    · subst hend
      exact ⟨[], slicesFrom_end (by omega)⟩
    · have hlt : i < script.length := by omega
      obtain ⟨opcode, hbyte, hdrop⟩ := scriptByte_of_lt hlt
      cases headerAt opcode (show i + 1 ≤ script.length from hlt) with
      | skip hheader hlength =>
        obtain ⟨slices, hslices⟩ := ih (left - 1) (by omega) (i + 1) (by omega)
        refine ⟨slices, .of_round ?_ hslices.inside ?_ hend⟩
        · intro rounds pushes hle
          rw [scriptPushSlices, if_pos hlt, hbyte, ok_bind, hlength, ok_bind]
          exact hslices.ends rounds pushes (by omega)
        · intro fuel hle
          rw [hdrop, parseScriptPushesFrom, hheader]
          exact hslices.reads fuel (by omega)
      | stop hheader hlength =>
        refine ⟨[], .of_round ?_ nofun ?_ hend⟩
        · intro rounds pushes _
          rw [scriptPushSlices, if_pos hlt, hbyte, ok_bind, hlength, ok_bind, List.append_nil]
          rfl
        · intro fuel _
          rw [hdrop, parseScriptPushesFrom, hheader]
          rfl
      | push len j hij hj hheader hlength =>
        have hrest : (script.drop j).length = script.length - j := List.length_drop
        by_cases hcut : j + len > script.length
        · refine ⟨[], .of_round ?_ nofun ?_ hend⟩
          · intro rounds pushes _
            rw [scriptPushSlices, if_pos hlt, hbyte, ok_bind, hlength, ok_bind, List.append_nil]
            exact if_pos hcut
          · intro fuel _
            rw [hdrop, parseScriptPushesFrom, hheader]
            dsimp only
            rw [if_pos (by omega)]
            rfl
        · obtain ⟨slices, hslices⟩ := ih (script.length - (j + len)) (by omega) (j + len) (by omega)
          have hslice : scriptSlice script j (j + len) = .ok ⟨j, j + len⟩ := if_pos (by omega)
          refine ⟨⟨j, j + len⟩ :: slices, .of_round ?_ ?_ ?_ hend⟩
          · intro rounds pushes hle
            rw [scriptPushSlices, if_pos hlt, hbyte, ok_bind, hlength, ok_bind]
            dsimp only
            rw [if_neg hcut, hslice, ok_bind, hslices.ends rounds _ (by omega), List.append_assoc]
            rfl
          · rw [List.forall_mem_cons]
            exact ⟨⟨Nat.le_add_right _ _, not_lt.mp hcut⟩, hslices.inside⟩
          · intro fuel hle
            rw [hdrop, parseScriptPushesFrom, hheader]
            dsimp only
            rw [if_neg (by omega), List.map_cons, hslices.reads fuel (by omega), List.drop_drop,
              ScriptSlice.read, Nat.add_sub_cancel_left]

/-! ## Scripts -/

/-- The pushes of a script are the operands of its pushes, without one that is cut off, and every byte
string is such a script. For every byte string the loop comes to an end, however many rounds it may
still make, without an index outside the script, and the slices it returns lie inside. -/
theorem script_pushes_exact (ops : List ScriptOp) (last : Option TruncatedPush) (script : Bytes) :
    parseScriptPushes (scriptOf ops last) = ops.filterMap ScriptOp.operand ∧
      (∃ ops last, script = scriptOf ops last) ∧
      ∃ slices, (∀ more, scriptPushSlices script (script.length + 1 + more) 0 [] = .ok (some slices)) ∧
        (∀ slice ∈ slices, slice.start ≤ slice.stop ∧ slice.stop ≤ script.length) ∧
        slices.map (·.read script) = parseScriptPushes script := by
  refine ⟨parsePushesFrom_ops ops last _ (le_refl _), exists_scriptOf script, ?_⟩
  obtain ⟨slices, hslices⟩ := slicesFrom_exists script script.length 0 (Nat.zero_add _)
  refine ⟨slices, ?_, hslices.inside, hslices.reads _ (le_refl _)⟩
  intro more
  exact hslices.ends _ [] (by omega)

-- two bytes, `OP_DUP`, one byte behind its length, and a length that is cut off
example : parseScriptPushes [0x02, 0xaa, 0xbb, 0x76, 0x4c, 0x01, 0xcc, 0x4d, 0x05] =
    [[0xaa, 0xbb], [0xcc]] := by decide

end BitcoinData
