import BitcoinData.Sanity.Reading
import BitcoinData.Spec.Client

/-! Which outputs a client finds in a response. The hashes of a transaction fix how many of its outputs
are retained, and which ones if they differ. -/

namespace BitcoinData

open Lib

/-! ## Hashes of transactions -/

section
variable {Output : Type} {skipped : ℕ → Bool} {p : ℕ} {ps : List ℕ} {tweaks tweaks' : List TweakEntryInput}
variable {outputs : List Output} {keep keep' : Output → Bool} {key : Output → XOnlyKey} {width : ℕ}

theorem storedTxs_none (hp : ¬ skipped p = true) :
    storedTxs skipped (p :: ps) [] outputs = none :: storedTxs skipped ps [] outputs := by
  rw [storedTxs, if_neg hp]

theorem storedTxs_cons (hp : ¬ skipped p = true) (entry : TweakEntryInput) :
    storedTxs skipped (p :: ps) (entry :: tweaks) outputs =
      some (entry.tweak, outputs.take entry.outputCount.toNat) ::
        storedTxs skipped ps tweaks (outputs.drop entry.outputCount.toNat) := by
  rw [storedTxs, if_neg hp]

theorem eq_of_filter_map_eq {β : Type} {f : Output → β} (hnd : (outputs.map f).Nodup)
    (h : (outputs.filter keep).map f = (outputs.filter keep').map f) : ∀ o ∈ outputs, keep o = keep' o := by
  have hinj := List.inj_on_of_nodup_map hnd
  have himp : ∀ {k k' : Output → Bool}, (outputs.filter k).map f = (outputs.filter k').map f →
      ∀ o ∈ outputs, k o = true → k' o = true := by
    intro k k' heq o ho hk
    have hmem : f o ∈ (outputs.filter k').map f := heq ▸ List.mem_map_of_mem (List.mem_filter.mpr ⟨ho, hk⟩)
    obtain ⟨o', ho', hf⟩ := List.mem_map.mp hmem
    obtain ⟨ho', hk'⟩ := List.mem_filter.mp ho'
    exact hinj ho' ho hf ▸ hk'
  intro o ho
  exact Bool.eq_iff_iff.mpr ⟨himp h o ho, himp h.symm o ho⟩

variable [Externals]

/-- The hashes of the transactions whose outputs are `outputs`. -/
def keptHashes (skipped : ℕ → Bool) (ps : List ℕ) (tweaks : List TweakEntryInput) (outputs : List Output)
    (keep : Output → Bool) (key : Output → XOnlyKey) (width : ℕ) : List (Option (List (List Bool))) :=
  txHashes ((storedTxs skipped ps tweaks outputs).map (keptTx keep key width))

theorem keptHashes_skipped (hp : skipped p = true) :
    keptHashes skipped (p :: ps) tweaks outputs keep key width =
      none :: keptHashes skipped ps tweaks outputs keep key width := by
  rw [keptHashes, storedTxs_skipped hp]
  rfl

theorem keptHashes_none (hp : ¬ skipped p = true) :
    keptHashes skipped (p :: ps) [] outputs keep key width =
      none :: keptHashes skipped ps [] outputs keep key width := by
  rw [keptHashes, storedTxs_none hp]
  rfl

theorem keptHashes_cons (hp : ¬ skipped p = true) (entry : TweakEntryInput) :
    keptHashes skipped (p :: ps) (entry :: tweaks) outputs keep key width =
      (if (outputs.take entry.outputCount.toNat).filter keep = [] then none
        else some (((outputs.take entry.outputCount.toNat).filter keep).map fun o => hashTop width (key o))) ::
        keptHashes skipped ps tweaks (outputs.drop entry.outputCount.toNat) keep key width := by
  rw [keptHashes, storedTxs_cons hp, List.map_cons, txHashes, List.map_cons, keptTx]
  split_ifs <;> rfl

theorem keptHashes_map {Output' : Type} (f : Output → Output') {keep' : Output' → Bool} {key' : Output' → XOnlyKey}
    (hcounts : tweaks'.map (·.outputCount) = tweaks.map (·.outputCount))
    (hkeep : ∀ o ∈ outputs, keep' (f o) = keep o) (hkey : ∀ o, key' (f o) = key o) :
    keptHashes skipped ps tweaks' (outputs.map f) keep' key' width =
      keptHashes skipped ps tweaks outputs keep key width := by
  induction ps generalizing tweaks tweaks' outputs with
  | nil => rfl
  | cons p ps ih =>
    by_cases hp : skipped p = true
    · rw [keptHashes_skipped hp, keptHashes_skipped hp, ih hcounts hkeep]
    · cases tweaks with
      | nil =>
        obtain rfl : tweaks' = [] := List.map_eq_nil_iff.mp hcounts
        rw [keptHashes_none hp, keptHashes_none hp, ih rfl hkeep]
      | cons entry tweaks =>
        obtain ⟨entry', tweaks', rfl, hcount, hcounts⟩ := List.map_eq_cons_iff.mp hcounts
        have hgroup : ((outputs.map f).take entry'.outputCount.toNat).filter keep' =
            ((outputs.take entry.outputCount.toNat).filter keep).map f := by
          rw [hcount, ← List.map_take, List.filter_map]
          refine congrArg _ (List.filter_congr fun o ho => ?_)
          exact hkeep o (List.mem_of_mem_take ho)
        rw [keptHashes_cons hp, keptHashes_cons hp, hgroup, hcount, ← List.map_drop,
          ih hcounts fun o ho => hkeep o (List.mem_of_mem_drop ho)]
        simp only [List.map_eq_nil_iff, List.map_map, Function.comp_def, hkey]

theorem keptHashes_congr (hkeep : ∀ o ∈ outputs, keep o = keep' o) :
    keptHashes skipped ps tweaks outputs keep' key width = keptHashes skipped ps tweaks outputs keep key width := by
  have h := @keptHashes_map _ skipped ps tweaks tweaks outputs keep key width _ _ id keep' key rfl
    (fun o ho => (hkeep o ho).symm) fun _ => rfl
  rwa [List.map_id] at h

/-- The transactions account for all outputs. -/
structure Accounted (skipped : ℕ → Bool) (ps : List ℕ) (tweaks : List TweakEntryInput) (outputs : List Output) :
    Prop where
  length : (ps.filter fun p => !skipped p).length = tweaks.length
  sum : tweakSum tweaks = outputs.length

omit [Externals] in
theorem Accounted.tail (h : Accounted skipped (p :: ps) tweaks outputs) (hp : skipped p = true) :
    Accounted skipped ps tweaks outputs := by
  refine ⟨?_, h.sum⟩
  rw [← h.length, List.filter_cons_of_neg (by simp [hp])]

omit [Externals] in
theorem Accounted.next (h : Accounted skipped (p :: ps) tweaks outputs) (hp : ¬ skipped p = true) :
    ∃ entry rest, tweaks = entry :: rest ∧ entry.outputCount.toNat ≤ outputs.length ∧
      Accounted skipped ps rest (outputs.drop entry.outputCount.toNat) := by
  have hlen := h.length
  have hsum := h.sum
  rw [List.filter_cons_of_pos (by simpa using hp), List.length_cons] at hlen
  cases tweaks with
  | nil => cases hlen
  | cons entry rest =>
    rw [tweakSum, List.map_cons, List.sum_cons, ← tweakSum] at hsum
    refine ⟨entry, rest, rfl, by omega, Nat.succ.inj hlen, ?_⟩
    rw [List.length_drop]
    omega

theorem flatMap_keptHashes (h : Accounted skipped ps tweaks outputs) :
    (keptHashes skipped ps tweaks outputs keep key width).flatMap (·.getD []) =
      (outputs.filter keep).map fun o => hashTop width (key o) := by
  induction ps generalizing tweaks outputs with
  | nil =>
    obtain rfl : tweaks = [] := List.length_eq_zero_iff.mp h.length.symm
    obtain rfl : outputs = [] := List.length_eq_zero_iff.mp h.sum.symm
    rfl
  | cons p ps ih =>
    by_cases hp : skipped p = true
    · rw [keptHashes_skipped hp, List.flatMap_cons, ih (h.tail hp)]
      rfl
    · obtain ⟨entry, rest, rfl, -, hrest⟩ := h.next hp
      rw [keptHashes_cons hp, List.flatMap_cons, ih hrest]
      conv_rhs => rw [← List.take_append_drop entry.outputCount.toNat outputs, List.filter_append, List.map_append]
      congr 1
      split_ifs with hnil
      · rw [hnil]
        rfl
      · rfl

theorem keep_eq_of_le (h : Accounted skipped ps tweaks outputs)
    (heq : keptHashes skipped ps tweaks outputs keep key width =
      keptHashes skipped ps tweaks outputs keep' key width)
    (hle : ∀ o ∈ outputs, keep o = true → keep' o = true) : ∀ o ∈ outputs, keep o = keep' o := by
  have hlen := congrArg (fun hashes => (hashes.flatMap fun x : Option (List (List Bool)) => x.getD []).length) heq
  simp only [flatMap_keptHashes h, List.length_map] at hlen
  have hboth : (outputs.filter keep').filter keep = outputs.filter keep := by
    rw [List.filter_filter]
    refine List.filter_congr fun o ho => ?_
    cases hk : keep o
    · rfl
    · rw [hle o ho hk]
      rfl
  have hsub : outputs.filter keep = outputs.filter keep' :=
    (hboth ▸ List.filter_sublist).eq_of_length hlen
  intro o ho
  refine Bool.eq_iff_iff.mpr ⟨hle o ho, fun hk => ?_⟩
  have hmem : o ∈ outputs.filter keep := hsub ▸ List.mem_filter.mpr ⟨ho, hk⟩
  exact (List.mem_filter.mp hmem).2

/-- The same outputs are kept where no transaction has two equal hashes. -/
theorem keep_eq_of_nodup (h : Accounted skipped ps tweaks outputs)
    (heq : keptHashes skipped ps tweaks outputs keep key width =
      keptHashes skipped ps tweaks outputs keep' key width)
    (hnd : ∀ tweak group, some (tweak, group) ∈ storedTxs skipped ps tweaks outputs →
      (group.map fun o => hashTop width (key o)).Nodup) : ∀ o ∈ outputs, keep o = keep' o := by
  induction ps generalizing tweaks outputs with
  | nil =>
    obtain rfl : tweaks = [] := List.length_eq_zero_iff.mp h.length.symm
    obtain rfl : outputs = [] := List.length_eq_zero_iff.mp h.sum.symm
    exact fun o ho => (List.not_mem_nil ho).elim
  | cons p ps ih =>
    by_cases hp : skipped p = true
    · rw [keptHashes_skipped hp, keptHashes_skipped hp] at heq
      rw [storedTxs_skipped hp] at hnd
      exact ih (h.tail hp) (List.cons.inj heq).2 fun tweak group hmem => hnd tweak group (.tail _ hmem)
    · obtain ⟨entry, rest, rfl, -, hrest⟩ := h.next hp
      rw [keptHashes_cons hp, keptHashes_cons hp] at heq
      rw [storedTxs_cons hp] at hnd
      obtain ⟨hgroup, htail⟩ := List.cons.inj heq
      have hfirst : ((outputs.take entry.outputCount.toNat).filter keep).map (fun o => hashTop width (key o)) =
          ((outputs.take entry.outputCount.toNat).filter keep').map fun o => hashTop width (key o) := by
        split_ifs at hgroup with hk hk'
        · rw [hk, hk']
        · exact Option.some.inj hgroup
      have htake := eq_of_filter_map_eq (hnd _ _ List.mem_cons_self) hfirst
      have hdrop := ih hrest htail fun tweak group hmem => hnd tweak group (.tail _ hmem)
      intro o ho
      rw [← List.take_append_drop entry.outputCount.toNat outputs, List.mem_append] at ho
      exact ho.elim (htake o) (hdrop o)

end

/-! ## The response of one block -/

def StoredLightBlockInput.uids (self : StoredLightBlockInput) : Finset ℕ :=
  ((List.range self.outputs.length).map self.outputUid).toFinset

/-- The transactions of a block account for its outputs. -/
def StoredLightBlockInput.TxsAccounted (self : StoredLightBlockInput) : Prop :=
  Accounted (skippedBit self.skippedTxsForTweaks) (List.range self.txCount.toNat) self.tweaks self.outputs

theorem mem_uids {block : StoredLightBlockInput} {uid : ℕ} :
    uid ∈ block.uids ↔ ∃ i < block.outputs.length, block.outputUid i = uid := by
  simp [StoredLightBlockInput.uids]

section
variable [Externals] {indexed : StoredLightBlockInput} {response : LightBlockInput} {payload : Bytes}
variable {found found' retained spent : Finset ℕ}

omit [Externals] in
theorem uidKeys_uids (hfirst : response.firstUid = indexed.firstUid) :
    ((indexed.uidKeys response.firstUid).map (·.1)).toFinset = indexed.uids := by
  rw [StoredLightBlockInput.uids, List.range_eq_range', ← List.zipIdx_map_snd, hfirst,
    StoredLightBlockInput.uidKeys, List.map_map, List.map_map]
  rfl

theorem retains_eq_true : indexed.retains response found = true ↔ ∃ reading,
    response.clientReading = some reading ∧ txHashes reading.txs = txHashes (indexed.foundTxs response found) := by
  simp [StoredLightBlockInput.retains, Option.any_eq_true]

omit [Externals] in
theorem uids_inter_eq_iff (hfirst : response.firstUid = indexed.firstUid) :
    indexed.uids ∩ found = indexed.uids ∩ found' ↔
      ∀ o ∈ indexed.uidKeys response.firstUid, decide (o.1 ∈ found) = decide (o.1 ∈ found') := by
  rw [← uidKeys_uids hfirst]
  simp only [Finset.ext_iff, Finset.mem_inter, List.mem_toFinset, List.mem_map, decide_eq_decide]
  constructor
  · intro h o ho
    simpa [show ∃ o' ∈ indexed.uidKeys response.firstUid, o'.1 = o.1 from ⟨o, ho, rfl⟩] using h o.1
  · intro h uid
    refine and_congr_right fun hmem => ?_
    obtain ⟨o, ho, rfl⟩ := hmem
    exact h o ho

omit [Externals] in
theorem StoredLightBlockInput.TxsAccounted.uidKeys (h : indexed.TxsAccounted) (firstUid : UInt64) :
    Accounted (skippedBit indexed.skippedTxsForTweaks) (List.range indexed.txCount.toNat) indexed.tweaks
      (indexed.uidKeys firstUid) := by
  refine ⟨h.length, h.sum.trans ?_⟩
  rw [StoredLightBlockInput.uidKeys, List.length_map, List.length_zipIdx]

theorem retains_of_inter_eq (hfirst : response.firstUid = indexed.firstUid)
    (hsame : indexed.uids ∩ found = indexed.uids ∩ found') (h : indexed.retains response found' = true) :
    indexed.retains response found = true := by
  obtain ⟨reading, hreading, htxs⟩ := retains_eq_true.mp h
  refine retains_eq_true.mpr ⟨reading, hreading, htxs.trans ?_⟩
  exact keptHashes_congr ((uids_inter_eq_iff hfirst).mp hsame)

/-- Among sets of which one holds the other, only one is retained. -/
theorem retains_le (hacc : indexed.TxsAccounted) (hfirst : response.firstUid = indexed.firstUid)
    (h : indexed.retains response found = true) (h' : indexed.retains response found' = true)
    (hle : indexed.uids ∩ found ⊆ found') : indexed.uids ∩ found = indexed.uids ∩ found' := by
  obtain ⟨reading, hreading, htxs⟩ := retains_eq_true.mp h
  obtain ⟨reading', hreading', htxs'⟩ := retains_eq_true.mp h'
  obtain rfl := Option.some.inj (hreading.symm.trans hreading')
  rw [uids_inter_eq_iff hfirst]
  refine keep_eq_of_le (hacc.uidKeys response.firstUid) (htxs.symm.trans htxs') fun o ho hk => ?_
  have huid : o.1 ∈ indexed.uids := by
    rw [← uidKeys_uids hfirst, List.mem_toFinset]
    exact List.mem_map_of_mem ho
  exact decide_eq_true (hle (Finset.mem_inter.mpr ⟨huid, of_decide_eq_true hk⟩))

/-- Where the hashes of each transaction differ, only one set is retained. -/
theorem retains_unique (hacc : indexed.TxsAccounted) (hfirst : response.firstUid = indexed.firstUid)
    (h : indexed.retains response found = true) (h' : indexed.retains response found' = true)
    (hapart : indexed.HashesApart response) : indexed.uids ∩ found = indexed.uids ∩ found' := by
  obtain ⟨reading, hreading, htxs⟩ := retains_eq_true.mp h
  obtain ⟨reading', hreading', htxs'⟩ := retains_eq_true.mp h'
  obtain rfl := Option.some.inj (hreading.symm.trans hreading')
  rw [uids_inter_eq_iff hfirst]
  exact keep_eq_of_nodup (hacc.uidKeys response.firstUid) (htxs.symm.trans htxs') hapart

/-! ## The payload of one block -/

/-- The client takes the payload for a response that retains `found`. -/
def Accepts (indexed : StoredLightBlockInput) (payload : Bytes) (found : Finset ℕ) : Prop :=
  ∃ response, decodeLightBlock payload = .ok response ∧ indexed.retains response found = true

/-- A payload for a block whose response retains `retained` and lists `spent` as spent. -/
structure ServedAs (indexed : StoredLightBlockInput) (payload : Bytes) (retained spent : Finset ℕ) : Prop where
  accounted : indexed.TxsAccounted
  subset : retained ⊆ indexed.uids
  response : ∃ response uids, decodeLightBlock payload = .ok response ∧ response.firstUid = indexed.firstUid ∧
    indexed.retains response retained = true ∧ decodeLightBlockSpentIds response = .ok uids ∧
    (uids.map (·.toNat)).toFinset = spent

theorem ServedAs.accepts (h : ServedAs indexed payload retained spent) (hfound : indexed.uids ∩ found = retained) :
    Accepts indexed payload found := by
  obtain ⟨response, uids, hdecoded, hfirst, hretains, -⟩ := h.response
  refine ⟨response, hdecoded, retains_of_inter_eq hfirst ?_ hretains⟩
  rw [hfound, Finset.inter_eq_right.mpr h.subset]

theorem ServedAs.eq_of_le (h : ServedAs indexed payload retained spent) (haccepts : Accepts indexed payload found)
    (hle : indexed.uids ∩ found ⊆ retained) : indexed.uids ∩ found = retained := by
  obtain ⟨response, uids, hdecoded, hfirst, hretains, -⟩ := h.response
  obtain ⟨response', hdecoded', hfound⟩ := haccepts
  obtain rfl := Except.ok.inj (hdecoded.symm.trans hdecoded')
  rw [retains_le h.accounted hfirst hfound hretains hle, Finset.inter_eq_right.mpr h.subset]

theorem ServedAs.unique (h : ServedAs indexed payload retained spent) (haccepts : Accepts indexed payload found)
    (hapart : ∀ response, decodeLightBlock payload = .ok response → indexed.HashesApart response) :
    indexed.uids ∩ found = retained := by
  obtain ⟨response, uids, hdecoded, hfirst, hretains, -⟩ := h.response
  obtain ⟨response', hdecoded', hfound⟩ := haccepts
  obtain rfl := Except.ok.inj (hdecoded.symm.trans hdecoded')
  rw [retains_unique h.accounted hfirst hfound hretains (hapart response hdecoded),
    Finset.inter_eq_right.mpr h.subset]

theorem ServedAs.block_eq_ok (h : ServedAs indexed payload retained spent) {client : Client} {height : ℕ}
    (hat : client.blockAt height = some indexed) {wallet wallet' : Finset ℕ} :
    client.block wallet height payload = .ok wallet' ↔
      Accepts indexed payload client.found ∧ wallet' = (wallet ∪ (indexed.uids ∩ client.found)) \ spent := by
  obtain ⟨response, uids, hdecoded, hfirst, -, hspent, rfl⟩ := h.response
  unfold Client.block
  rw [hat, okOr, ok_bind, hdecoded, ok_bind]
  simp only [bind_eq_ok, ensure_eq_ok, hspent, Except.ok.injEq, pure_eq_ok, uidKeys_uids hfirst]
  constructor
  · rintro ⟨_, hretains, _, rfl, rfl⟩
    exact ⟨⟨response, hdecoded, hretains⟩, rfl⟩
  · rintro ⟨⟨response', hdecoded', hretains⟩, rfl⟩
    obtain rfl := Except.ok.inj (hdecoded.symm.trans hdecoded')
    exact ⟨(), hretains, uids, rfl, rfl⟩

/-! ## Many blocks -/

omit [Externals] in
/-- A fold of steps that each add and remove a set, if they are taken at all. -/
theorem foldlM_exchange_eq_ok {ι : Type} {step : Finset ℕ → ι → Except String (Finset ℕ)} {items : List ι}
    {sets : ι → Finset ℕ × Finset ℕ} {Taken : ι → Prop}
    (h : ∀ x ∈ items, ∀ wallet wallet', step wallet x = .ok wallet' ↔
      Taken x ∧ wallet' = (wallet ∪ (sets x).1) \ (sets x).2) {wallet wallet' : Finset ℕ} :
    items.foldlM step wallet = .ok wallet' ↔ (∀ x ∈ items, Taken x) ∧
      wallet' = (items.map sets).foldl (fun s step => (s ∪ step.1) \ step.2) wallet := by
  induction items generalizing wallet with
  | nil => simp [pure_eq_ok, eq_comm]
  | cons x items ih =>
    rw [List.foldlM_cons, bind_eq_ok]
    have hx := h x List.mem_cons_self
    have ih' := fun wallet => @ih (fun y hy => h y (List.mem_cons_of_mem x hy)) wallet
    constructor
    · rintro ⟨next, hstep, hrest⟩
      obtain ⟨htaken, rfl⟩ := (hx _ _).mp hstep
      obtain ⟨hall, rfl⟩ := (ih' _).mp hrest
      exact ⟨List.forall_mem_cons.mpr ⟨htaken, hall⟩, rfl⟩
    · rintro ⟨hall, rfl⟩
      obtain ⟨htaken, hall⟩ := List.forall_mem_cons.mp hall
      exact ⟨_, (hx _ _).mpr ⟨htaken, rfl⟩, (ih' _).mpr ⟨hall, rfl⟩⟩

end

end BitcoinData
