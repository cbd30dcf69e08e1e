import BitcoinData.Sanity.Slots
import BitcoinData.Sanity.System

/-! The invariant of the indexer that holds for every block source: the committed
heights have connected files, a window in flight starts right above them, and its
blocks are on disk before RocksDB learns of them. -/

namespace BitcoinData

open Lib

theorem linked_head {previous : Option BlockHashBytes} {blocks : List BlockScanInput}
    {block : BlockScanInput} {hash : BlockHashBytes} (h : Linked previous blocks)
    (hb : blocks[0]? = some block) (hh : previous = some hash) : block.previousBlockHash = hash := by
  cases blocks with
  | nil => cases hb
  | cons first rest =>
    rw [List.getElem?_cons_zero, Option.some.injEq] at hb
    rw [← hb]
    exact h.1 hash (by rw [hh]; rfl)

theorem linked_get {previous : Option BlockHashBytes} {blocks : List BlockScanInput} {k : ℕ}
    {a b : BlockScanInput} (h : Linked previous blocks) (ha : blocks[k]? = some a)
    (hb : blocks[k + 1]? = some b) : b.previousBlockHash = a.blockHash := by
  induction blocks generalizing previous k with
  | nil => cases ha
  | cons first rest ih =>
    cases k with
    | succ k => exact ih h.2 ha hb
    | zero =>
      rw [List.getElem?_cons_zero, Option.some.injEq] at ha
      subst ha
      exact linked_head h.2 hb rfl

theorem nextHeight_of_tip {config : IndexerConfig} {db : RocksIndexStore} {tip : IndexTip}
    (h : db.tip = some tip) : nextHeight config db = tip.height + 1 := by
  rw [nextHeight, h]

section
variable [Externals]

/-! ## The blocks of a window -/

namespace WindowSpec

variable {db : RocksIndexStore} {start : P2trIndexerState} {startHeight : ℕ} {window : Window}
  {done : List (BlockScanInput × Pending)}

theorem height_get (hw : WindowSpec db start startHeight window done) {k : ℕ}
    {d : BlockScanInput × Pending} (hk : done[k]? = some d) : d.1.height = startHeight + k := by
  obtain ⟨hlt, -⟩ := List.getElem?_eq_some_iff.mp hk
  have h := congrArg (·[k]?) hw.heights
  simp only [List.getElem?_map, hk, Option.map_some, List.getElem?_range' hlt,
    Option.some.injEq] at h
  omega

theorem stored_height (hw : WindowSpec db start startHeight window done)
    {d : BlockScanInput × Pending} (hd : d ∈ done) :
    d.2.applied.storageBlock.height = d.1.height ∧ d.2.applied.lightBlock.height = d.1.height := by
  obtain ⟨⟨s, s', hs⟩, -⟩ := hw.trace.mem hd
  have h := (toResponse_fields hs.response).1
  exact ⟨hs.height, h.trans hs.height⟩

theorem height_range (hw : WindowSpec db start startHeight window done)
    {d : BlockScanInput × Pending} (hd : d ∈ done) :
    startHeight ≤ d.1.height ∧ d.1.height < startHeight + done.length := by
  have hmem : d.1.height ∈ done.map (·.1.height) := List.mem_map.mpr ⟨d, hd, rfl⟩
  rw [hw.heights, List.mem_range'_1] at hmem
  exact hmem

theorem exists_of_height (hw : WindowSpec db start startHeight window done) {h : ℕ}
    (hlo : startHeight ≤ h) (hhi : h < startHeight + done.length) :
    ∃ d, done[h - startHeight]? = some d ∧ d.1.height = h := by
  have hlt : h - startHeight < done.length := by omega
  refine ⟨_, List.getElem?_eq_getElem hlt, ?_⟩
  rw [hw.height_get (List.getElem?_eq_getElem hlt)]
  omega

theorem lastHeight_eq (hw : WindowSpec db start startHeight window done) :
    done ≠ [] ∧ window.lastHeight + 1 = startHeight + done.length := by
  obtain ⟨b, hb, heq⟩ := Option.map_eq_some_iff.mp hw.last
  rw [List.getLast?_map, Option.map_eq_some_iff] at hb
  obtain ⟨d, hd, rfl⟩ := hb
  have hne : done ≠ [] := by
    rintro rfl
    cases hd
  rw [List.getLast?_eq_getElem?] at hd
  have hheight := hw.height_get hd
  have hpos := List.length_pos_iff.mpr hne
  have hlast : d.1.height = window.lastHeight := (Prod.mk.inj heq).1
  exact ⟨hne, by omega⟩

theorem last_get (hw : WindowSpec db start startHeight window done) :
    ∃ d ∈ done, d.1.height = window.lastHeight ∧ d.1.blockHash = window.lastHash := by
  obtain ⟨b, hb, heq⟩ := Option.map_eq_some_iff.mp hw.last
  rw [List.getLast?_map, Option.map_eq_some_iff] at hb
  obtain ⟨d, hd, rfl⟩ := hb
  exact ⟨d, List.mem_of_getLast? hd, (Prod.mk.inj heq).1, (Prod.mk.inj heq).2⟩

theorem pending_nodup (hw : WindowSpec db start startHeight window done) :
    (window.pending.map (·.applied.storageBlock.height)).Nodup := by
  have heq : window.pending.map (·.applied.storageBlock.height) = done.map (·.1.height) := by
    rw [hw.pending, List.map_map]
    exact List.map_congr_left fun d hd => (hw.stored_height hd).1
  rw [heq, hw.heights]
  exact List.nodup_range'

theorem mem_pending (hw : WindowSpec db start startHeight window done) {p : Pending}
    (hp : p ∈ window.pending) : ∃ d ∈ done, d.2 = p := by
  rw [hw.pending] at hp
  exact List.mem_map.mp hp

theorem pending_height (hw : WindowSpec db start startHeight window done) {p : Pending}
    (hp : p ∈ window.pending) : p.applied.lightBlock.height = p.applied.storageBlock.height ∧
      startHeight ≤ p.applied.storageBlock.height ∧
      p.applied.storageBlock.height ≤ window.lastHeight ∧
      decodeStoredLightBlock p.payload = .ok p.applied.storageBlock.normalised := by
  obtain ⟨d, hd, rfl⟩ := hw.mem_pending hp
  obtain ⟨h₁, h₂⟩ := hw.stored_height hd
  obtain ⟨hlo, hhi⟩ := hw.height_range hd
  have hlast := hw.lastHeight_eq.2
  refine ⟨by rw [h₁, h₂], by omega, by omega, decode_storedBlockBytes (hw.trace.mem hd).2⟩

end WindowSpec

/-! ## The committed files -/

/-- Every committed height has a file, the files connect, and the last one is the tip. -/
structure ChainFiles (config : IndexerConfig) (archive : FileArchive) (db : RocksIndexStore) :
    Prop where
  emit : config.emitStartHeight ≤ nextHeight config db
  file : ∀ h, config.emitStartHeight ≤ h → h < nextHeight config db →
    ∃ block, archive.Stored h block ∧ block.height = h
  link : ∀ h block block', config.emitStartHeight ≤ h → h + 1 < nextHeight config db →
    archive.Stored h block → archive.Stored (h + 1) block' →
    block'.previousBlockHash = block.blockHash
  tip : ∀ tip, db.tip = some tip → config.emitStartHeight ≤ tip.height ∧
    ∃ block, archive.Stored tip.height block ∧ block.blockHash = tip.blockHash

variable {config : IndexerConfig} {archive archive' : FileArchive} {db : RocksIndexStore}

/-- A committed block seen through a later archive that kept it. -/
theorem ChainFiles.stored_back (hc : ChainFiles config archive db)
    (hk : ∀ h, h < nextHeight config db → FileArchive.Kept archive archive' h) {h : ℕ}
    {block' : StoredLightBlockInput} (hlo : config.emitStartHeight ≤ h)
    (hhi : h < nextHeight config db) (hs : archive'.Stored h block') :
    ∃ block, archive.Stored h block ∧ block'.unmarked = block.unmarked := by
  obtain ⟨block, hb, -⟩ := hc.file h hlo hhi
  obtain ⟨block'', hb'', hu⟩ := hk h hhi block hb
  rw [hs.unique hb'']
  exact ⟨block, hb, hu⟩

theorem ChainFiles.kept (hc : ChainFiles config archive db)
    (hk : ∀ h, h < nextHeight config db → FileArchive.Kept archive archive' h) :
    ChainFiles config archive' db where
  emit := hc.emit
  file := by
    intro h hlo hhi
    obtain ⟨block, hb, hheight⟩ := hc.file h hlo hhi
    obtain ⟨block', hb', hu⟩ := hk h hhi block hb
    exact ⟨block', hb', (header_of_unmarked hu).1.trans hheight⟩
  link := by
    intro h block' next' hlo hhi hb' hn'
    obtain ⟨block, hb, hub⟩ := hc.stored_back hk hlo (by omega) hb'
    obtain ⟨next, hn, hun⟩ := hc.stored_back hk (by omega) hhi hn'
    rw [(header_of_unmarked hun).2.2, (header_of_unmarked hub).2.1]
    exact hc.link h block next hlo hhi hb hn
  tip := by
    intro tip htip
    obtain ⟨hemit, block, hb, hhash⟩ := hc.tip tip htip
    obtain ⟨block', hb', hu⟩ := hk tip.height (by rw [nextHeight_of_tip htip]; omega) block hb
    exact ⟨hemit, block', hb', (header_of_unmarked hu).2.1.trans hhash⟩

theorem Written.header {start : P2trIndexerState} {startHeight : ℕ} {window : Window}
    {done : List (BlockScanInput × Pending)} (hw : WindowSpec db start startHeight window done)
    {d : BlockScanInput × Pending} (hd : d ∈ done) (h : Written archive d.2) :
    ∃ block, archive.Stored d.1.height block ∧ block.height = d.1.height ∧
      block.blockHash = d.1.blockHash ∧ block.previousBlockHash = d.1.previousBlockHash := by
  obtain ⟨⟨s, s', hs⟩, -⟩ := hw.trace.mem hd
  obtain ⟨block, hb, hu⟩ := h
  rw [hs.height] at hb
  obtain ⟨h₁, h₂, h₃⟩ := header_of_unmarked hu
  exact ⟨block, hb, h₁.trans hs.height, h₂.trans hs.blockHash, h₃.trans hs.previousBlockHash⟩

theorem ChainFiles.commit {start : P2trIndexerState} {window : Window}
    {done : List (BlockScanInput × Pending)} (hc : ChainFiles config archive db)
    (hw : WindowSpec db start (nextHeight config db) window done)
    (hwritten : ∀ p ∈ window.pending, Written archive p) {db' : RocksIndexStore} {uid : UInt64}
    (hdb : db'.tip = some ⟨window.lastHeight, window.lastHash, uid⟩) :
    ChainFiles config archive db' := by
  have hlast := hw.lastHeight_eq.2
  have hnext : nextHeight config db' = nextHeight config db + done.length := by
    rw [nextHeight_of_tip hdb, ← hlast]
  have hemit := hc.emit
  have hheader : ∀ d ∈ done, ∃ block, archive.Stored d.1.height block ∧
      block.height = d.1.height ∧ block.blockHash = d.1.blockHash ∧
      block.previousBlockHash = d.1.previousBlockHash := fun d hd =>
    Written.header hw hd (hwritten d.2 (hw.pending ▸ List.mem_map_of_mem hd))
  -- the header stored at a window height is the one of the window's block
  have hget : ∀ {h : ℕ} {block : StoredLightBlockInput}, nextHeight config db ≤ h →
      h < nextHeight config db + done.length → archive.Stored h block →
      ∃ d, done[h - nextHeight config db]? = some d ∧ block.blockHash = d.1.blockHash ∧
        block.previousBlockHash = d.1.previousBlockHash := by
    intro h block hlo hhi hs
    obtain ⟨d, hd, hheight⟩ := hw.exists_of_height hlo hhi
    obtain ⟨block', hs', -, hhash, hprev⟩ := hheader d (List.mem_of_getElem? hd)
    rw [hheight] at hs'
    rw [hs.unique hs']
    exact ⟨d, hd, hhash, hprev⟩
  refine ⟨by omega, ?_, ?_, ?_⟩
  · intro h hlo hhi
    by_cases hold : h < nextHeight config db
    · exact hc.file h hlo hold
    · obtain ⟨d, hd, hheight⟩ := hw.exists_of_height (by omega) (by omega : h < _ + done.length)
      obtain ⟨block, hs, hb, -, -⟩ := hheader d (List.mem_of_getElem? hd)
      rw [hheight] at hs hb
      exact ⟨block, hs, hb⟩
  · intro h block block' hlo hhi hs hs'
    by_cases hold : h + 1 < nextHeight config db
    · exact hc.link h block block' hlo hold hs hs'
    · obtain ⟨d', hd', -, hprev'⟩ := hget (by omega) (by omega) hs'
      have hfst' : (done.map Prod.fst)[h + 1 - nextHeight config db]? = some d'.1 := by
        rw [List.getElem?_map, hd', Option.map_some]
      rw [hprev']
      by_cases hedge : h + 1 = nextHeight config db
      · -- the first block of the window connects to the tip hash it was validated against
        rw [hedge, Nat.sub_self] at hfst'
        cases htip : db.tip with
        | none =>
          have hfresh : nextHeight config db = config.emitStartHeight := by rw [nextHeight, htip]
          omega
        | some tip =>
          obtain ⟨-, tipBlock, htb, hhash⟩ := hc.tip tip htip
          rw [nextHeight_of_tip htip] at hedge
          obtain rfl : h = tip.height := by omega
          rw [hs.unique htb, hhash]
          exact linked_head hw.linked hfst' (by rw [RocksIndexStore.previousTipHash, htip]; rfl)
      · obtain ⟨d, hd, hhash, -⟩ := hget (by omega) (by omega) hs
        have hfst : (done.map Prod.fst)[h - nextHeight config db]? = some d.1 := by
          rw [List.getElem?_map, hd, Option.map_some]
        rw [hhash]
        rw [show h + 1 - nextHeight config db = h - nextHeight config db + 1 by omega] at hfst'
        exact linked_get hw.linked hfst hfst'
  · intro tip htip
    rw [hdb, Option.some.injEq] at htip
    subst htip
    obtain ⟨d, hd, hheight, hhash⟩ := hw.last_get
    obtain ⟨block, hs, -, hb, -⟩ := hheader d hd
    rw [hheight] at hs
    have := (hw.height_range hd).1
    exact ⟨by simp only; omega, block, hs, by rw [hb, hhash]⟩

/-! ## Stages -/

/-- A window between its computation and its commit. -/
structure Flight (config : IndexerConfig) (db : RocksIndexStore) (process : Process)
    (window : Window) : Prop where
  next : process.chainNextHeight = window.lastHeight + 1
  state : process.state = window.state
  spec : ∃ start done, WindowSpec db start (nextHeight config db) window done

/-- A committed window whose manifest is not yet complete. -/
structure Settled (db : RocksIndexStore) (process : Process) (window : Window) : Prop where
  next : process.chainNextHeight = window.lastHeight + 1
  state : process.state = window.state
  tip : db.tip = some ⟨window.lastHeight, window.lastHash, window.state.lastUid⟩

def StageInv (config : IndexerConfig) (disk : Disk) (process : Process) : Prop :=
  match process.stage with
  | .idle => process.chainNextHeight = nextHeight config disk.indexStore
  | .writing window rest => Flight config disk.indexStore process window ∧
    ∃ written, window.pending = written ++ rest ∧ ∀ p ∈ written, Written disk.archive p
  | .marking window _ => Flight config disk.indexStore process window ∧
    ∀ p ∈ window.pending, Written disk.archive p
  | .truncating window => Settled disk.indexStore process window
  | .finishing window => Settled disk.indexStore process window

/-- What holds in every reachable state, whatever the block source answers. -/
structure Base (config : IndexerConfig) (sys : System) : Prop where
  files : ChainFiles config sys.disk.archive sys.disk.indexStore
  manifest : ∀ m, sys.disk.archive.manifest = .complete m → ∃ chainTip tip, m.tip = some chainTip ∧
    sys.disk.indexStore.tip = some tip ∧ chainTip.height ≤ tip.height
  stage : ∀ process, sys.process = some process → StageInv config sys.disk process

theorem Base.init (config : IndexerConfig) : Base config System.init where
  files := {
    emit := le_refl _
    file := fun h hlo hhi => absurd hlo (not_le.mpr hhi)
    link := fun h _ _ hlo hhi _ _ => absurd hlo (not_le.mpr (Nat.lt_of_succ_lt hhi))
    tip := fun tip h => by cases h }
  manifest := fun m h => by cases h
  stage := fun process h => by cases h

theorem Base.inFlight {disk : Disk} {process : Process} {window : Window} {rest : List Pending}
    (hb : Base config ⟨disk, some process⟩) (hs : process.stage = .writing window rest) :
    Flight config disk.indexStore process window ∧
      ∃ written, window.pending = written ++ rest ∧ ∀ p ∈ written, Written disk.archive p := by
  have h := hb.stage process rfl
  unfold StageInv at h
  rwa [hs] at h

theorem Base.marking {disk : Disk} {process : Process} {window : Window}
    {rest : List (ℕ × List (UInt32 × UInt32))}
    (hb : Base config ⟨disk, some process⟩) (hs : process.stage = .marking window rest) :
    Flight config disk.indexStore process window ∧ ∀ p ∈ window.pending, Written disk.archive p := by
  have h := hb.stage process rfl
  unfold StageInv at h
  rwa [hs] at h

/-- The first block of `rest` is filed above the committed heights and under a height
of its own. -/
theorem Flight.write_height {process : Process} {window : Window} {written rest : List Pending}
    {p : Pending} (hf : Flight config db process window)
    (hp : window.pending = written ++ p :: rest) :
    p.applied.lightBlock.height = p.applied.storageBlock.height ∧
      nextHeight config db ≤ p.applied.storageBlock.height ∧
      decodeStoredLightBlock p.payload = .ok p.applied.storageBlock.normalised ∧
      ∀ q ∈ written, q.applied.storageBlock.height ≠ p.applied.storageBlock.height := by
  obtain ⟨start, done, hw⟩ := hf.spec
  have hmem : p ∈ window.pending := by simp [hp]
  obtain ⟨h₁, h₂, -, h₃⟩ := hw.pending_height hmem
  refine ⟨h₁, h₂, h₃, fun q hq heq => ?_⟩
  have hnd := hw.pending_nodup
  rw [hp, List.map_append, List.nodup_append] at hnd
  exact hnd.2.2 _ (List.mem_map_of_mem hq) _ (List.mem_map_of_mem List.mem_cons_self) heq

/-! ## Spends and marks of a window -/

/-- A written file of the window carries no mark yet. -/
def FreshFile (archive : FileArchive) (p : Pending) : Prop :=
  ∀ block, archive.Stored p.applied.storageBlock.height block →
    ∀ i, i < block.outputs.length → block.mark i = STORAGE_SPENT_HEIGHT_UNSPENT

theorem WindowSpec.spends_mem {db : RocksIndexStore} {start : P2trIndexerState} {startHeight : ℕ}
    {window : Window} {done : List (BlockScanInput × Pending)}
    (hw : WindowSpec db start startHeight window done) {height spentHeight : ℕ} {index : UInt32}
    (h : (height, index, spentHeight) ∈ window.spends) :
    ∃ p ∈ window.pending, ∃ spent ∈ p.applied.spentUtxos, spent.creationHeight = height ∧
      spent.outputIndex = index ∧ p.applied.storageBlock.height = spentHeight ∧
      ∃ spend ∈ p.applied.storageBlock.spends, spend.spentUid = spent.uid ∧
        spend.creationHeight.toNat = height := by
  obtain ⟨p, hp, hmem⟩ := List.mem_flatMap.mp h
  obtain ⟨spent, hspent, heq⟩ := List.mem_map.mp hmem
  obtain ⟨hheight, heq⟩ := Prod.mk.inj heq
  obtain ⟨hindex, hs⟩ := Prod.mk.inj heq
  obtain ⟨d, hd, rfl⟩ := hw.mem_pending hp
  obtain ⟨⟨s, s', hspec⟩, -⟩ := hw.trace.mem hd
  have hpair : (spent.uid, spent.creationHeight) ∈
      d.2.applied.storageBlock.spends.map fun s => (s.spentUid, s.creationHeight.toNat) := by
    rw [hspec.spends]
    exact List.mem_map.mpr ⟨spent, hspent, rfl⟩
  obtain ⟨spend, hspend, hpe⟩ := List.mem_map.mp hpair
  refine ⟨d.2, hp, spent, hspent, hheight, hindex, ?_, spend, hspend, (Prod.mk.inj hpe).1, ?_⟩
  · rw [hspec.height, ← hspec.spentHeight spent hspent, hs]
  · rw [(Prod.mk.inj hpe).2, hheight]

theorem Flight.spends_height {disk : Disk} {process : Process} {window : Window}
    (hf : Flight config disk.indexStore process window) {height spentHeight : ℕ} {index : UInt32}
    (h : (height, index, spentHeight) ∈ window.spends) :
    nextHeight config disk.indexStore ≤ spentHeight ∧ spentHeight ≤ window.lastHeight ∧
      spentHeight ≤ U32_MAX := by
  obtain ⟨start, done, hw⟩ := hf.spec
  obtain ⟨p, hp, -, -, -, -, rfl, -⟩ := hw.spends_mem h
  obtain ⟨-, hlo, hhi, -⟩ := hw.pending_height hp
  obtain ⟨d, hd, rfl⟩ := hw.mem_pending hp
  exact ⟨hlo, hhi, (valid_of_storedBlockBytes (hw.trace.mem hd).2).height⟩

theorem Flight.stored_write {disk : Disk} {process : Process} {window : Window}
    {written rest : List Pending} {p : Pending}
    (hf : Flight config disk.indexStore process window)
    (hp : window.pending = written ++ p :: rest) :
    ∀ (height : ℕ) (block : StoredLightBlockInput), height < nextHeight config disk.indexStore →
      ((disk.archive.writeBlockBytes p.applied.lightBlock.height p.payload).Stored height block ↔
        disk.archive.Stored height block) := by
  intro height block hlt
  obtain ⟨hheight, hlo, -, -⟩ := hf.write_height hp
  apply FileArchive.stored_writeBlockBytes_of_ne
  omega

theorem mark_normalised {db : RocksIndexStore} {start : P2trIndexerState} {startHeight : ℕ}
    {window : Window} {done : List (BlockScanInput × Pending)}
    (hw : WindowSpec db start startHeight window done) {p : Pending} (hp : p ∈ window.pending)
    (i : ℕ) : p.applied.storageBlock.normalised.mark i = STORAGE_SPENT_HEIGHT_UNSPENT := by
  obtain ⟨d, hd, rfl⟩ := hw.mem_pending hp
  obtain ⟨⟨s, s', hs⟩, -⟩ := hw.trace.mem hd
  change ((d.2.applied.storageBlock.outputs[i]?).map _).getD _ = _
  rw [hs.outputs, List.getElem?_map]
  cases d.2.applied.createdUtxos[i]? with
  | none => rfl
  | some created => rfl

theorem FreshFile.write {archive : FileArchive} {db : RocksIndexStore} {start : P2trIndexerState}
    {startHeight : ℕ} {window : Window} {done : List (BlockScanInput × Pending)}
    (hw : WindowSpec db start startHeight window done) {written rest : List Pending} {p : Pending}
    (hp : window.pending = written ++ p :: rest)
    (hheight : p.applied.lightBlock.height = p.applied.storageBlock.height)
    (hdec : decodeStoredLightBlock p.payload = .ok p.applied.storageBlock.normalised)
    (hne : ∀ q ∈ written, q.applied.storageBlock.height ≠ p.applied.storageBlock.height)
    (hfresh : ∀ q ∈ written, FreshFile archive q) :
    ∀ q ∈ written ++ [p],
      FreshFile (archive.writeBlockBytes p.applied.lightBlock.height p.payload) q := by
  intro q hq block hs i hlen
  rw [hheight] at hs
  rcases List.mem_append.mp hq with hq | hq
  · exact hfresh q hq block ((FileArchive.stored_writeBlockBytes_of_ne (hne q hq)).mp hs) i hlen
  · rw [List.mem_singleton.mp hq, FileArchive.stored_writeBlockBytes_self, hdec,
      Except.ok.injEq] at hs
    rw [← hs]
    exact mark_normalised hw (by simp [hp]) i

/-- No step touches the blocks of the committed heights, spent heights apart. -/
theorem Steps.kept {sys sys' : System} {a : Action} (hb : Base config sys)
    (h : Steps config sys a sys') :
    ∀ height, height < nextHeight config sys.disk.indexStore →
      FileArchive.Kept sys.disk.archive sys'.disk.archive height := by
  intro height hlt
  cases h with
  | start hs =>
    obtain ⟨network, startHeight, rfl, -⟩ := startProcess_eq_ok hs
    exact FileArchive.Kept.refl _ _
  | write =>
    obtain ⟨hf, written, hp, -⟩ := hb.inFlight rfl
    obtain ⟨hheight, hlo, -, -⟩ := hf.write_height hp
    apply FileArchive.kept_writeBlockBytes
    rw [hheight]
    exact Nat.ne_of_lt (lt_of_lt_of_le hlt hlo)
  | mark hm => exact FileArchive.kept_markCreationBlock hm height
  | _ => exact FileArchive.Kept.refl _ _

omit [Externals] in
theorem commitAppliedBlocks_tip (db : RocksIndexStore) (blocks : List AppliedBlock) (height : ℕ)
    (hash : BlockHashBytes) (uid : UInt64) :
    (db.commitAppliedBlocks blocks height hash uid).tip = some ⟨height, hash, uid⟩ := rfl

/-- The committed tip never moves down. -/
theorem Steps.nextHeight_le {sys sys' : System} {a : Action} (hb : Base config sys)
    (h : Steps config sys a sys') :
    nextHeight config sys.disk.indexStore ≤ nextHeight config sys'.disk.indexStore := by
  cases h with
  | start hs =>
    obtain ⟨network, startHeight, rfl, -⟩ := startProcess_eq_ok hs
    exact le_refl _
  | commit =>
    obtain ⟨hf, -⟩ := hb.marking rfl
    obtain ⟨start, done, hw⟩ := hf.spec
    have := hw.lastHeight_eq.2
    rw [nextHeight_of_tip (commitAppliedBlocks_tip _ _ _ _ _)]
    simp only
    omega
  | _ => exact le_refl _

theorem Base.step {sys sys' : System} {a : Action} (hb : Base config sys)
    (h : Steps config sys a sys') : Base config sys' := by
  have hkept := h.kept hb
  cases h with
  | start hs =>
    obtain ⟨network, startHeight, rfl, rfl⟩ := startProcess_eq_ok hs
    refine ⟨⟨hb.files.emit, hb.files.file, hb.files.link, hb.files.tip⟩, hb.manifest, ?_⟩
    rintro process ⟨⟩
    rfl
  | stop => exact ⟨hb.files, hb.manifest, fun process h => by cases h⟩
  | @window disk state next best tuning fetch window hw =>
    refine ⟨hb.files, hb.manifest, ?_⟩
    rintro process ⟨⟩
    have hnext : next = nextHeight config disk.indexStore := hb.stage _ rfl
    rw [hnext] at hw
    obtain ⟨done, hspec, -⟩ := catchUpWindow_spec hb.files.emit hw
    exact ⟨⟨rfl, rfl, _, done, hspec⟩, [], rfl, by simp⟩
  | @write disk state next window p rest =>
    obtain ⟨hf, written, hp, hwritten⟩ := hb.inFlight rfl
    obtain ⟨hheight, hlo, hdec, hne⟩ := hf.write_height hp
    refine ⟨hb.files.kept hkept, hb.manifest, ?_⟩
    rintro process ⟨⟩
    refine ⟨⟨hf.next, hf.state, hf.spec⟩, written ++ [p], by simp [hp], fun q hq => ?_⟩
    rw [hheight]
    rcases List.mem_append.mp hq with hq | hq
    · exact (hwritten q hq).kept (FileArchive.kept_writeBlockBytes _ _ (hne q hq))
    · rw [List.mem_singleton.mp hq]
      exact ⟨_, FileArchive.stored_writeBlockBytes_self.mpr hdec, rfl⟩
  | group hg =>
    obtain ⟨hf, written, hp, hwritten⟩ := hb.inFlight rfl
    refine ⟨hb.files, hb.manifest, ?_⟩
    rintro process ⟨⟩
    rw [List.append_nil] at hp
    exact ⟨⟨hf.next, hf.state, hf.spec⟩, hp ▸ hwritten⟩
  | mark hm =>
    obtain ⟨hf, hwritten⟩ := hb.marking rfl
    have hmanifest : _ = _ := FileArchive.markCreationBlock_manifest hm
    refine ⟨hb.files.kept hkept, fun m h => hb.manifest m (hmanifest ▸ h), ?_⟩
    rintro process ⟨⟩
    exact ⟨⟨hf.next, hf.state, hf.spec⟩, fun p hp =>
      (hwritten p hp).kept (FileArchive.kept_markCreationBlock hm _)⟩
  | commit =>
    obtain ⟨hf, hwritten⟩ := hb.marking rfl
    obtain ⟨start, done, hw⟩ := hf.spec
    have hlast := hw.lastHeight_eq.2
    refine ⟨hb.files.commit hw hwritten (commitAppliedBlocks_tip _ _ _ _ _), fun m h => ?_, ?_⟩
    · obtain ⟨chainTip, tip, hm, htip, hle⟩ := hb.manifest m h
      refine ⟨chainTip, _, hm, commitAppliedBlocks_tip _ _ _ _ _, ?_⟩
      rw [nextHeight_of_tip htip] at hlast
      simp only
      omega
    · rintro process ⟨⟩
      exact ⟨hf.next, hf.state, commitAppliedBlocks_tip _ _ _ _ _⟩
  | truncate =>
    refine ⟨hb.files.kept hkept, fun m h => ManifestFile.noConfusion h, ?_⟩
    rintro process ⟨⟩
    have hs : Settled _ _ _ := hb.stage _ rfl
    exact ⟨hs.next, hs.state, hs.tip⟩
  | finish =>
    have hs : Settled _ _ _ := hb.stage _ rfl
    refine ⟨hb.files.kept hkept, fun m h => ?_, ?_⟩
    · obtain rfl := ManifestFile.complete.inj h
      exact ⟨_, _, rfl, hs.tip, le_refl _⟩
    · rintro process ⟨⟩
      have hnext := hs.next
      simp only [StageInv]
      rw [nextHeight_of_tip hs.tip]
      exact hnext

theorem base_of_reachable {sys : System} (h : Reachable config sys) : Base config sys := by
  obtain ⟨acts, hrun⟩ := h
  exact run_invariant (fun a _ s s' hs hstep => hs.step (steps_of_step hstep)) (Base.init config)
    hrun

end

end BitcoinData
