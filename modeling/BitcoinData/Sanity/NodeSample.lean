import BitcoinData.Proofs.RestForms
import BitcoinData.Proofs.ScanPoint
import BitcoinData.Sanity.Sample
import BitcoinData.Spec.Node

/-! Two serialized blocks, the second with a payment to silent-payment keys, and a node that has
them. The values of the crates are those of the real functions at these inputs. -/

namespace BitcoinData

open Lib

/-! ## Serialized blocks -/

def coinbaseBytes (height : UInt8) : Bytes :=
  [0x02, 0x00, 0x00, 0x00, 0x01] ++ List.replicate 32 0x00 ++ List.replicate 4 0xff ++
    [0x02, 0x01, height] ++ List.replicate 4 0xff ++
    [0x01, 0x00, 0xf2, 0x05, 0x2a, 0x01, 0x00, 0x00, 0x00, 0x22, 0x51, 0x20] ++
    generatorKey.bytes.tail ++ [0x00, 0x00, 0x00, 0x00]

/-- Spends a Taproot output on the key path and an output of the generator's key hash. -/
def paymentBytes : Bytes :=
  [0x02, 0x00, 0x00, 0x00, 0x00, 0x01, 0x02] ++
    List.replicate 32 0x07 ++ [0x00, 0x00, 0x00, 0x00, 0x00, 0xff, 0xff, 0xff, 0xff] ++
    List.replicate 32 0x03 ++ [0x01, 0x00, 0x00, 0x00, 0x00, 0xff, 0xff, 0xff, 0xff] ++
    [0x01, 0xe8, 0x03, 0x00, 0x00, 0x00, 0x00, 0x00, 0x00, 0x22, 0x51, 0x20] ++ tripleKey.bytes.tail ++
    [0x01, 0x40] ++ List.replicate 64 0x01 ++ [0x02, 0x47] ++ List.replicate 71 0x01 ++ [0x21] ++
    generatorKey.bytes ++ [0x00, 0x00, 0x00, 0x00]

def headerBytes (previous merkleRoot time : Bytes) : Bytes :=
  [0x00, 0x00, 0x00, 0x20] ++ previous ++ merkleRoot ++ time ++
    [0xff, 0xff, 0x7f, 0x20, 0x00, 0x00, 0x00, 0x00]

def firstTxid : TxidBytes :=
  ⟨[0xe5, 0xe6, 0x77, 0x1d, 0xe9, 0x79, 0xbd, 0xc1, 0x41, 0xd6, 0x9c, 0xfa, 0xaf, 0x99, 0x18, 0x89,
    0xc6, 0x2c, 0xe1, 0x62, 0xbe, 0x4c, 0xce, 0x06, 0x90, 0x59, 0xb9, 0x06, 0xd8, 0xa1, 0x82, 0xa6],
    rfl⟩

def firstHash : BlockHashBytes :=
  ⟨[0xb3, 0x08, 0x3b, 0xef, 0x33, 0xd0, 0xd9, 0x35, 0xc0, 0x01, 0xfb, 0xe0, 0x57, 0x2a, 0xc1, 0xe5,
    0xce, 0x8e, 0x60, 0xf6, 0x9e, 0x54, 0x3a, 0x9d, 0x03, 0x7d, 0xe2, 0x15, 0x46, 0x8c, 0x70, 0xe2],
    rfl⟩

def firstBytes : Bytes :=
  headerBytes (List.replicate 32 0x00) firstTxid.bytes [0x00, 0xf1, 0x53, 0x65] ++ [0x01] ++
    coinbaseBytes 0x64

def secondTxid : TxidBytes :=
  ⟨[0xce, 0x4b, 0xe8, 0x65, 0x50, 0x5e, 0x20, 0x35, 0xc3, 0xd3, 0xfa, 0x64, 0x54, 0x63, 0x2c, 0x1b,
    0x6d, 0x4f, 0x9e, 0xa7, 0x18, 0x65, 0x7c, 0x7f, 0x2e, 0x1f, 0x77, 0x1b, 0x9a, 0x18, 0xe3, 0xd9],
    rfl⟩

def paymentTxid : TxidBytes :=
  ⟨[0xd2, 0x5e, 0x40, 0x23, 0xc2, 0x1c, 0x22, 0x7a, 0xb1, 0x7b, 0x61, 0x3f, 0xf5, 0x87, 0x6f, 0x78,
    0x1a, 0x1a, 0x2f, 0x6a, 0x12, 0x28, 0x42, 0xbc, 0xcc, 0xf3, 0xb9, 0x98, 0x8b, 0x5c, 0x15, 0xbd],
    rfl⟩

def secondHash : BlockHashBytes :=
  ⟨[0x28, 0xc5, 0x79, 0xf2, 0xd3, 0x12, 0xa6, 0x1b, 0xee, 0xa2, 0xf8, 0x75, 0xf7, 0xb8, 0x7f, 0x6e,
    0xea, 0x68, 0x01, 0xbe, 0x09, 0x39, 0x95, 0xe7, 0xc4, 0x03, 0x44, 0x73, 0x0e, 0x48, 0xc6, 0x12],
    rfl⟩

def secondBytes : Bytes :=
  headerBytes firstHash.bytes
    [0x36, 0x93, 0xc4, 0xc5, 0x6f, 0x80, 0x6f, 0x7f, 0x8c, 0x43, 0x77, 0x12, 0x71, 0xc5, 0xb6, 0xf4,
      0xca, 0x42, 0x0f, 0x07, 0x3f, 0x6f, 0x53, 0x04, 0x43, 0xc3, 0xa8, 0x0d, 0x03, 0xe3, 0x04, 0x52]
    [0x58, 0xf3, 0x53, 0x65] ++ [0x02] ++ coinbaseBytes 0x65 ++ paymentBytes

/-! ## What they are decoded to -/

def coinbaseTx (txid : TxidBytes) (height : UInt8) : Transaction :=
  { txid
    input := [⟨⟨FixedBytes.fill 32 0, 4294967295⟩, [0x01, height], []⟩]
    output := [⟨5000000000, [0x51, 0x20] ++ generatorKey.bytes.tail⟩] }

def paymentTx : Transaction :=
  { txid := paymentTxid
    input := [⟨⟨FixedBytes.fill 32 7, 0⟩, [], [List.replicate 64 1]⟩,
      ⟨⟨FixedBytes.fill 32 3, 1⟩, [], [List.replicate 71 1, generatorKey.bytes]⟩]
    output := [⟨1000, [0x51, 0x20] ++ tripleKey.bytes.tail⟩] }

def firstRawBlock : Block :=
  { blockHash := firstHash, prevBlockhash := FixedBytes.fill 32 0, txdata := [coinbaseTx firstTxid 0x64] }

def secondRawBlock : Block :=
  { blockHash := secondHash
    prevBlockhash := firstHash
    txdata := [coinbaseTx secondTxid 0x65, paymentTx] }

@[reducible] def sampleBitcoinCrate : BitcoinCrate where
  deserialize bytes :=
    if bytes = firstBytes then .ok firstRawBlock
    else if bytes = secondBytes then .ok secondRawBlock
    else .error "unexpected end of file"
  xOnlyPublicKeyFromSlice bytes := .ok bytes

/-! ## A node -/

/-- The coinbase spends nothing; the payment spends the two outputs. -/
def sampleNodeChain : List NodeBlock :=
  [⟨firstBytes, firstRawBlock, ⟨[[]]⟩⟩,
    ⟨secondBytes, secondRawBlock, ⟨[[], [⟨2000, [0x51, 0x20] ++ doubleXonly.bytes⟩,
      ⟨3000, [0x00, 0x14] ++ generatorHash160.bytes⟩]]⟩⟩]

def scanCoinbase (txid : TxidBytes) (height : UInt8) : TxScanInput :=
  { txid
    txIndex := 0
    inputs := (coinbaseTx txid height).input.map scanInput
    outputs := [⟨0, 5000000000, [0x51, 0x20] ++ generatorKey.bytes.tail,
      some (copyBytes 32 generatorKey.bytes.tail), true, false⟩]
    silentPaymentTweak := none }

def sampleDecoded : List BlockScanInput :=
  [{ height := 100
     blockHash := firstHash
     previousBlockHash := FixedBytes.fill 32 0
     rawBlockBytes := 177
     txs := [scanCoinbase firstTxid 0x64] },
    { height := 101
      blockHash := secondHash
      previousBlockHash := firstHash
      rawBlockBytes := 487
      txs := [scanCoinbase secondTxid 0x65,
        { txid := paymentTxid
          txIndex := 1
          inputs := paymentTx.input.map scanInput
          outputs := [⟨0, 1000, [0x51, 0x20] ++ tripleKey.bytes.tail,
            some (copyBytes 32 tripleKey.bytes.tail), true, false⟩]
          silentPaymentTweak := some sampleScanPoint }] }]

theorem sampleDecoded_valid : ValidChain 100 sampleDecoded where
  heights := by decide
  createdOnce := by decide +kernel
  spentOnce := by
    -- nothing that is created is spent
    have hnone : ∀ o ∈ createdOutpoints sampleDecoded, ChainEvent.spend o ∉ chainEvents sampleDecoded := by
      decide +kernel
    have hcreated : ∀ event ∈ chainEvents sampleDecoded, ∀ o, event = .create o →
        o ∈ createdOutpoints sampleDecoded := by
      intro event hevent o ho
      subst ho
      simp only [chainEvents, TxScanInput.events, List.mem_flatMap, List.mem_append, List.mem_map,
        reduceCtorEq, and_false, exists_false, false_or, ChainEvent.create.injEq] at hevent
      simp only [createdOutpoints, List.mem_flatMap, List.mem_map]
      exact hevent
    intro before outpoint after h
    have hin : ChainEvent.create outpoint ∈ chainEvents sampleDecoded := by rw [h]; simp
    have hout := hnone outpoint (hcreated _ hin outpoint rfl)
    rw [h, List.mem_append, List.mem_cons] at hout
    rw [List.count_eq_zero_of_not_mem fun hmem => hout (.inr (.inr hmem))]
    exact Nat.zero_le 1
  notNull := by decide +kernel

section
attribute [local instance] sampleBitcoinCrate sampleCrypto

theorem sampleNodeChain_decode : (sampleNodeChain.zipIdx 100).mapM (fun block =>
    decodeBlockFrame block.2 block.1.block.blockHash block.1.bytes (some block.1.undo)) =
      .ok sampleDecoded := by
  decide +kernel

theorem sampleNodeChain_chain : NodeChain 100 sampleNodeChain sampleDecoded where
  deserialize := by decide +kernel
  decode := sampleNodeChain_decode
  linked k a b ha hb := by
    cases k with
    | zero =>
      obtain rfl := Option.some.inj ha
      obtain rfl := Option.some.inj hb
      rfl
    | succ k => cases hb
  heights := by decide
  fits b hb := by
    simp only [sampleNodeChain, List.mem_cons, List.not_mem_nil, or_false] at hb
    rcases hb with rfl | rfl
    · exact ⟨by decide +kernel, by decide +kernel, by decide +kernel, by decide +kernel⟩
    · exact ⟨by decide +kernel, by decide +kernel, by decide +kernel, by decide +kernel⟩
  valid := sampleDecoded_valid

end

/-! ## Its REST interface -/

/-- What the node answers for a block: its hash in text, the block, and its undo data, the second
time in hexadecimal with a line feed. -/
def sampleRestAnswers : List (String × HttpResponse) :=
  [("/rest/blockhashbyheight/100.hex", ⟨true, "200 OK", displayHash firstHash, .ok []⟩),
    ("/rest/blockhashbyheight/101.hex", ⟨true, "200 OK", displayHash secondHash, .ok []⟩),
    (s!"/rest/block/{displayHash firstHash}.bin", ⟨true, "200 OK", "", .ok firstBytes⟩),
    (s!"/rest/block/{displayHash secondHash}.bin", ⟨true, "200 OK", "", .ok secondBytes⟩),
    (s!"/rest/spenttxouts/{displayHash firstHash}.bin", ⟨true, "200 OK", "", .ok [0x01, 0x00]⟩),
    (s!"/rest/spenttxouts/{displayHash secondHash}.bin", ⟨true, "200 OK", "", .ok
      (hexText false (sampleNodeChain.getD 1 ⟨[], firstRawBlock, ⟨[]⟩⟩).undo.encoded ++ [0x0a])⟩)]

def sampleRestSource : RestSource where
  base := ""
  send url :=
    match sampleRestAnswers.lookup url with
    | some response => .ok response
    | none => .ok ⟨false, "404 Not Found", "Block height out of range", .ok []⟩

theorem hashPath_toList (height : ℕ) : (s!"/rest/blockhashbyheight/{height}.hex").toList =
    "/rest/blockhashbyheight/".toList ++ Nat.toDigits 10 height ++ ".hex".toList := by
  rw [String.toList_append, String.toList_append, Nat.toString_eq_repr, Nat.toList_repr]
  rfl

theorem hashPath_inj {m n : ℕ}
    (h : (s!"/rest/blockhashbyheight/{m}.hex") = s!"/rest/blockhashbyheight/{n}.hex") : m = n := by
  have hdigits := congrArg String.toList h
  rw [hashPath_toList, hashPath_toList, List.append_cancel_right_eq, List.append_cancel_left_eq] at hdigits
  have hvalue := congrArg (fun l => Nat.ofDigitChars 10 l 0) hdigits
  simpa only [Nat.ofDigitChars_toDigits (show 1 < 10 by decide) (show 10 ≤ 10 by decide)] using hvalue

theorem hashPath_unknown {height : ℕ} (h : 102 ≤ height) :
    sampleRestAnswers.lookup s!"/rest/blockhashbyheight/{height}.hex" = none := by
  have hsame : ∀ n < 102, (s!"/rest/blockhashbyheight/{height}.hex" == s!"/rest/blockhashbyheight/{n}.hex") =
      false := by
    intro n hn
    rw [beq_eq_false_iff_ne]
    intro heq
    have := hashPath_inj heq
    omega
  -- the other paths have a slash where this one says `blockhash`
  have hother : ∀ key : String, key.toList[11]? ≠ some 'h' →
      (s!"/rest/blockhashbyheight/{height}.hex" == key) = false := by
    intro key hkey
    rw [beq_eq_false_iff_ne]
    rintro rfl
    exact hkey (by rw [hashPath_toList, List.append_assoc]; rfl)
  have h₁ := hsame 100 (by decide)
  have h₂ := hsame 101 (by decide)
  have h₃ := hother (s!"/rest/block/{displayHash firstHash}.bin") (by decide +kernel)
  have h₄ := hother (s!"/rest/block/{displayHash secondHash}.bin") (by decide +kernel)
  have h₅ := hother (s!"/rest/spenttxouts/{displayHash firstHash}.bin") (by decide +kernel)
  have h₆ := hother (s!"/rest/spenttxouts/{displayHash secondHash}.bin") (by decide +kernel)
  simp only [sampleRestAnswers, List.lookup_cons, h₃, h₄, h₅, h₆, List.lookup_nil]
  rw [show ("/rest/blockhashbyheight/100.hex" : String) = s!"/rest/blockhashbyheight/{100}.hex" from rfl,
    show ("/rest/blockhashbyheight/101.hex" : String) = s!"/rest/blockhashbyheight/{101}.hex" from rfl, h₁, h₂]

theorem BlockSpentTxOuts.Held.of_forall {undo : BlockSpentTxOuts}
    (h : ∀ inputs ∈ undo.txs, inputs.length * SPENT_TXOUT_SIZE ≤ ISIZE_MAX ∧
      ∀ output ∈ inputs, output.valueSat.toNat ≤ I64_MAX ∧ output.scriptPubkey.length ≤ U64_MAX)
    (hcapacity : undo.txs.length * VEC_SIZE ≤ ISIZE_MAX) : undo.Held where
  inputs inputs hinputs :=
    { outputs := fun output ho => ⟨((h inputs hinputs).2 output ho).1, ((h inputs hinputs).2 output ho).2⟩
      capacity := (h inputs hinputs).1 }
  capacity := hcapacity

theorem sampleRestNode : RestNode 100 sampleNodeChain sampleRestSource where
  hash k b hb := by
    cases k with
    | zero =>
      obtain rfl := Option.some.inj hb
      decide +kernel
    | succ k =>
      cases k with
      | zero =>
        obtain rfl := Option.some.inj hb
        decide +kernel
      | succ k => cases hb
  beyond height h := by
    have hnone := hashPath_unknown (show 102 ≤ height from h)
    have hurl : sampleRestSource.url s!"/rest/blockhashbyheight/{height}.hex" =
        s!"/rest/blockhashbyheight/{height}.hex" := String.empty_append
    have hsend : sampleRestSource.send s!"/rest/blockhashbyheight/{height}.hex" =
        .ok ⟨false, "404 Not Found", "Block height out of range", .ok []⟩ := by
      change (match sampleRestAnswers.lookup _ with | some response => _ | none => _) = _
      rw [hnone]
    rw [RestSource.getText, hurl, hsend]
    exact ⟨_, rfl⟩
  block := by decide +kernel
  undo b hb := by
    simp only [sampleNodeChain, List.mem_cons, List.not_mem_nil, or_false] at hb
    rcases hb with rfl | rfl
    · exact ⟨_, by decide +kernel, .binary⟩
    · refine ⟨_, ?_, .hex false [] [0x0a] (by simp) ?_⟩
      · decide +kernel
      · exact List.forall_mem_singleton.mpr rfl
  held b hb := by
    have hfits : ∀ b ∈ sampleNodeChain, (∀ inputs ∈ b.undo.txs,
        inputs.length * SPENT_TXOUT_SIZE ≤ ISIZE_MAX ∧ ∀ output ∈ inputs,
          output.valueSat.toNat ≤ I64_MAX ∧ output.scriptPubkey.length ≤ U64_MAX) ∧
        b.undo.txs.length * VEC_SIZE ≤ ISIZE_MAX := by decide +kernel
    exact .of_forall (hfits b hb).1 (hfits b hb).2
  values := by decide +kernel

/-! ## A source without undo data -/

/-- Raw blocks only, as over IPC; the undo data is looked up by hash. -/
def sampleRawSource : BlockSource where
  getBlockHash height := .error (.failed s!"not asked for: {height}")
  getBlockRaw _ := .error (.failed "not asked for")
  getBlockSpentTxouts _ := .ok none
  getBlocksSpentTxouts hashes := hashes.mapM fun hash =>
    .ok ((sampleNodeChain.find? fun block => block.block.blockHash = hash).map (·.undo))
  getBlockByHeight height := .error (.failed s!"not asked for: {height}")
  getBlockRangeByHeight first count :=
    if 100 ≤ first ∧ first + count ≤ 102 then
      .ok ((((sampleNodeChain.drop (first - 100)).take count).zipIdx first).map fun block =>
        ⟨block.2, block.1.block.blockHash, block.1.bytes, none⟩)
    else .error (.failed "Block height out of range")

theorem sampleRawSource_serves : ServesFrames 100 sampleNodeChain sampleRawSource sampleRawSource where
  range first count hstart _ hend := by
    refine ⟨_, if_pos ⟨hstart, hend⟩, ?_⟩
    rw [List.forall₂_map_right_iff, List.forall₂_same]
    exact fun block _ => ⟨rfl, rfl, rfl, .inl rfl⟩
  beyond first count _ _ hend := by
    have hout : 102 < first + count := hend
    exact ⟨_, if_neg fun h => absurd h.2 (by omega)⟩
  undo blocks _ hsub := by
    have hfound : ∀ b ∈ sampleNodeChain, (sampleNodeChain.find? fun block =>
        block.block.blockHash = b.block.blockHash).map (·.undo) = some b.undo := by decide +kernel
    refine (mapM_eq_map (g := fun hash => (sampleNodeChain.find? fun block =>
      block.block.blockHash = hash).map (·.undo)) fun _ _ => rfl).trans ?_
    rw [List.map_map, Except.ok.injEq]
    exact List.map_congr_left fun b hb => hfound b (hsub hb)

/-! ## Orders -/

/-- Every request is answered before the next one. -/
def plainRest : RestSchedule := ⟨id, id, id⟩

theorem plainRest_possible : plainRest.Possible where
  hashes tasks hne := completes_in_order (by have := List.length_pos_iff.mpr hne; omega) tasks
  blocks tasks hne := completes_in_order (by have := List.length_pos_iff.mpr hne; omega) tasks
  undo tasks hne := completes_in_order (by have := List.length_pos_iff.mpr hne; omega) tasks

/-- Two tasks beside each other finish the other way round. -/
def swapTwo {α : Type} : List α → List α
  | [a, b] => [b, a]
  | tasks => tasks

theorem swapTwo_completes {α : Type} {limit : ℕ} (tasks : List α) (hlimit : 1 ≤ limit)
    (htwo : tasks.length = 2 → 2 ≤ limit) : Completes limit tasks [] (swapTwo tasks) := by
  unfold swapTwo
  split
  · exact completes_swapped (htwo rfl) _ _
  · exact completes_in_order hlimit tasks

def swappedRest : RestSchedule := ⟨swapTwo, swapTwo, swapTwo⟩

theorem swappedRest_possible : swappedRest.Possible where
  hashes tasks hne := swapTwo_completes tasks (by have := List.length_pos_iff.mpr hne; omega) (by omega)
  blocks tasks hne := swapTwo_completes tasks (by have := List.length_pos_iff.mpr hne; omega) (by omega)
  undo tasks hne := swapTwo_completes tasks (by have := List.length_pos_iff.mpr hne; omega) (by omega)

def plainChunks : ChunkSchedule := fun _ _ => id

theorem plainChunks_possible : plainChunks.Possible := fun _ _ hcount frames =>
  completes_in_order hcount frames

/-- Two decoders beside each other, where two may run. -/
def swappedChunks : ChunkSchedule := fun _ chunkCount => if 2 ≤ chunkCount then swapTwo else id

theorem swappedChunks_possible : swappedChunks.Possible := by
  intro _ chunkCount hcount frames
  unfold swappedChunks
  split_ifs with h
  · exact swapTwo_completes frames hcount fun _ => h
  · exact completes_in_order hcount frames

end BitcoinData
