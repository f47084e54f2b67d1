import StorageGateway.Layout.Decoded
import StorageGateway.Proofs.Abi
import StorageGateway.Proofs.JoinedNodes
import StorageGateway.Proofs.JsonRecords
import StorageGateway.Proofs.Packed
import StorageGateway.Proofs.Witness

/-!
# Proofs are read back

Each chain kind has its own layout, with headers, output roots or packed nodes inside the witness
and the trie nodes raw or joined. Whatever the block and the proof, decoding gives back the trie
nodes and what the block put into the witness; only Scroll asks something of the nodes, since packed
nodes are told apart by their own encoding.

## Main definitions

* `AnchoredBlock.anchor` — what the witness of a proof at a block decodes to.
* `AnchoredBlock.witness` and `AnchoredBlock.proofNodes` — the two tuples of the proof.
* `Json.lookup` — the member of an object with a name.
* `Anchor.members` — what a decoded witness shows.

## Main statements

* `AnchoredBlock.exists_encodeProof_error_iff` — which proofs do not fit their layout.
* `AnchoredBlock.layout_decode` — the two tuples are read back.
* `Anchor.sorted_toJson` — the JSON form of a decoded witness.
* `AnchoredBlock.decode_encodeProof` — the proof is read back.
-/

namespace StorageGateway

open Abi

/-! ## Layouts -/

namespace Layout

theorem lawful_arbitrum : arbitrum.Lawful :=
  .cons (.tuple (.cons .word (.cons .word (.cons .uint64 (.single .bytes)))))
    (.single JoinedNodes.lawful_codec)

theorem lawful_indexedOutput : indexedOutput.Lawful :=
  .tuple (.cons .word (.single (.tuple (.cons .word (.cons .word (.cons .word (.single .word)))))))

theorem lawful_outputOracle : outputOracle.Lawful :=
  .cons lawful_indexedOutput (.single JoinedNodes.lawful_codec)

theorem lawful_disputeGame : disputeGame.Lawful :=
  .cons lawful_indexedOutput (.single NodeLists.lawful_codec)

theorem lawful_scroll : scroll.Lawful :=
  .cons (.tuple (.cons .word (.cons .word (.single .bytes)))) (.single NodeLists.lawful_codec)

theorem lawful_l1 : l1.Lawful :=
  .cons (.tuple (.cons .word (.single .bytes))) (.single NodeLists.lawful_codec)

/-- Only the node index of Arbitrum can be out of range. -/
theorem valid_arbitrum {version sendRoot nodeIndex : Word} {header : Bytes}
    {nodes : Bytes × List Bytes} :
    arbitrum.valid ((version, sendRoot, nodeIndex, header), nodes) =
      Codec.uint64.valid nodeIndex := by
  simp [arbitrum, JoinedNodes.codec]

theorem valid_outputOracle (a) : outputOracle.valid a = true := by
  simp [outputOracle, indexedOutput, outputRoot, JoinedNodes.codec]

theorem valid_disputeGame (a) : disputeGame.valid a = true := by
  simp [disputeGame, indexedOutput, outputRoot, NodeLists.codec]

theorem valid_scroll (a) : scroll.valid a = true := by
  simp [scroll, NodeLists.codec]

theorem valid_l1 (a) : l1.valid a = true := by
  simp [l1, NodeLists.codec]

end Layout

/-! ## Lengths -/

/-- Joined nodes that were read have lengths that can be written. -/
theorem JoinedNodes.yields_codec : codec.Yields fun t => (ofTokens t).Fits :=
  .tuple (.cons .bytes (.single (.elements .bytes)))

/-- What was read from a proof has lengths that can be written. -/
theorem Layout.fits_of_decode {kind : ChainKind} {data : Bytes} {w : Witness} {nodes : ProofNodes}
    (h : decode kind data = .ok (w, nodes)) :
    (∀ bs, w.headerBytes? = some bs → bs.length < limit64) ∧
      ∀ j, nodes = .joined j → j.Fits := by
  cases kind with
  | arbitrum =>
    obtain ⟨t, hread, h⟩ := Except.bind_eq_ok_iff.1 h
    have hyields := Fields.Yields.cons
      (.tuple (.cons (.any .word) (.cons (.any .word) (.cons (.any .uint64) (.single .bytes)))))
      (.single JoinedNodes.yields_codec)
    obtain ⟨⟨-, -, -, hheader⟩, hnodes⟩ := hyields.of_decode hread
    cases h
    refine ⟨?_, ?_⟩
    · intro bs hb
      cases hb
      exact hheader
    · intro j hj
      cases hj
      exact hnodes
  | opOutputOracle =>
    obtain ⟨t, hread, h⟩ := Except.bind_eq_ok_iff.1 h
    have hyields := Fields.Yields.cons (.any indexedOutput) (.single JoinedNodes.yields_codec)
    have hnodes := (hyields.of_decode hread).2
    cases h
    refine ⟨nofun, ?_⟩
    intro j hj
    cases hj
    exact hnodes
  | opDisputeGame =>
    obtain ⟨t, -, h⟩ := Except.bind_eq_ok_iff.1 h
    cases h
    exact ⟨nofun, nofun⟩
  | scroll =>
    obtain ⟨t, -, h⟩ := Except.bind_eq_ok_iff.1 h
    cases h
    exact ⟨nofun, nofun⟩
  | l1 =>
    obtain ⟨t, hread, h⟩ := Except.bind_eq_ok_iff.1 h
    have hyields := Fields.Yields.cons (.tuple (.cons (.any .word) (.single .bytes)))
      (.single (.any NodeLists.codec))
    obtain ⟨⟨-, hheader⟩, -⟩ := hyields.of_decode hread
    cases h
    refine ⟨?_, nofun⟩
    intro bs hb
    cases hb
    exact hheader

/-! ## Members of objects -/

/-- The first member of an object with a name. -/
def Json.lookup (name : String) : Json → Option Json
  | obj members => members.lookup name
  | _ => none

/-- The members that show an output root, in alphabetical order. -/
def OutputRoot.members (o : OutputRoot) : List (String × Json) :=
  [("latestBlockhash", .fixed o.latestBlockhash),
    ("messagePasserStorageRoot", .fixed o.messagePasserStorageRoot),
    ("outputRoot", .fixed o.root), ("stateRoot", .fixed o.stateRoot), ("version", .fixed o.version)]

/-- The members that show a decoded witness, in alphabetical order. -/
def Anchor.members : Anchor → List (String × Json)
  | arbitrum version sendRoot nodeIndex header =>
    [("block", header.toJson.sorted), ("nodeIndex", .nat nodeIndex.toNat),
      ("sendRoot", .fixed sendRoot), ("version", .fixed version)]
  | outputOracle index output =>
    [("l2OutputIndex", .quantity index), ("outputRootProof", .obj output.members)]
  | disputeGame index output =>
    [("disputeGameIndex", .quantity index), ("outputRootProof", .obj output.members)]
  | scroll index key account storage =>
    [("batchIndex", .quantity index),
      ("compressedProof", .obj
        [("accountProof", .bytesList account), ("storageProof", .bytesList storage)]),
      ("storageKey", .fixed key)]
  | l1 number header => [("blockHeader", header.toJson.sorted), ("blockNo", .quantity number)]

/-- A decoded witness of any chain kind shows these members and no others. -/
theorem Anchor.sorted_toJson (a : Anchor) : a.toJson.sorted = .obj a.members := by
  cases a with
  | arbitrum version sendRoot nodeIndex header => rfl
  | outputOracle index output => rfl
  | disputeGame index output => rfl
  | scroll index key account storage =>
    rw [members, ← Json.sorted_bytesList account, ← Json.sorted_bytesList storage]
    rfl
  | l1 number header => rfl

/-! ## Blocks -/

namespace StateProof

/-- The nodes of the first storage proof, if there is one. -/
def firstNodes (p : StateProof) : List Bytes := (p.storageProofs.head?.map (·.nodes)).getD []

/-- The key of the first storage proof, zero if there is none. -/
def firstKey (p : StateProof) : UInt256 := (p.storageProofs.head?.map (·.key)).getD 0

end StateProof

namespace AnchoredBlock

variable {block : AnchoredBlock} {p : StateProof} {blob : Bytes}

/-- The trie nodes of a proof, in the layout for a block. -/
def proofNodes (block : AnchoredBlock) (p : StateProof) : ProofNodes :=
  match block with
  | arbitrum .. | outputOracle .. => .joined p.nodes.join
  | disputeGame .. | scroll .. | l1 .. => .raw p.nodes

/-- The witness of a proof at a block; `packed` are the nodes that Scroll's verifier takes. -/
def witness (block : AnchoredBlock) (p : StateProof) (packed : Bytes) : Witness :=
  match block with
  | arbitrum sendRoot nodeIndex header => .arbitrum .zero sendRoot nodeIndex header.encode
  | outputOracle _ index output => .outputOracle index output
  | disputeGame _ index output => .disputeGame index output
  | scroll _ index => .scroll index p.firstKey.toWord packed
  | l1 header => .l1 (header.number.setWidth 256) header.encode

/-- What the witness of a proof at a block decodes to. -/
def anchor (block : AnchoredBlock) (p : StateProof) : Anchor :=
  match block with
  | arbitrum sendRoot nodeIndex header => .arbitrum .zero sendRoot nodeIndex header.trim
  | outputOracle _ index output => .outputOracle index output
  | disputeGame _ index output => .disputeGame index output
  | scroll _ index => .scroll index p.firstKey.toWord p.accountNodes p.firstNodes
  | l1 header => .l1 (header.number.setWidth 256) header.trim

/-- The output root of a block that has one. -/
def output? : AnchoredBlock → Option OutputRoot
  | outputOracle _ _ output | disputeGame _ _ output => some output
  | arbitrum .. | scroll .. | l1 .. => none

/-! ## Encoding -/

/-- Only Scroll's layout can refuse a proof. -/
theorem encodeProof_eq_error_iff {e : Error} :
    block.encodeProof p = .error e ↔
      block.kind = .scroll ∧ Packed.pack p.accountNodes p.firstNodes = .error e := by
  cases block with
  | arbitrum sendRoot nodeIndex header => simp [encodeProof, kind]
  | outputOracle number index output => simp [encodeProof, kind]
  | disputeGame number index output => simp [encodeProof, kind]
  | l1 header => simp [encodeProof, kind]
  | scroll number index =>
    rw [encodeProof, Except.bind_eq_error_iff]
    constructor
    · intro h
      rcases h with h | ⟨packed, -, h⟩
      · exact ⟨rfl, h⟩
      · cases h
    · intro h
      exact .inl h.2

/-- A proof does not fit its layout exactly if it is for Scroll and one byte cannot tell how many
nodes it has. -/
theorem exists_encodeProof_error_iff :
    (∃ e, block.encodeProof p = .error e) ↔ block.kind = .scroll ∧
      (255 < p.accountNodes.length ∨ 255 < p.firstNodes.length) := by
  simp only [encodeProof_eq_error_iff, exists_and_left, Packed.exists_pack_error_iff]
  rfl

/-! ## The two tuples -/

/-- The two tuples of a proof are read back. -/
theorem layout_decode (h : block.encodeProof p = .ok blob)
    (hl : blob.length < Codec.addressable) :
    ∃ packed, (block.kind = .scroll → Packed.pack p.accountNodes p.firstNodes = .ok packed) ∧
      Layout.decode block.kind blob = .ok (block.witness p packed, block.proofNodes p) := by
  cases block with
  | arbitrum sendRoot nodeIndex header =>
    obtain rfl := Except.ok.inj h
    have hvalid : Codec.uint64.valid (word64 nodeIndex) = true := by
      simp [Codec.uint64, word64, UInt256.take_toWord_setWidth]
    have hread := Layout.lawful_arbitrum.decode_encode Layout.arbitrumName hl
      (Layout.valid_arbitrum.trans hvalid)
    refine ⟨[], nofun, ?_⟩
    rw [kind, Layout.decode, hread]
    simp only [bind, Except.bind, pure, Except.pure, word64,
      UInt256.toNat_toWord_setWidth, BitVec.ofNat_toNat, BitVec.setWidth_eq]
    rfl
  | outputOracle number index output =>
    obtain rfl := Except.ok.inj h
    have hread := Layout.lawful_outputOracle.decode_encode Layout.outputOracleName hl
      (Layout.valid_outputOracle _)
    refine ⟨[], nofun, ?_⟩
    rw [kind, Layout.decode, hread]
    simp only [bind, Except.bind, pure, Except.pure, UInt256.toUInt256_toWord]
    rfl
  | disputeGame number index output =>
    obtain rfl := Except.ok.inj h
    have hread := Layout.lawful_disputeGame.decode_encode Layout.disputeGameName hl
      (Layout.valid_disputeGame _)
    refine ⟨[], nofun, ?_⟩
    rw [kind, Layout.decode, hread]
    simp only [bind, Except.bind, pure, Except.pure, UInt256.toUInt256_toWord]
    rfl
  | scroll number index =>
    obtain ⟨packed, hpack, h⟩ := Except.bind_eq_ok_iff.1 h
    obtain rfl := Except.ok.inj h
    have hread := Layout.lawful_scroll.decode_encode Layout.scrollName hl (Layout.valid_scroll _)
    refine ⟨packed, fun _ => hpack, ?_⟩
    rw [kind, Layout.decode, hread]
    simp only [bind, Except.bind, pure, Except.pure, UInt256.toUInt256_toWord]
    rfl
  | l1 header =>
    obtain rfl := Except.ok.inj h
    have hread := Layout.lawful_l1.decode_encode Layout.l1Name hl (Layout.valid_l1 _)
    refine ⟨[], nofun, ?_⟩
    rw [kind, Layout.decode, hread]
    simp only [bind, Except.bind, pure, Except.pure, word64, UInt256.toUInt256_toWord]
    rfl

/-! ## What is inside -/

theorem lists_proofNodes (hfits : ∀ j, block.proofNodes p = .joined j → j.Fits) :
    (block.proofNodes p).lists = .ok p.nodes := by
  cases block with
  | arbitrum sendRoot nodeIndex header => exact JoinedNodes.split_join (hfits _ rfl)
  | outputOracle number index output => exact JoinedNodes.split_join (hfits _ rfl)
  | disputeGame number index output => rfl
  | scroll number index => rfl
  | l1 header => rfl

/-- The witness decodes to what the block put into it, unless packed nodes are no whole items. -/
theorem anchor_witness_iff {packed : Bytes}
    (hheader : ∀ bs, (block.witness p packed).headerBytes? = some bs → bs.length < limit64)
    (hpacked : block.kind = .scroll → Packed.pack p.accountNodes p.firstNodes = .ok packed) :
    (block.witness p packed).anchor = .ok (block.anchor p) ↔
      (block.kind = .scroll → ∀ node ∈ p.accountNodes ++ p.firstNodes, Rlp.IsItem node) := by
  cases block with
  | arbitrum sendRoot nodeIndex header =>
    have hread := BlockHeader.ofBytes_encode (hheader _ rfl)
    refine ⟨fun _ hscroll => (by cases hscroll), fun _ => ?_⟩
    simp only [witness, Witness.anchor, hread]
    rfl
  | outputOracle number index output => exact ⟨fun _ hscroll => (by cases hscroll), fun _ => rfl⟩
  | disputeGame number index output => exact ⟨fun _ hscroll => (by cases hscroll), fun _ => rfl⟩
  | scroll number index =>
    have hunpack : (witness (scroll number index) p packed).anchor =
        .ok (anchor (scroll number index) p) ↔
          Packed.unpack packed = .ok (p.accountNodes, p.firstNodes) := by
      constructor
      · intro h
        obtain ⟨⟨account, storage⟩, hunpack, h⟩ := Except.bind_eq_ok_iff.1 h
        cases h
        exact hunpack
      · intro h
        simp only [witness, Witness.anchor, h]
        rfl
    rw [hunpack, Packed.unpack_eq_ok_iff, and_iff_left (hpacked rfl)]
    exact ⟨fun h _ => h, fun h => h rfl⟩
  | l1 header =>
    have hread := BlockHeader.ofBytes_encode (hheader _ rfl)
    refine ⟨fun _ hscroll => (by cases hscroll), fun _ => ?_⟩
    simp only [witness, Witness.anchor, hread]
    rfl

/-- The proof is read back exactly if its packed nodes, if it has any, are whole items. -/
theorem decode_eq_ok_iff (h : block.encodeProof p = .ok blob)
    (hl : blob.length < Codec.addressable) :
    DecodedProof.decode block.kind blob = .ok ⟨block.anchor p, p.nodes⟩ ↔
      (block.kind = .scroll → ∀ node ∈ p.accountNodes ++ p.firstNodes, Rlp.IsItem node) := by
  obtain ⟨packed, hpacked, hread⟩ := layout_decode h hl
  obtain ⟨hheader, hfits⟩ := Layout.fits_of_decode hread
  have hlists := lists_proofNodes hfits
  rw [← anchor_witness_iff hheader hpacked]
  simp only [DecodedProof.decode, hread, Result.ofAbi, Except.mapError_ok, hlists, bind,
    Except.bind]
  cases hanchor : (block.witness p packed).anchor with
  | error e => simp
  | ok a => simp [pure, Except.pure]

/-! ## What is shown -/

/-- The output root of a block stands in the JSON form of its proofs. -/
theorem lookup_outputRoot {output : OutputRoot} (ho : block.output? = some output) :
    ((((⟨block.anchor p, p.nodes⟩ : DecodedProof).toJson.lookup "witness").bind
      (·.lookup "outputRootProof")).bind (·.lookup "outputRoot")) = some (.fixed output.root) := by
  cases block with
  | outputOracle number index output =>
    cases ho
    rfl
  | disputeGame number index output =>
    cases ho
    rfl
  | arbitrum sendRoot nodeIndex header => cases ho
  | scroll number index => cases ho
  | l1 header => cases ho

/-- **The decoder of every chain kind inverts its encoder.** A proof does not fit its layout only
for Scroll, when there are more nodes than one byte can count. What is encoded decodes to the trie
nodes of the proof and to what the block put into the witness, a header without the fields after a
gap and an output root with its commitment; for Scroll exactly if each packed node is one whole
item. The JSON form shows what is in the witness, and nothing else. -/
theorem decode_encodeProof (block : AnchoredBlock) (p : StateProof) :
    ((∃ e, block.encodeProof p = .error e) ↔ block.kind = .scroll ∧
      (255 < p.accountNodes.length ∨ 255 < p.firstNodes.length)) ∧
    (∀ e, block.encodeProof p = .error e → ∃ reason, e = .encoding reason) ∧
    (∀ blob, block.encodeProof p = .ok blob → blob.length < 2 ^ 60 →
      (DecodedProof.decode block.kind blob = .ok ⟨block.anchor p, p.nodes⟩ ↔
        (block.kind = .scroll → ∀ node ∈ p.accountNodes ++ p.firstNodes, Rlp.IsItem node))) ∧
    (∀ output, block.output? = some output →
      ((((⟨block.anchor p, p.nodes⟩ : DecodedProof).toJson.lookup "witness").bind
        (·.lookup "outputRootProof")).bind (·.lookup "outputRoot")) =
          some (.fixed output.root)) ∧
    (⟨block.anchor p, p.nodes⟩ : DecodedProof).toJson.lookup "witness" =
      some (.obj (block.anchor p).members) := by
  refine ⟨exists_encodeProof_error_iff, ?_, ?_, fun output => lookup_outputRoot,
    congrArg some (Anchor.sorted_toJson _)⟩
  · intro e h
    exact Packed.eq_encoding_of_pack (encodeProof_eq_error_iff.1 h).2
  · intro blob h hl
    have haddressable : 2 ^ 60 < Codec.addressable := by decide
    exact decode_eq_ok_iff h (Nat.lt_trans hl haddressable)

/-- A proof whose nodes are whole items. -/
def itemsProof : StateProof := ⟨[Rlp.list []], [⟨3, [Rlp.string [], Rlp.string [5]]⟩], .zero⟩

theorem decode_encodeProof_items :
    ∃ blob, (scroll 1 2).encodeProof itemsProof = .ok blob ∧ blob.length < 2 ^ 60 ∧
      DecodedProof.decode .scroll blob =
        .ok ⟨(scroll 1 2).anchor itemsProof, itemsProof.nodes⟩ := by
  have hitems : ∀ node ∈ itemsProof.accountNodes ++ itemsProof.firstNodes, Rlp.IsItem node := by
    intro node hnode
    have hnode : node = Rlp.list [] ∨ node = Rlp.string [] ∨ node = Rlp.string [5] := by
      simpa [itemsProof, StateProof.firstNodes] using hnode
    rcases hnode with rfl | rfl | rfl
    · exact Rlp.isItem_list (by decide)
    · exact Rlp.isItem_string (by decide)
    · exact Rlp.isItem_string (by decide)
  have hencode : (scroll 1 2).encodeProof itemsProof = .ok (Layout.scroll.encode
      ((UInt256.toWord 2, UInt256.toWord 3, [1, 0xc0, 2, 0x80, 0x05]),
        itemsProof.nodes.toTokens)) := by
    decide +kernel
  have hlength : (Layout.scroll.encode ((UInt256.toWord 2, UInt256.toWord 3,
      [1, 0xc0, 2, 0x80, 0x05]), itemsProof.nodes.toTokens)).length < 2 ^ 60 := by
    decide +kernel
  obtain ⟨-, -, hread, -⟩ := decode_encodeProof (scroll 1 2) itemsProof
  exact ⟨_, hencode, hlength, (hread _ hencode hlength).2 fun _ => hitems⟩

/-- A proof whose only node is empty. -/
def emptyNodeProof : StateProof := ⟨[[]], [], .zero⟩

/-- **Packed nodes that are no whole items are not read back.** -/
theorem exists_decode_ne :
    ¬ ∀ (block : AnchoredBlock) (p : StateProof) (blob : Bytes),
      block.encodeProof p = .ok blob → blob.length < 2 ^ 60 →
        DecodedProof.decode block.kind blob = .ok ⟨block.anchor p, p.nodes⟩ := by
  intro hall
  have hencode : (scroll 1 2).encodeProof emptyNodeProof = .ok (Layout.scroll.encode
      ((UInt256.toWord 2, UInt256.toWord 0, [1, 0]), emptyNodeProof.nodes.toTokens)) := rfl
  have hlength : (Layout.scroll.encode ((UInt256.toWord 2, UInt256.toWord 0, [1, 0]),
      emptyNodeProof.nodes.toTokens)).length < 2 ^ 60 := by
    decide +kernel
  have haddressable : 2 ^ 60 < Codec.addressable := by decide
  have hread := hall _ _ _ hencode hlength
  have hitem := (decode_eq_ok_iff hencode (Nat.lt_trans hlength haddressable)).1 hread rfl []
    List.mem_cons_self
  obtain ⟨h, payload, hheader, -⟩ := hitem
  cases hheader

end AnchoredBlock

end StorageGateway
