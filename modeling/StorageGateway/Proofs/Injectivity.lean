import StorageGateway.Proofs.Decoding
import StorageGateway.Proofs.JsonRecords
import StorageGateway.Proofs.Layout

/-!
# Proofs have one encoding

A decoded proof tells every byte of the proof it was decoded from, also after it was written as
JSON. Each layer of the decoder takes its input for what it is the only encoding of: the tuples, the
joined and the packed nodes, and the header, as long as nothing follows it in its field.

## Main definitions

* `Layout.encode` — the bytes of two tuples.
* `Layout.HeaderStandsAlone` — nothing follows the header in the witness of a proof.

## Main statements

* `Layout.eq_encode_of_decode` — accepted bytes are those of their tuples.
* `Anchor.eq_of_sorted_toJson_eq` — anchors of one kind can be told apart by their JSON.
* `DecodedProof.eq_of_toJson_eq` — proofs can be told apart by what they decode to.
-/

namespace StorageGateway

open Abi

/-! ## Tuples -/

/-- Leading zero bytes do not count. -/
theorem BigEndian.decode_zeros_append {zeros : Bytes} (h : zeros.all (· == 0) = true)
    (bs : Bytes) : decode (zeros ++ bs) = decode bs := by
  have hzeros : decode zeros = 0 := by
    have hreplicate : zeros = List.replicate zeros.length 0 :=
      List.eq_replicate_of_mem fun b hb => eq_of_beq (List.all_eq_true.1 h b hb)
    rw [hreplicate, ← encode_zero, decode_encode, Nat.zero_mod]
  have happend : decode (zeros ++ bs) =
      bs.foldl (fun n b => 256 * n + b.toNat) (decode zeros) := List.foldl_append
  rw [happend, hzeros, decode]

/-- A word that is in range for 64 bits is the word of a number of 64 bits. -/
theorem AnchoredBlock.word64_of_valid {w : Word} (h : Codec.uint64.valid w = true) :
    word64 (BitVec.ofNat 64 w.toNat) = w := by
  have hlt : w.toNat < 2 ^ 64 := by
    have hdecode := BigEndian.decode_zeros_append h (w.toList.drop 24)
    rw [List.take_append_drop] at hdecode
    have hdrop := BigEndian.decode_lt (w.toList.drop 24)
    rw [List.length_drop, w.length_toList] at hdrop
    rw [FixedBytes.toNat, hdecode]
    exact hdrop
  have hnumber : (BitVec.ofNat 64 w.toNat).setWidth 256 = w.toUInt256 := by
    apply BitVec.eq_of_toNat_eq
    rw [BitVec.toNat_setWidth, BitVec.toNat_ofNat, Word.toUInt256, BitVec.toNat_ofNat,
      Nat.mod_eq_of_lt hlt]
  rw [word64, hnumber, Word.toWord_toUInt256]

namespace Layout

/-- The bytes of a witness and the trie nodes of its kind. -/
def encode : Witness → ProofNodes → Bytes
  | .arbitrum version sendRoot nodeIndex header, .joined nodes =>
    arbitrum.encode ((version, sendRoot, AnchoredBlock.word64 nodeIndex, header), nodes.toTokens)
  | .outputOracle index output, .joined nodes =>
    outputOracle.encode ((index.toWord, outputTokens output), nodes.toTokens)
  | .disputeGame index output, .raw nodes =>
    disputeGame.encode ((index.toWord, outputTokens output), nodes.toTokens)
  | .scroll index key packed, .raw nodes =>
    scroll.encode ((index.toWord, key, packed), nodes.toTokens)
  | .l1 number header, .raw nodes => l1.encode ((number.toWord, header), nodes.toTokens)
  | _, _ => []

/-- Accepted bytes are those of the two tuples that they decode to. -/
theorem eq_encode_of_decode {kind : ChainKind} {data : Bytes} {w : Witness} {nodes : ProofNodes}
    (h : decode kind data = .ok (w, nodes)) : data = encode w nodes := by
  cases kind with
  | arbitrum =>
    obtain ⟨⟨⟨version, sendRoot, nodeIndex, header⟩, t⟩, hread, h⟩ := Except.bind_eq_ok_iff.1 h
    cases h
    obtain ⟨henc, hvalid, -⟩ := Fields.decode_eq_ok_iff.1 hread
    rw [valid_arbitrum] at hvalid
    rw [encode, AnchoredBlock.word64_of_valid hvalid]
    exact henc.symm
  | opOutputOracle =>
    obtain ⟨⟨⟨index, output⟩, t⟩, hread, h⟩ := Except.bind_eq_ok_iff.1 h
    cases h
    rw [encode, Word.toWord_toUInt256]
    exact (Fields.encode_of_decode hread).symm
  | opDisputeGame =>
    obtain ⟨⟨⟨index, output⟩, t⟩, hread, h⟩ := Except.bind_eq_ok_iff.1 h
    cases h
    rw [encode, Word.toWord_toUInt256]
    exact (Fields.encode_of_decode hread).symm
  | scroll =>
    obtain ⟨⟨⟨index, key, packed⟩, t⟩, hread, h⟩ := Except.bind_eq_ok_iff.1 h
    cases h
    rw [encode, Word.toWord_toUInt256]
    exact (Fields.encode_of_decode hread).symm
  | l1 =>
    obtain ⟨⟨⟨number, header⟩, t⟩, hread, h⟩ := Except.bind_eq_ok_iff.1 h
    cases h
    rw [encode, Word.toWord_toUInt256]
    exact (Fields.encode_of_decode hread).symm

end Layout

/-! ## Nodes -/

/-- Node lists in the layout of a chain kind. -/
def NodeLists.inLayout (n : NodeLists) : ChainKind → ProofNodes
  | .arbitrum | .opOutputOracle => .joined n.join
  | .opDisputeGame | .scroll | .l1 => .raw n

/-- The node lists of an accepted proof tell how they stand in it. -/
theorem Layout.eq_inLayout_of_decode {kind : ChainKind} {data : Bytes} {w : Witness}
    {nodes : ProofNodes} (h : decode kind data = .ok (w, nodes)) {n : NodeLists}
    (hn : nodes.lists = .ok n) : nodes = n.inLayout kind := by
  cases kind with
  | arbitrum | opOutputOracle =>
    obtain ⟨t, -, h⟩ := Except.bind_eq_ok_iff.1 h
    cases h
    rw [NodeLists.inLayout, ← JoinedNodes.eq_join_of_split hn]
  | opDisputeGame | scroll | l1 =>
    obtain ⟨t, -, h⟩ := Except.bind_eq_ok_iff.1 h
    cases h
    cases hn
    rfl

/-! ## Headers -/

/-- No item is the front of another one. -/
theorem Rlp.IsItem.eq_of_isPrefix {front bs : Bytes} (hfront : IsItem front) (hbs : IsItem bs)
    (h : front <+: bs) : front = bs := by
  obtain ⟨rest, rfl⟩ := h
  have htake : Packed.takeItem (front ++ rest) = .ok (front, rest) :=
    Packed.takeItem_eq_ok_iff.2 ⟨hfront, rfl⟩
  have hwhole : Packed.takeItem (front ++ rest) = .ok (front ++ rest, []) :=
    Packed.takeItem_eq_ok_iff.2 ⟨hbs, (List.append_nil _).symm⟩
  rw [htake, Except.ok.injEq, Prod.mk.injEq] at hwhole
  exact hwhole.1

/-- An encoded header is one item. -/
theorem BlockHeader.isItem_encode {h : BlockHeader} (hl : h.payload.length < limit64) :
    Rlp.IsItem h.encode := by
  have hx : h.extraData.length < limit64 := Nat.lt_of_le_of_lt (length_extraData_le h) hl
  rw [encode_eq_list hx]
  exact Rlp.isItem_list hl

/-- A header that is decoded from one item is encoded as that item. -/
theorem BlockHeader.encode_eq_of_ofBytes {bs : Bytes} {h : BlockHeader}
    (hread : ofBytes bs = .ok h) (hitem : Rlp.IsItem bs) : h.encode = bs := by
  obtain ⟨hl, -, hfront⟩ := ofBytes_eq_ok_iff.1 hread
  exact (isItem_encode hl).eq_of_isPrefix hitem hfront

/-! ## Witnesses -/

/-- The witness that decodes to an anchor and has nothing behind its header; there is none if the
nodes are too many to be packed. -/
def Anchor.witness : Anchor → Result Witness
  | arbitrum version sendRoot nodeIndex header =>
    .ok (.arbitrum version sendRoot nodeIndex header.encode)
  | outputOracle index output => .ok (.outputOracle index output)
  | disputeGame index output => .ok (.disputeGame index output)
  | scroll index key account storage => (Packed.pack account storage).map (.scroll index key)
  | l1 number header => .ok (.l1 number header.encode)

/-- The chain kind of a witness. -/
def Witness.kind : Witness → ChainKind
  | arbitrum .. => .arbitrum
  | outputOracle .. => .opOutputOracle
  | disputeGame .. => .opDisputeGame
  | scroll .. => .scroll
  | l1 .. => .l1

theorem Layout.kind_of_decode {kind : ChainKind} {data : Bytes} {w : Witness}
    {nodes : ProofNodes} (h : decode kind data = .ok (w, nodes)) : w.kind = kind := by
  cases kind <;>
  · obtain ⟨t, -, h⟩ := Except.bind_eq_ok_iff.1 h
    cases h
    rfl

theorem Witness.kind_of_anchor {w : Witness} {a : Anchor} (h : w.anchor = .ok a) :
    a.kind = w.kind := by
  cases w with
  | arbitrum | scroll | l1 =>
    obtain ⟨_, -, h⟩ := Except.bind_eq_ok_iff.1 h
    cases h
    rfl
  | outputOracle | disputeGame =>
    cases h
    rfl

/-- The header bytes of a witness, if it has some, are one item, with nothing behind it. -/
def Witness.HeaderStandsAlone (w : Witness) : Prop :=
  ∀ bs, w.headerBytes? = some bs → Rlp.IsItem bs

theorem Witness.witness_of_anchor {w : Witness} {a : Anchor} (h : w.anchor = .ok a)
    (hw : w.HeaderStandsAlone) : a.witness = .ok w := by
  cases w with
  | arbitrum version sendRoot nodeIndex header =>
    obtain ⟨decoded, hread, h⟩ := Except.bind_eq_ok_iff.1 h
    cases h
    rw [Anchor.witness, BlockHeader.encode_eq_of_ofBytes hread (hw header rfl)]
  | outputOracle index output =>
    cases h
    rfl
  | disputeGame index output =>
    cases h
    rfl
  | scroll index key packed =>
    obtain ⟨⟨account, storage⟩, hunpack, h⟩ := Except.bind_eq_ok_iff.1 h
    cases h
    rw [Anchor.witness, (Packed.unpack_eq_ok_iff.1 hunpack).2]
    rfl
  | l1 number header =>
    obtain ⟨decoded, hread, h⟩ := Except.bind_eq_ok_iff.1 h
    cases h
    rw [Anchor.witness, BlockHeader.encode_eq_of_ofBytes hread (hw header rfl)]

/-! ## JSON -/

namespace Json

theorem quantity_injective {w : Nat} {m n : BitVec w} (h : quantity m = quantity n) : m = n :=
  Option.some.inj ((quantity?_quantity m).symm.trans (h ▸ quantity?_quantity n))

theorem fixed_injective {n : Nat} {a b : FixedBytes n} (h : fixed a = fixed b) : a = b :=
  Option.some.inj ((fixed?_fixed a).symm.trans (h ▸ fixed?_fixed b))

theorem nat_injective {m n : Nat} (h : nat m = nat n) : m = n := by
  injection h with h
  exact Int.ofNat.inj h

theorem bytesList_injective {as bs : List Bytes} (h : bytesList as = bytesList bs) : as = bs :=
  Option.some.inj ((bytesList?_bytesList as).symm.trans (h ▸ bytesList?_bytesList bs))

/-- Records that are the same with their members in order have the same fields. -/
theorem fields_eq_of_sorted_eq {names : List String} (hn : names.Nodup)
    {values₁ values₂ : List (Option Json)} (h₁ : names.length = values₁.length)
    (h₂ : names.length = values₂.length)
    (h : (obj (membersOf names values₁)).sorted = (obj (membersOf names values₂)).sorted) :
    values₁.map (Option.map sorted) = values₂.map (Option.map sorted) := by
  have hf₁ := fields?_sorted (fields?_membersOf values₁ hn h₁)
  have hf₂ := fields?_sorted (fields?_membersOf values₂ hn h₂)
  rw [h, hf₂] at hf₁
  exact (Option.some.inj hf₁).symm

end Json

/-- Headers can be told apart by their JSON. -/
theorem BlockHeader.eq_of_sorted_toJson_eq {h₁ h₂ : BlockHeader}
    (h : h₁.toJson.sorted = h₂.toJson.sorted) : h₁ = h₂ := by
  have hread := BlockHeader.readBack.sorted h₁
  rw [h, BlockHeader.readBack.sorted h₂] at hread
  exact (Option.some.inj hread).symm

namespace OutputRoot

/-- The names of the members. -/
def fieldNames : List String :=
  ["version", "stateRoot", "messagePasserStorageRoot", "latestBlockhash", "outputRoot"]

/-- The values of the members, in order. -/
def fieldValues (o : OutputRoot) : List (Option Json) :=
  [some (.fixed o.version), some (.fixed o.stateRoot), some (.fixed o.messagePasserStorageRoot),
   some (.fixed o.latestBlockhash), some (.fixed o.root)]

theorem toJson_eq (o : OutputRoot) :
    o.toJson = .obj (Json.membersOf fieldNames o.fieldValues) := rfl

/-- Output roots can be told apart by their JSON. -/
theorem eq_of_sorted_toJson_eq {o₁ o₂ : OutputRoot} (h : o₁.toJson.sorted = o₂.toJson.sorted) :
    o₁ = o₂ := by
  rw [toJson_eq, toJson_eq] at h
  have hfields := Json.fields_eq_of_sorted_eq (by decide) rfl rfl h
  simp only [fieldValues, List.map_cons, Option.map_some, Json.sorted_fixed, List.cons.injEq,
    Option.some.injEq] at hfields
  obtain ⟨hversion, hstate, hpasser, hblockhash, -⟩ := hfields
  obtain ⟨⟩ := o₁
  obtain ⟨⟩ := o₂
  rw [mk.injEq]
  exact ⟨Json.fixed_injective hversion, Json.fixed_injective hstate,
    Json.fixed_injective hpasser, Json.fixed_injective hblockhash⟩

end OutputRoot

namespace Anchor

/-- The names of the members of an anchor for a chain kind. -/
def fieldNames : ChainKind → List String
  | .arbitrum => ["version", "sendRoot", "nodeIndex", "block"]
  | .opOutputOracle => ["l2OutputIndex", "outputRootProof"]
  | .opDisputeGame => ["disputeGameIndex", "outputRootProof"]
  | .scroll => ["batchIndex", "storageKey", "compressedProof"]
  | .l1 => ["blockNo", "blockHeader"]

/-- Two lists of nodes as a JSON object. -/
def packedJson (account storage : List Bytes) : Json :=
  .obj (Json.membersOf ["accountProof", "storageProof"]
    [some (.bytesList account), some (.bytesList storage)])

/-- The values of the members of an anchor, in order. -/
def fieldValues : Anchor → List (Option Json)
  | arbitrum version sendRoot nodeIndex header =>
    [some (.fixed version), some (.fixed sendRoot), some (.nat nodeIndex.toNat),
     some header.toJson]
  | outputOracle index output => [some (.quantity index), some output.toJson]
  | disputeGame index output => [some (.quantity index), some output.toJson]
  | scroll index key account storage =>
    [some (.quantity index), some (.fixed key), some (packedJson account storage)]
  | l1 number header => [some (.quantity number), some header.toJson]

theorem toJson_eq (a : Anchor) :
    a.toJson = .obj (Json.membersOf (fieldNames a.kind) a.fieldValues) := by
  cases a <;> rfl

theorem nodup_fieldNames (kind : ChainKind) : (fieldNames kind).Nodup := by
  cases kind <;> decide

theorem length_fieldNames (a : Anchor) : (fieldNames a.kind).length = a.fieldValues.length := by
  cases a <;> rfl

/-- Lists of nodes can be told apart by their JSON. -/
theorem eq_of_sorted_packedJson_eq {account₁ storage₁ account₂ storage₂ : List Bytes}
    (h : (packedJson account₁ storage₁).sorted = (packedJson account₂ storage₂).sorted) :
    account₁ = account₂ ∧ storage₁ = storage₂ := by
  rw [packedJson, packedJson] at h
  have hfields := Json.fields_eq_of_sorted_eq (by decide) rfl rfl h
  simp only [List.map_cons, Option.map_some, Json.sorted_bytesList, List.cons.injEq,
    Option.some.injEq] at hfields
  exact ⟨Json.bytesList_injective hfields.1, Json.bytesList_injective hfields.2.1⟩

/-- Anchors of one chain kind can be told apart by their JSON. -/
theorem eq_of_sorted_toJson_eq {a₁ a₂ : Anchor} (hk : a₁.kind = a₂.kind)
    (h : a₁.toJson.sorted = a₂.toJson.sorted) : a₁ = a₂ := by
  rw [toJson_eq, toJson_eq, hk] at h
  have hfields := Json.fields_eq_of_sorted_eq (nodup_fieldNames a₂.kind)
    (hk ▸ length_fieldNames a₁) (length_fieldNames a₂) h
  cases a₁ with
  | arbitrum version sendRoot nodeIndex header =>
    cases a₂ with
    | arbitrum =>
      simp only [fieldValues, List.map_cons, Option.map_some, Json.sorted_fixed, Json.sorted_nat,
        List.cons.injEq, Option.some.injEq] at hfields
      obtain ⟨hversion, hroot, hindex, hheader, -⟩ := hfields
      rw [Json.fixed_injective hversion, Json.fixed_injective hroot,
        BitVec.eq_of_toNat_eq (Json.nat_injective hindex),
        BlockHeader.eq_of_sorted_toJson_eq hheader]
    | _ => cases hk
  | outputOracle index output =>
    cases a₂ with
    | outputOracle =>
      simp only [fieldValues, List.map_cons, Option.map_some, Json.sorted_quantity,
        List.cons.injEq, Option.some.injEq] at hfields
      rw [Json.quantity_injective hfields.1, OutputRoot.eq_of_sorted_toJson_eq hfields.2.1]
    | _ => cases hk
  | disputeGame index output =>
    cases a₂ with
    | disputeGame =>
      simp only [fieldValues, List.map_cons, Option.map_some, Json.sorted_quantity,
        List.cons.injEq, Option.some.injEq] at hfields
      rw [Json.quantity_injective hfields.1, OutputRoot.eq_of_sorted_toJson_eq hfields.2.1]
    | _ => cases hk
  | scroll index key account storage =>
    cases a₂ with
    | scroll =>
      simp only [fieldValues, List.map_cons, Option.map_some, Json.sorted_quantity,
        Json.sorted_fixed, List.cons.injEq, Option.some.injEq] at hfields
      obtain ⟨hindex, hkey, hpacked, -⟩ := hfields
      obtain ⟨haccount, hstorage⟩ := eq_of_sorted_packedJson_eq hpacked
      rw [Json.quantity_injective hindex, Json.fixed_injective hkey, haccount, hstorage]
    | _ => cases hk
  | l1 number header =>
    cases a₂ with
    | l1 =>
      simp only [fieldValues, List.map_cons, Option.map_some, Json.sorted_quantity,
        List.cons.injEq, Option.some.injEq] at hfields
      rw [Json.quantity_injective hfields.1, BlockHeader.eq_of_sorted_toJson_eq hfields.2.1]
    | _ => cases hk

end Anchor

/-! ## Proofs -/

/-- The header in the witness of a proof, if it has one, fills its field: nothing follows it. -/
def Layout.HeaderStandsAlone (kind : ChainKind) (data : Bytes) : Prop :=
  ∀ w nodes, decode kind data = .ok (w, nodes) → w.HeaderStandsAlone

namespace DecodedProof

variable {kind : ChainKind} {x y : Bytes} {d d₁ d₂ : DecodedProof}

/-- The kind of the anchor is the kind that was decoded for. -/
theorem kind_of_decode (h : decode kind x = .ok d) : d.anchor.kind = kind := by
  obtain ⟨w, nodes, hlayout, -, hanchor⟩ := exists_of_decode h
  rw [Witness.kind_of_anchor hanchor, Layout.kind_of_decode hlayout]

/-- Proofs of one chain kind can be told apart by their JSON. -/
theorem eq_of_toJson_eq (hk : d₁.anchor.kind = d₂.anchor.kind) (h : d₁.toJson = d₂.toJson) :
    d₁ = d₂ := by
  obtain ⟨anchor₁, account₁, storage₁⟩ := d₁
  obtain ⟨anchor₂, account₂, storage₂⟩ := d₂
  simp only [toJson, Json.obj.injEq, Json.arr.injEq, List.cons.injEq, Prod.mk.injEq, true_and,
    and_true] at h
  obtain ⟨-, hanchor, haccount, hstorage⟩ := h
  have hlists : Function.Injective Json.bytesList := fun _ _ => Json.bytesList_injective
  have hanchor : anchor₁ = anchor₂ := Anchor.eq_of_sorted_toJson_eq hk hanchor
  rw [hanchor, Json.bytesList_injective haccount, List.map_injective_iff.2 hlists hstorage]

/-- An accepted proof with nothing behind its header is told by what it decodes to. -/
theorem eq_encode_of_decode (h : decode kind x = .ok d)
    (hx : Layout.HeaderStandsAlone kind x) :
    ∃ w, d.anchor.witness = .ok w ∧ x = Layout.encode w (d.nodes.inLayout kind) := by
  obtain ⟨w, nodes, hlayout, hnodes, hanchor⟩ := exists_of_decode h
  refine ⟨w, Witness.witness_of_anchor hanchor (hx w nodes hlayout), ?_⟩
  rw [← Layout.eq_inLayout_of_decode hlayout hnodes, Layout.eq_encode_of_decode hlayout]

/-- **Proofs are not malleable.** If two byte strings are accepted as proofs for the same chain
kind, and decode to the same JSON, they are the same byte string. Only the header field of a witness
leaves room for other bytes, since the decoder does not look behind the header; so of the kinds with
such a field it is asked that the header fills it. -/
theorem eq_of_decode_toJson_eq (h₁ : decode kind x = .ok d₁) (h₂ : decode kind y = .ok d₂)
    (hx : Layout.HeaderStandsAlone kind x) (hy : Layout.HeaderStandsAlone kind y)
    (h : d₁.toJson = d₂.toJson) : x = y := by
  have hk : d₁.anchor.kind = d₂.anchor.kind := by rw [kind_of_decode h₁, kind_of_decode h₂]
  rw [eq_of_toJson_eq hk h] at h₁
  obtain ⟨w₁, hw₁, rfl⟩ := eq_encode_of_decode h₁ hx
  obtain ⟨w₂, hw₂, rfl⟩ := eq_encode_of_decode h₂ hy
  rw [hw₁, Except.ok.injEq] at hw₂
  rw [hw₂]

end DecodedProof

/-! ### Proofs of a gateway -/

namespace AnchoredBlock

/-- In the proofs that a gateway makes, nothing follows the header. -/
theorem headerStandsAlone_encodeProof {block : AnchoredBlock} {p : StateProof} {blob : Bytes}
    (h : block.encodeProof p = .ok blob) (hl : blob.length < Codec.addressable) :
    Layout.HeaderStandsAlone block.kind blob := by
  obtain ⟨packed, -, hread⟩ := layout_decode h hl
  intro w nodes hw bs hb
  have hlength := (Layout.fits_of_decode hw).1 bs hb
  rw [hread] at hw
  cases hw
  have hitem : ∀ header : BlockHeader, bs = header.encode → Rlp.IsItem bs := by
    intro header hheader
    have hle : header.payload.length ≤ header.encode.length := by
      rw [BlockHeader.encode, List.length_append]
      omega
    rw [hheader] at hlength ⊢
    exact BlockHeader.isItem_encode (Nat.lt_of_le_of_lt hle hlength)
  cases block with
  | arbitrum sendRoot nodeIndex header => exact hitem header (Option.some.inj hb).symm
  | l1 header => exact hitem header (Option.some.inj hb).symm
  | outputOracle | disputeGame | scroll => cases hb

/-- A proof of one slot. -/
def slotProof (key : UInt256) : StateProof := ⟨[[1]], [⟨key, [[2], [3]]⟩], .zero⟩

/-- A header with a gap and the header without the fields after the gap, and proofs of two slots
that happen to have the same nodes: the proofs decode alike, so they are the same bytes. -/
theorem encodeProof_eq_of_toJson_eq :
    ∃ x y d, (l1 BlockHeader.gapped).encodeProof (slotProof 1) = .ok x ∧
      (l1 BlockHeader.gapped.trim).encodeProof (slotProof 2) = .ok y ∧
      DecodedProof.decode .l1 x = .ok d ∧ DecodedProof.decode .l1 y = .ok d ∧ x = y := by
  have hx : (l1 BlockHeader.gapped).encodeProof (slotProof 1) = .ok (Layout.l1.encode
      ((word64 BlockHeader.gapped.number, BlockHeader.gapped.encode),
        (slotProof 1).nodes.toTokens)) := rfl
  have hy : (l1 BlockHeader.gapped.trim).encodeProof (slotProof 2) = .ok (Layout.l1.encode
      ((word64 BlockHeader.gapped.trim.number, BlockHeader.gapped.trim.encode),
        (slotProof 2).nodes.toTokens)) := rfl
  have hlx : (Layout.l1.encode ((word64 BlockHeader.gapped.number, BlockHeader.gapped.encode),
      (slotProof 1).nodes.toTokens)).length < Codec.addressable := by
    decide +kernel
  have hly : (Layout.l1.encode ((word64 BlockHeader.gapped.trim.number,
      BlockHeader.gapped.trim.encode), (slotProof 2).nodes.toTokens)).length <
        Codec.addressable := by
    decide +kernel
  have hdx := (decode_eq_ok_iff hx hlx).2 nofun
  have hdy := (decode_eq_ok_iff hy hly).2 nofun
  exact ⟨_, _, _, hx, hy, hdx, hdy, DecodedProof.eq_of_decode_toJson_eq hdx hdy
    (headerStandsAlone_encodeProof hx hlx) (headerStandsAlone_encodeProof hy hly) rfl⟩

end AnchoredBlock

end StorageGateway
