import StorageGateway.Proofs.Decoding
import StorageGateway.Proofs.JsonRecords

/-!
# JSON forms lose nothing

Headers, state proofs and answers of nodes are read back from their JSON forms. A decoded proof of
the base chain shows its header as JSON, so its block hash can be computed again from what is shown:
the header went through its encoding and back, then through its JSON form and back.

## Main definitions

* `DecodedProof.shownHeader?` — the header in the JSON form of a decoded proof of the base chain.

## Main statements

* `AnchoredBlock.decode_l1` — what a proof of the base chain decodes to.
* `Json.forms_readBack` — the three records, and the header that is shown.
-/

namespace StorageGateway

/-- The header in the JSON form of a decoded proof of the base chain. -/
def DecodedProof.shownHeader? (d : DecodedProof) : Option Json :=
  (d.toJson.lookup "witness").bind (·.lookup "blockHeader")

/-- The witness is sorted, so the header in it is, too. -/
theorem DecodedProof.shownHeader?_l1 (number : UInt256) (header : BlockHeader)
    (nodes : NodeLists) :
    (⟨.l1 number header, nodes⟩ : DecodedProof).shownHeader? = some header.toJson.sorted := rfl

/-- A proof of the base chain decodes to its header without the fields after a gap, which has the
hash of the block all the same. -/
theorem AnchoredBlock.decode_l1 {header : BlockHeader} {p : StateProof} {blob : Bytes}
    (h : (AnchoredBlock.l1 header).encodeProof p = .ok blob)
    (hl : blob.length < Abi.Codec.addressable) :
    DecodedProof.decode .l1 blob =
        .ok ⟨.l1 (header.number.setWidth 256) header.trim, p.nodes⟩ ∧
      header.trim.hash = header.hash := by
  obtain ⟨packed, -, hread⟩ := AnchoredBlock.layout_decode h hl
  have hencode : header.encode.length < limit64 := (Layout.fits_of_decode hread).1 _ rfl
  have hpayload := Nat.lt_of_le_of_lt header.length_payload_le_encode hencode
  have hhash : header.trim.hash = header.hash := by
    rw [BlockHeader.hash, BlockHeader.hash, BlockHeader.encode_trim hpayload]
  refine ⟨(AnchoredBlock.decode_eq_ok_iff h hl).2 ?_, hhash⟩
  intro hscroll
  cases hscroll

/-- **JSON forms lose nothing.** Every header, whichever of its fields are there, every state proof
and every answer of a node is read back from its JSON form. So the header that a decoded proof of
the base chain shows is read back with the hash of the block, and is the header of the block itself
if that has no gap. -/
theorem Json.forms_readBack :
    Json.ReadBack BlockHeader.toJson BlockHeader.ofJson? ∧
    Json.ReadBack StateProof.toJson StateProof.ofJson? ∧
    Json.ReadBack ProofResponse.toJson ProofResponse.ofJson? ∧
    ∀ (header : BlockHeader) (p : StateProof), ∃ blob,
      (AnchoredBlock.l1 header).encodeProof p = .ok blob ∧
      (blob.length < 2 ^ 60 → ∃ d shown header',
        DecodedProof.decode .l1 blob = .ok d ∧ d.shownHeader? = some shown ∧
        BlockHeader.ofJson? shown = some header' ∧ header'.hash = header.hash ∧
        (header.trim = header → header' = header)) := by
  refine ⟨BlockHeader.readBack, StateProof.readBack, ProofResponse.readBack, ?_⟩
  intro header p
  have hencode : (AnchoredBlock.l1 header).encodeProof p = .ok _ := rfl
  refine ⟨_, hencode, ?_⟩
  intro hl
  have haddressable : 2 ^ 60 < Abi.Codec.addressable := by decide
  obtain ⟨hdecode, hhash⟩ := AnchoredBlock.decode_l1 hencode (Nat.lt_trans hl haddressable)
  exact ⟨_, _, header.trim, hdecode, DecodedProof.shownHeader?_l1 _ _ _,
    BlockHeader.readBack.sorted _, hhash, id⟩

/-- A header with some of the fork fields, a leading zero byte and a zero among its values. -/
def BlockHeader.forked : BlockHeader :=
  { number := 0xff, nonce := FixedBytes.ofNat 8 1, extraData := [0x00, 0x80]
    baseFeePerGas := some 0, withdrawalsRoot := some (UInt256.toWord 7) }

theorem Json.forms_readBack_forked :
    BlockHeader.forked.trim = BlockHeader.forked ∧
      ∃ blob d shown, (AnchoredBlock.l1 BlockHeader.forked).encodeProof ⟨[[1]], [], .zero⟩ =
          .ok blob ∧
        blob.length < 2 ^ 60 ∧ DecodedProof.decode .l1 blob = .ok d ∧
        d.shownHeader? = some shown ∧ BlockHeader.ofJson? shown = some BlockHeader.forked := by
  have htrim : BlockHeader.forked.trim = BlockHeader.forked := rfl
  obtain ⟨blob, hencode, hshown⟩ :=
    Json.forms_readBack.2.2.2 BlockHeader.forked ⟨[[1]], [], .zero⟩
  have hlength : blob.length < 2 ^ 60 := by
    rw [← Except.ok.inj hencode]
    decide +kernel
  obtain ⟨d, shown, header', hdecode, hd, hread, -, hsame⟩ := hshown hlength
  rw [hsame htrim] at hread
  exact ⟨htrim, blob, d, shown, hencode, hlength, hdecode, hd, hread⟩

end StorageGateway
