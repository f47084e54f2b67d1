import StorageGateway.Layout.Decoded
import StorageGateway.Proofs.BlockHeader

/-!
# Headers inside witnesses

A verifier hashes the header bytes of a witness and compares the digest with one that its chain
knows. The decoder of a witness reads a header off the front of the same bytes and does not look at
what follows it. So the decoded header is the one that is hashed exactly if nothing follows.

## Main definitions

* `Witness.headerBytes?` and `Anchor.header?` — the bytes that are hashed, and the header that is
  decoded from them.

## Main statements

* `BlockHeader.ofBytes_eq_ok_iff` — the header at the front of a byte string.
* `Witness.header_of_anchor` — how a decoded header relates to the header bytes.
* `Witness.exists_header_ne` — header bytes that carry something besides the header.
-/

namespace StorageGateway

namespace BlockHeader

variable {bs : Bytes} {h : BlockHeader}

/-- A header is found at the front exactly if its encoding stands there and it has no gap. -/
theorem ofBytes_eq_ok_iff :
    ofBytes bs = .ok h ↔ h.payload.length < limit64 ∧ h.trim = h ∧ h.encode <+: bs := by
  rw [ofBytes, Result.ofRlp, Except.mapError_eq_ok_iff, Except.map_eq_ok_iff]
  constructor
  · intro hread
    obtain ⟨⟨h', rest⟩, hread, hfst⟩ := hread
    obtain ⟨hl, htrim, hbs⟩ := of_read hread
    subst hfst
    exact ⟨hl, htrim, rest, hbs.symm⟩
  · intro hread
    obtain ⟨hl, htrim, rest, hbs⟩ := hread
    refine ⟨(h, rest), ?_, rfl⟩
    rw [← hbs, read_encode hl rest, htrim]

/-- The encoding of a header is decoded to the header without the fields after a gap. -/
theorem ofBytes_encode (hl : h.encode.length < limit64) : ofBytes h.encode = .ok h.trim := by
  have hread := read_encode (Nat.lt_of_le_of_lt h.length_payload_le_encode hl) []
  rw [List.append_nil] at hread
  rw [ofBytes, hread]
  rfl

/-- Nothing follows a header if the bytes are as many as its encoding has. -/
theorem encode_eq_iff (hl : h.payload.length < limit64) (hfront : h.encode <+: bs) :
    h.encode = bs ↔ bs.length = h.length := by
  rw [← length_encode hl]
  constructor
  · intro he
    rw [he]
  · intro hlen
    exact hfront.eq_of_length hlen.symm

end BlockHeader

/-- The header bytes of a witness that has some; these are what a verifier hashes. -/
def Witness.headerBytes? : Witness → Option Bytes
  | arbitrum _ _ _ header | l1 _ header => some header
  | outputOracle .. | disputeGame .. | scroll .. => none

/-- The header of a decoded witness that has one. -/
def Anchor.header? : Anchor → Option BlockHeader
  | arbitrum _ _ _ header | l1 _ header => some header
  | outputOracle .. | disputeGame .. | scroll .. => none

namespace Witness

variable {w : Witness} {a : Anchor} {h : BlockHeader} {bs : Bytes}

/-- The header of a decoded witness was decoded from its header bytes. -/
theorem ofBytes_of_anchor (hb : w.headerBytes? = some bs) (ha : w.anchor = .ok a)
    (hh : a.header? = some h) : BlockHeader.ofBytes bs = .ok h := by
  cases w with
  | arbitrum version sendRoot nodeIndex header =>
    cases hb
    obtain ⟨h', hread, hanchor⟩ := Except.bind_eq_ok_iff.1 ha
    cases hanchor
    cases hh
    exact hread
  | l1 number header =>
    cases hb
    obtain ⟨h', hread, hanchor⟩ := Except.bind_eq_ok_iff.1 ha
    cases hanchor
    cases hh
    exact hread
  | outputOracle index output => cases hb
  | disputeGame index output => cases hb
  | scroll index key packed => cases hb

/-- Other header bytes from which the same header is decoded can take the place of those of a
witness. -/
theorem exists_anchor_of_ofBytes (hb : w.headerBytes? = some bs) (ha : w.anchor = .ok a)
    (hh : a.header? = some h) {bs' : Bytes} (hread : BlockHeader.ofBytes bs' = .ok h) :
    ∃ w' : Witness, w'.headerBytes? = some bs' ∧ w'.anchor = .ok a := by
  have hofBytes := ofBytes_of_anchor hb ha hh
  cases w with
  | arbitrum version sendRoot nodeIndex header =>
    cases hb
    refine ⟨.arbitrum version sendRoot nodeIndex bs', rfl, ?_⟩
    simpa only [anchor, hofBytes, hread] using ha
  | l1 number header =>
    cases hb
    refine ⟨.l1 number bs', rfl, ?_⟩
    simpa only [anchor, hofBytes, hread] using ha
  | outputOracle index output => cases hb
  | disputeGame index output => cases hb
  | scroll index key packed => cases hb

/-- **A decoded header stands at the front of the header bytes.** Its hash is the digest of as many
of the bytes as it has itself. It is the header that a verifier hashes exactly if these are all; but
any bytes may follow them, and the same is decoded. -/
theorem header_of_anchor (hb : w.headerBytes? = some bs) (ha : w.anchor = .ok a)
    (hh : a.header? = some h) :
    h.encode <+: bs ∧ h.hash = keccak256 (bs.take h.length) ∧
      (h.encode = bs ↔ bs.length = h.length) ∧
      (bs.length = h.length → h.hash = keccak256 bs) ∧
      ∀ more, ∃ w' : Witness, w'.headerBytes? = some (bs ++ more) ∧ w'.anchor = .ok a := by
  have hread := ofBytes_of_anchor hb ha hh
  obtain ⟨hl, htrim, hfront⟩ := BlockHeader.ofBytes_eq_ok_iff.1 hread
  have htake : bs.take h.length = h.encode := by
    obtain ⟨rest, rfl⟩ := hfront
    rw [List.take_left' (BlockHeader.length_encode hl)]
  have heq := BlockHeader.encode_eq_iff hl hfront
  refine ⟨hfront, by rw [htake, BlockHeader.hash], heq, ?_, ?_⟩
  · intro hlen
    rw [BlockHeader.hash, heq.2 hlen]
  · intro more
    have hmore : h.encode <+: bs ++ more := hfront.trans (List.prefix_append _ _)
    exact exists_anchor_of_ofBytes hb ha hh
      (BlockHeader.ofBytes_eq_ok_iff.2 ⟨hl, htrim, hmore⟩)

/-- A witness with a zero byte after its header. -/
def followed : Witness := .l1 0 (({} : BlockHeader).encode ++ [0])

theorem anchor_followed : followed.anchor = .ok (.l1 0 {}) := by
  have hl : ({} : BlockHeader).payload.length < limit64 :=
    BlockHeader.length_payload_lt (by decide)
  have hread : BlockHeader.ofBytes (({} : BlockHeader).encode ++ [0]) = .ok {} :=
    BlockHeader.ofBytes_eq_ok_iff.2 ⟨hl, rfl, List.prefix_append _ _⟩
  simp only [followed, anchor, hread]
  rfl

theorem header_of_anchor_followed :
    followed.headerBytes? = some (({} : BlockHeader).encode ++ [0]) ∧
      followed.anchor = .ok (.l1 0 {}) ∧
      ({} : BlockHeader).encode <+: ({} : BlockHeader).encode ++ [0] := by
  refine ⟨rfl, anchor_followed, ?_⟩
  exact (header_of_anchor (w := followed) rfl anchor_followed rfl).1

/-- **Header bytes can carry something besides the header.** -/
theorem exists_header_ne :
    ¬ ∀ (w : Witness) (a : Anchor) (h : BlockHeader) (bs : Bytes), w.headerBytes? = some bs →
      w.anchor = .ok a → a.header? = some h → h.encode = bs := by
  intro hall
  have he := hall followed (.l1 0 {}) {} _ rfl anchor_followed rfl
  have hlen := congrArg List.length he
  rw [List.length_append, List.length_singleton] at hlen
  omega

end Witness

end StorageGateway
