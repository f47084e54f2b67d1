import StorageGateway.Proofs.BlockHeader
import StorageGateway.Proofs.KeyBinding
import StorageGateway.Proofs.Node

/-!
# What digests commit to

A block hash is the digest of the header's encoding, which tells the header without the fields after
a gap. An output root is the digest of four words, the last of which is a block hash. Two digests
that are equal therefore commit to the same contents, or two different byte strings that were hashed
for them collide; for output roots that were fetched from nodes, at either of the two levels.

Nothing is assumed about the digest.

## Main definitions

* `OutputRoot.ofBlock` — what the output root of a block commits to.
* `Client.Fetches` — an output root with the header and the storage root that it was built from.

## Main statements

* `BlockHeader.trim_eq_or_collide_of_hash_eq`, `OutputRoot.eq_or_collide_of_root_eq` — one level.
* `Client.exists_fetches_of_answer` — where a fetched output root comes from.
* `contents_of_digest_eq` — both levels.
-/

namespace StorageGateway

/-! ## Block hashes -/

/-- Headers with the same hash differ at most after a gap, unless their encodings collide. -/
theorem BlockHeader.trim_eq_or_collide_of_hash_eq {h₁ h₂ : BlockHeader}
    (hx₁ : h₁.extraData.length < 2 ^ 60) (hx₂ : h₂.extraData.length < 2 ^ 60)
    (h : h₁.hash = h₂.hash) : h₁.trim = h₂.trim ∨ Collide h₁.encode h₂.encode :=
  (eq_or_collide h).imp_left
    (trim_eq_of_encode_eq (length_payload_lt hx₁) (length_payload_lt hx₂))

theorem BlockHeader.hash_trim {h : BlockHeader} (hx : h.extraData.length < 2 ^ 60) :
    h.trim.hash = h.hash := by
  rw [hash, encode_trim (length_payload_lt hx), hash]

/-! ## Output roots -/

namespace OutputRoot

variable {o o₁ o₂ : OutputRoot}

theorem length_preimage (o : OutputRoot) : o.preimage.length = 128 := by
  simp [preimage]

/-- Each word has its 32 bytes in the preimage. -/
theorem eq_of_preimage_eq (h : o₁.preimage = o₂.preimage) : o₁ = o₂ := by
  have hlen : ∀ a b : Word, a.toList.length = b.toList.length := fun a b => by simp
  obtain ⟨h, hhash⟩ := List.append_inj' h (hlen _ _)
  obtain ⟨h, hpasser⟩ := List.append_inj' h (hlen _ _)
  obtain ⟨hversion, hstate⟩ := List.append_inj' h (hlen _ _)
  cases o₁
  cases o₂
  simp only [mk.injEq]
  exact ⟨FixedBytes.ext hversion, FixedBytes.ext hstate, FixedBytes.ext hpasser,
    FixedBytes.ext hhash⟩

/-- Output roots that are equal commit to the same words, unless their preimages collide. -/
theorem eq_or_collide_of_root_eq (h : o₁.root = o₂.root) :
    o₁ = o₂ ∨ Collide o₁.preimage o₂.preimage :=
  (eq_or_collide h).imp_left eq_of_preimage_eq

/-- What the output root of a block commits to, for the storage root of the message passer. -/
def ofBlock (header : BlockHeader) (passerRoot : Word) : OutputRoot :=
  ⟨.zero, header.stateRoot, passerRoot, header.hash⟩

/-- Output roots of blocks commit to the message passer and to all of the header that is encoded,
unless the preimages or the encodings collide. -/
theorem eq_or_collide_of_root_ofBlock_eq {h₁ h₂ : BlockHeader} {r₁ r₂ : Word}
    (hx₁ : h₁.extraData.length < 2 ^ 60) (hx₂ : h₂.extraData.length < 2 ^ 60)
    (h : (ofBlock h₁ r₁).root = (ofBlock h₂ r₂).root) :
    (r₁ = r₂ ∧ h₁.trim = h₂.trim) ∨ Collide (ofBlock h₁ r₁).preimage (ofBlock h₂ r₂).preimage ∨
      Collide h₁.encode h₂.encode := by
  rcases eq_or_collide_of_root_eq h with heq | hc
  · have hpasser : r₁ = r₂ := congrArg messagePasserStorageRoot heq
    have hhash : h₁.hash = h₂.hash := congrArg latestBlockhash heq
    rcases BlockHeader.trim_eq_or_collide_of_hash_eq hx₁ hx₂ hhash with htrim | hc
    · exact .inl ⟨hpasser, htrim⟩
    · exact .inr (.inr hc)
  · exact .inr (.inl hc)

end OutputRoot

/-! ## Fetching -/

namespace Client

variable {σ : Type} {c : Client σ} {number : BitVec 64} {s s' : σ} {o : OutputRoot}
  {header : BlockHeader} {passerRoot : Word}

/-- The output root of a block is fetched: a node gives its header, then the proof of the message
passer with some storage root, and with these the client builds the output root. -/
def Fetches (c : Client σ) (number : BitVec 64) (s : σ) (o : OutputRoot) (header : BlockHeader)
    (passerRoot : Word) : Prop :=
  ∃ t passer s', (c.header (.number number)).answer s = (.ok header, t) ∧
    (c.proofs number OutputRoot.messagePasser []).answer t = (.ok passer, s') ∧
    passer.storageRoot = passerRoot ∧ (c.outputRoot number).answer s = (.ok o, s')

/-- The two questions of a client that fetches an output root. -/
theorem answer_outputRoot_eq_ok_iff :
    (c.outputRoot number).answer s = (.ok o, s') ↔
      ∃ header t passer, (c.header (.number number)).answer s = (.ok header, t) ∧
        (c.proofs number OutputRoot.messagePasser []).answer t = (.ok passer, s') ∧
        o = .ofBlock header passer.storageRoot := by
  simp only [outputRoot, Query.answer_bind_eq_ok_iff]
  constructor
  · intro h
    obtain ⟨header, t, hh, passer, t', hp, ho⟩ := h
    cases ho
    exact ⟨header, t, passer, hh, hp, rfl⟩
  · intro h
    obtain ⟨header, t, passer, hh, hp, rfl⟩ := h
    exact ⟨header, t, hh, passer, s', hp, rfl⟩

theorem exists_fetches_of_answer (h : (c.outputRoot number).answer s = (.ok o, s')) :
    ∃ header passerRoot, c.Fetches number s o header passerRoot := by
  obtain ⟨header, t, passer, hh, hp, -⟩ := answer_outputRoot_eq_ok_iff.1 h
  exact ⟨header, passer.storageRoot, t, passer, s', hh, hp, rfl, h⟩

theorem Fetches.eq_ofBlock (h : c.Fetches number s o header passerRoot) :
    o = .ofBlock header passerRoot := by
  obtain ⟨t, passer, s', hh, hp, rfl, ho⟩ := h
  obtain ⟨header', t', passer', hh', hp', rfl⟩ := answer_outputRoot_eq_ok_iff.1 ho
  rw [hh, Prod.mk.injEq, Except.ok.injEq] at hh'
  obtain ⟨rfl, rfl⟩ := hh'
  rw [hp, Prod.mk.injEq, Except.ok.injEq] at hp'
  rw [hp'.1]

end Client

/-! ## Both levels -/

/-- **Equal digests commit to equal contents.** Two headers with the same hash are the same without
the fields after a gap, or their encodings collide. Two output roots that are equal have all four
words in common, or their preimages of 128 bytes collide. Whatever a client fetches as an output
root is built from a header and a storage root that its node gave; and if two such output roots are
equal, from whatever nodes, so are the storage roots and the headers without the fields after a gap,
or the preimages collide, or the encodings of the headers do. -/
theorem contents_of_digest_eq :
    (∀ h₁ h₂ : BlockHeader, h₁.extraData.length < 2 ^ 60 → h₂.extraData.length < 2 ^ 60 →
      h₁.hash = h₂.hash → h₁.trim = h₂.trim ∨ Collide h₁.encode h₂.encode) ∧
    (∀ o₁ o₂ : OutputRoot, o₁.root = o₂.root → o₁ = o₂ ∨
      (o₁.preimage.length = 128 ∧ o₂.preimage.length = 128 ∧ Collide o₁.preimage o₂.preimage)) ∧
    (∀ (σ : Type) (c : Client σ) (number : BitVec 64) (s s' : σ) (o : OutputRoot),
      (c.outputRoot number).answer s = (.ok o, s') →
        ∃ header passerRoot, c.Fetches number s o header passerRoot) ∧
    ∀ (σ₁ σ₂ : Type) (c₁ : Client σ₁) (c₂ : Client σ₂) (n₁ n₂ : BitVec 64) (s₁ : σ₁) (s₂ : σ₂)
      (o₁ o₂ : OutputRoot) (h₁ h₂ : BlockHeader) (r₁ r₂ : Word),
      c₁.Fetches n₁ s₁ o₁ h₁ r₁ → c₂.Fetches n₂ s₂ o₂ h₂ r₂ →
      h₁.extraData.length < 2 ^ 60 → h₂.extraData.length < 2 ^ 60 → o₁.root = o₂.root →
        (r₁ = r₂ ∧ h₁.trim = h₂.trim) ∨ Collide o₁.preimage o₂.preimage ∨
          Collide h₁.encode h₂.encode := by
  refine ⟨?_, ?_, ?_, ?_⟩
  · intro h₁ h₂ hx₁ hx₂ h
    exact BlockHeader.trim_eq_or_collide_of_hash_eq hx₁ hx₂ h
  · intro o₁ o₂ h
    exact (OutputRoot.eq_or_collide_of_root_eq h).imp_right fun hc =>
      ⟨o₁.length_preimage, o₂.length_preimage, hc⟩
  · intro σ c number s s' o h
    exact Client.exists_fetches_of_answer h
  · intro σ₁ σ₂ c₁ c₂ n₁ n₂ s₁ s₂ o₁ o₂ h₁ h₂ r₁ r₂ hf₁ hf₂ hx₁ hx₂ h
    obtain rfl := hf₁.eq_ofBlock
    obtain rfl := hf₂.eq_ofBlock
    exact OutputRoot.eq_or_collide_of_root_ofBlock_eq hx₁ hx₂ h

/-! ### Two nodes -/

/-- A node with a header for its one block gives the output root of that block. -/
theorem SimulatedNode.fetches_putHeader (number : BitVec 64) (header : BlockHeader) :
    SimulatedNode.client.Fetches number (({} : SimulatedNode).putHeader number header)
      (.ofBlock header (storageHash OutputRoot.messagePasser)) header
      (storageHash OutputRoot.messagePasser) := by
  let node := ({} : SimulatedNode).putHeader number header
  have hworks : node.failRequests = false := rfl
  have hheader := answer_header hworks (.number number)
  have hfor : node.headerFor (.number number) = some header := by
    simp [node, headerFor, headerAt, putHeader]
  rw [hfor] at hheader
  have hstill : (node.after [headerCall (.number number)]).failRequests = false := rfl
  have hpasser := answer_proofs hstill number OutputRoot.messagePasser []
  exact ⟨_, _, _, hheader, hpasser, rfl,
    Client.answer_outputRoot_eq_ok_iff.2 ⟨_, _, _, hheader, hpasser, rfl⟩⟩

/-- Two nodes whose headers differ after a gap give the same output root. -/
theorem contents_of_digest_eq_gapped :
    let h := BlockHeader.gapped
    let root := SimulatedNode.storageHash OutputRoot.messagePasser
    let node := fun header => ({} : SimulatedNode).putHeader 255 header
    h.trim ≠ h ∧ h.hash = h.trim.hash ∧ (h.trim = h.trim.trim ∨ Collide h.encode h.trim.encode) ∧
      SimulatedNode.client.Fetches 255 (node h) (.ofBlock h root) h root ∧
      SimulatedNode.client.Fetches 255 (node h.trim) (.ofBlock h.trim root) h.trim root ∧
      (OutputRoot.ofBlock h root).root = (OutputRoot.ofBlock h.trim root).root ∧
      (h.trim = h.trim.trim ∨
        Collide (OutputRoot.ofBlock h root).preimage (OutputRoot.ofBlock h.trim root).preimage ∨
        Collide h.encode h.trim.encode) := by
  intro h root node
  have hx : h.extraData.length < 2 ^ 60 := by decide
  have hne : h.trim ≠ h := by
    intro he
    cases congrArg BlockHeader.blobGasUsed he
  have hhash : h.hash = h.trim.hash := (BlockHeader.hash_trim hx).symm
  have hroot : (OutputRoot.ofBlock h root).root = (OutputRoot.ofBlock h.trim root).root := by
    rw [OutputRoot.ofBlock, OutputRoot.ofBlock, hhash]
    rfl
  have hfetch := SimulatedNode.fetches_putHeader 255
  obtain ⟨hheaders, -, -, hnodes⟩ := contents_of_digest_eq
  have hboth := hnodes _ _ _ _ _ _ _ _ _ _ _ _ _ _ (hfetch h) (hfetch h.trim) hx hx hroot
  exact ⟨hne, hhash, hheaders h h.trim hx hx hhash, hfetch h, hfetch h.trim, hroot,
    hboth.imp_left And.right⟩

end StorageGateway
