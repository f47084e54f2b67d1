import StorageGateway.Proofs.Simulated

/-!
# What a gateway asks of its service

A service can be made to record the questions it is asked, each with its answer, without answering
any of them differently. The record of an answered request is always the same: the provable block
once, the reads of the slots that the commands lead to, in the order of the commands, and one
question for the proof of exactly these slots. No answer of the service, true or false, can bring in
another slot, or keep one out.

## Main definitions

* `Event` — a question to a service, with its answer.
* `Service.recorded`, `Gateway.recorded` — the same service, with a record of the questions.

## Main statements

* `Gateway.record_of_prove` — the record of an answered request.
-/

namespace StorageGateway

variable {σ β : Type}

/-! ## Records -/

/-- A question to a service, with its answer. -/
inductive Event (β : Type) where
  /-- The block to prove against. -/
  | provableBlock (answer : Except Failure β)
  /-- The word at a slot. -/
  | storageAt (block : β) (address : Address) (slot : UInt256) (answer : Except Failure Word)
  /-- The proof of slots. -/
  | proofs (block : β) (address : Address) (slots : List UInt256)
    (answer : Except Failure StateProof)

/-- Answers a question as before, and adds an event to the record. -/
def Query.recorded {α : Type} (q : Query σ α) (event : Except Failure α → Event β) :
    Query (σ × List (Event β)) α := fun (s, record) =>
  ((q.answer s).1, (q.answer s).2, record ++ [event (q.answer s).1])

/-- The same service, with a record of the questions. -/
def Service.recorded (s : Service σ β) : Service (σ × List (Event β)) β where
  provableBlock := s.provableBlock.recorded .provableBlock
  storageAt block address slot :=
    (s.storageAt block address slot).recorded (.storageAt block address slot)
  proofs block address slots :=
    (s.proofs block address slots).recorded (.proofs block address slots)
  encodeProof := s.encodeProof

/-- The same gateway, with a record of the questions to its service. -/
def Gateway.recorded (g : Gateway σ β) : Gateway (σ × List (Event β)) β :=
  ⟨g.service.recorded, g.config⟩

/-! ## Recorded questions -/

namespace Service

variable {α : Type} {s : Service σ β} {t t' : σ}

theorem returns_ask_recorded {q : Query σ α} {a : α} (event : Except Failure α → Event β)
    (record : List (Event β)) (h : (ask q).Returns t a t') :
    (ask (q.recorded event)).Returns (t, record) a (t', record ++ [event (.ok a)]) := by
  rw [returns_ask] at h ⊢
  change ((q.answer t).1, (q.answer t).2, record ++ [event (q.answer t).1]) = _
  rw [h]

/-- The questions that are asked when slots are read in turn, with the words that answer them. -/
def readEvents (block : β) (address : Address) (slots : List UInt256) (words : List Word) :
    List (Event β) :=
  (slots.zip words).map fun (slot, word) => .storageAt block address slot (.ok word)

/-- Reading slots in turn asks for each of them once, in their order. -/
theorem returns_readInTurn_recorded {block : β} {address : Address} {slots : List UInt256}
    {words : List Word} (record : List (Event β))
    (h : (readInTurn (s.read block address) slots).Returns t words t') :
    (readInTurn (s.recorded.read block address) slots).Returns (t, record) words
      (t', record ++ readEvents block address slots words) := by
  induction slots generalizing t words record with
  | nil =>
    obtain ⟨rfl, rfl⟩ := (returns_readInTurn_nil _).1 h
    exact (returns_readInTurn_nil _).2 ⟨rfl, by simp [readEvents]⟩
  | cons slot slots ih =>
    obtain ⟨word, rest, t₁, rfl, hw, hr⟩ := (returns_readInTurn_cons _).1 h
    have hfirst := returns_ask_recorded (.storageAt block address slot) record hw
    have hrest := ih (record ++ [.storageAt block address slot (.ok word)]) hr
    rw [List.append_assoc] at hrest
    exact (returns_readInTurn_cons _).2 ⟨word, rest, _, rfl, hfirst, hrest⟩

end Service

/-! ## The record of a request -/

namespace Gateway

variable {g : Gateway σ β} {address : Address} {commands : List Command}
  {constants : List Bytes} {s s' : σ} {blob : Bytes}

/-- **An answered request proves the derived slots and nothing else.** Its record is one question
for the block, one read per slot and one question for the proof, all of them at that block and that
contract. The slots are those of the commands, in order, as the words that were read determine
them: per command the base slot, and after it the data slots, which are counted from the digest of
the base slot on. -/
theorem record_of_prove (h : (g.prove address commands constants).Returns s blob s') :
    ∃ block rs words proof,
      (g.recorded.prove address commands constants).Returns (s, []) blob
        (s', .provableBlock (.ok block) ::
          (Service.readEvents block address (slotsOf rs) words ++
            [.proofs block address (slotsOf rs) (.ok proof)])) ∧
      words.length = (slotsOf rs).length ∧
      replay g.config.maxValueLength constants [] commands words = some (rs, []) ∧
      rs.length = commands.length ∧
      (∀ r ∈ rs, ∃ (slot : UInt256) (count : Nat),
        r.slots = slot :: (List.range count).map fun i =>
          BitVec.ofNat 256 ((keccak256 slot.toWord.toList).toNat + i)) ∧
      proof.storageProofs.map (·.key) = slotsOf rs ∧
      g.service.encodeProof block proof = .ok blob := by
  obtain ⟨values, h⟩ := returns_prove.1 h
  obtain ⟨hc, block, s₁, rs, words, s₂, proof, hb, hr, hv, hvs, hp, hk, he⟩ :=
    returns_proveTarget.1 h
  obtain ⟨hl, hs⟩ := slots_of_replay hv
  simp only [dataSlots_eq] at hs
  have hblock := Service.returns_ask_recorded .provableBlock [] hb
  have hreads := Service.returns_readInTurn_recorded [.provableBlock (.ok block)] hr
  have hproof := Service.returns_ask_recorded (.proofs block address (slotsOf rs))
    (.provableBlock (.ok block) :: Service.readEvents block address (slotsOf rs) words) hp
  refine ⟨block, rs, words, proof, ?_, length_of_readInTurn _ hr, hv, hl, hs, hk, he⟩
  exact returns_prove.2 ⟨values, returns_proveTarget.2 ⟨hc, block, _, rs, words, _, proof,
    hblock, hreads, hv, hvs, hproof, hk, he⟩⟩

/-- The record of a request to a chain that holds the same word at every slot. -/
theorem record_of_prove_uniform :
    ∃ blob c', ((SimulatedChain.gateway {}).prove .zero [.ofByte 1 0, .ofByte 0 0] [[]]).Returns
        (.uniform (longWord 33)) blob c' ∧
      ∃ block rs words proof,
        ((SimulatedChain.gateway {}).recorded.prove .zero [.ofByte 1 0, .ofByte 0 0]
            [[]]).Returns (.uniform (longWord 33), []) blob
          (c', .provableBlock (.ok block) ::
            (Service.readEvents block .zero (slotsOf rs) words ++
              [.proofs block .zero (slotsOf rs) (.ok proof)])) ∧
        words.length = (slotsOf rs).length ∧
        replay 1048576 [[]] [] [.ofByte 1 0, .ofByte 0 0] words = some (rs, []) ∧
        rs.length = 2 ∧
        (∀ r ∈ rs, ∃ (slot : UInt256) (count : Nat),
          r.slots = slot :: (List.range count).map fun i =>
            BitVec.ofNat 256 ((keccak256 slot.toWord.toList).toNat + i)) ∧
        proof.storageProofs.map (·.key) = slotsOf rs ∧
        SimulatedChain.service.encodeProof block proof = .ok blob :=
  ⟨_, _, SimulatedChain.returns_prove_uniform,
    record_of_prove SimulatedChain.returns_prove_uniform⟩

end Gateway

end StorageGateway
