import Mathlib.Data.List.Forall2
import StorageGateway.Proofs.Abi
import StorageGateway.Proofs.Derivation
import StorageGateway.Proofs.Replay
import StorageGateway.Proofs.Rlp
import StorageGateway.Simulated.Chain

/-!
# What a proof of the simulated chain tells

A proof of the simulated chain is complete: whoever holds it, the commands and the constants can run
the commands again without a chain. The proof decodes, each storage proof in it proves a word, and
these words replay to the slots that the gateway proved, one word per slot.

## Main definitions

* `SimulatedChain.LeadsTo` — a storage proof ends in the leaf of a slot.

## Main statements

* `SimulatedChain.decodeProof?_encodeProof` — the layout of proofs is read back.
* `SimulatedChain.returns_proveTarget_iff` — which targets are proven.
* `SimulatedChain.replay_of_prove` — proven words replay.
-/

namespace StorageGateway

namespace SimulatedChain

variable {c c' : SimulatedChain} {address : Address}

/-! ## Answers -/

theorem returns_block {block : BitVec 64} :
    service.block.Returns c block c' ↔
      block = c.number ∧ c' = { c with blocks := c.blocks + 1 } := by
  rw [Service.block, Service.returns_ask]
  change (Except.ok c.number, { c with blocks := c.blocks + 1 }) = (Except.ok block, c') ↔ _
  simp [eq_comm]

/-- A read that returns gives the stored word, and counts. -/
theorem returns_read {block : BitVec 64} {slot : UInt256} {word : Word} :
    (service.read block address slot).Returns c word c' ↔
      c.failReads = false ∧ word = c.storage.word address slot ∧
        c' = { c with reads := c.reads + 1 } := by
  rw [Service.read, Service.returns_ask]
  change (if c.failReads then Except.error _ else Except.ok (c.storage.word address slot),
    { c with reads := c.reads + 1 }) = (Except.ok word, c') ↔ _
  by_cases hf : c.failReads <;> simp [hf, eq_comm]

/-- The error of a read that fails. -/
def readFailure (slot : UInt256) : Error :=
  .io s!"storage read of slot {Hex.quantity slot.toNat} failed"

/-- A read that fails counts too. -/
theorem fails_read (hf : c.failReads = true) (block : BitVec 64) (slot : UInt256) :
    (service.read block address slot).Fails c (readFailure slot)
      { c with reads := c.reads + 1 } := by
  rw [Service.read, Service.fails_ask]
  refine ⟨_, rfl, ?_⟩
  change ((if c.failReads then _ else _ : Except Failure Word), _) = _
  rw [hf]
  rfl

/-- Reads in turn give the stored words, and count. -/
theorem returns_readInTurn {block : BitVec 64} {slots : List UInt256} {words : List Word} :
    (readInTurn (service.read block address) slots).Returns c words c' ↔
      (slots = [] ∨ c.failReads = false) ∧ words = slots.map (c.storage.word address) ∧
        c' = { c with reads := c.reads + slots.length } := by
  induction slots generalizing c words with
  | nil =>
    rw [returns_readInTurn_nil]
    constructor
    · intro h
      exact ⟨.inl rfl, h.1, h.2.symm⟩
    · intro h
      exact ⟨h.2.1, h.2.2.symm⟩
  | cons slot slots ih =>
    have hcount : c.reads + 1 + slots.length = c.reads + (slot :: slots).length := by
      rw [List.length_cons]
      omega
    rw [returns_readInTurn_cons]
    constructor
    · intro h
      obtain ⟨word, rest, t, rfl, hw, hr⟩ := h
      obtain ⟨hf, rfl, rfl⟩ := returns_read.1 hw
      obtain ⟨-, rfl, rfl⟩ := ih.1 hr
      exact ⟨.inr hf, rfl, by rw [← hcount]⟩
    · intro h
      obtain ⟨hf, rfl, rfl⟩ := h
      have hf : c.failReads = false := by simpa using hf
      exact ⟨_, _, _, rfl, returns_read.2 ⟨hf, rfl, rfl⟩,
        ih.2 ⟨.inr hf, rfl, by rw [← hcount]⟩⟩

/-- The first read in turn that fails is the last one. -/
theorem fails_readInTurn (hf : c.failReads = true) (block : BitVec 64) (slot : UInt256)
    (slots : List UInt256) :
    (readInTurn (service.read block address) (slot :: slots)).Fails c (readFailure slot)
      { c with reads := c.reads + 1 } :=
  Run.fails_bind.2 (.inl (fails_read hf block slot))

theorem returns_prove {block : BitVec 64} {slots : List UInt256} {proof : StateProof} :
    (service.prove block address slots).Returns c proof c' ↔
      proof = c.stateProof address slots ∧
        c' = { c with
          fetches := c.fetches + 1, lastSlots := slots, lastTarget := some address } := by
  rw [Service.prove, Service.returns_ask]
  change (Except.ok (c.stateProof address slots), _) = (Except.ok proof, c') ↔ _
  simp [eq_comm]

/-! ## Proofs of slots -/

/-- What the chain counts does not matter to its proofs. -/
theorem stateProof_counted (c : SimulatedChain) (address : Address) (slots : List UInt256)
    (blocks reads : Nat) :
    stateProof { c with blocks := blocks, reads := reads } address slots =
      c.stateProof address slots := rfl

theorem storageProofs_stateProof {slots : List UInt256}
    (h : slots = [] ∨ c.dropProof = false) :
    (c.stateProof address slots).storageProofs = slots.map (c.storageProof address) := by
  rcases h with rfl | hd
  · simp [stateProof]
  · simp [stateProof, hd]

/-- The storage proofs are for the requested slots, unless the chain leaves one out. -/
theorem keys_stateProof {slots : List UInt256} :
    (c.stateProof address slots).storageProofs.map (·.key) = slots ↔
      slots = [] ∨ c.dropProof = false := by
  constructor
  · intro h
    by_cases hd : c.dropProof
    · have hl := congrArg List.length h
      simp only [stateProof, hd, if_true, List.length_map, List.length_dropLast] at hl
      left
      rw [← List.length_eq_zero_iff]
      omega
    · right
      simpa using hd
  · intro h
    have hkey : ((·.key) ∘ c.storageProof address : UInt256 → UInt256) = id := rfl
    rw [storageProofs_stateProof h, List.map_map, hkey, List.map_id]

/-- A storage proof that ends in the leaf of a slot. -/
def LeadsTo (slot : UInt256) (nodes : List Bytes) : Prop :=
  ∃ node leaf rest, nodes.getLast? = some node ∧ StorageLeaf.read node = .ok (leaf, rest) ∧
    leaf.path = (keccak256 slot.toWord.toList).toList

/-- The leaf of a slot is read back. -/
theorem read_leaf (slot : UInt256) (word : Word) :
    StorageLeaf.read (StorageLeaf.ofWord slot word).encode =
      .ok (StorageLeaf.ofWord slot word, []) := by
  have hpath : (StorageLeaf.ofWord slot word).path.length = 32 := by simp [StorageLeaf.ofWord]
  have hvalue : (StorageLeaf.ofWord slot word).value.length ≤ 41 := by
    have hn := Rlp.length_number_le word.toUInt256
    rw [StorageLeaf.value_ofWord]
    omega
  generalize StorageLeaf.ofWord slot word = leaf at hpath hvalue ⊢
  have h1 := Rlp.length_string_le leaf.path
  have h2 := Rlp.length_string_le leaf.value
  have hl : (Rlp.string leaf.path ++ Rlp.string leaf.value).length < limit64 := by
    rw [List.length_append, limit64]
    omega
  have hread := StorageLeaf.read_encode hl []
  rwa [List.append_nil] at hread

theorem nodes_storageProof (c : SimulatedChain) (slot : UInt256) :
    (c.storageProof address slot).nodes =
      [(StorageLeaf.ofWord slot (c.storage.word address slot)).encode] := by
  rw [storageProof]

theorem leadsTo_storageProof (c : SimulatedChain) (slot : UInt256) :
    LeadsTo slot (c.storageProof address slot).nodes := by
  refine ⟨_, _, [], ?_, read_leaf slot (c.storage.word address slot), rfl⟩
  rw [nodes_storageProof, List.getLast?_singleton]

/-- The proof of a slot proves the stored number. -/
theorem provenValue_storageProof (c : SimulatedChain) (slot : UInt256) :
    provenValue (c.storageProof address slot).nodes =
      .ok (c.storage.word address slot).toUInt256 := by
  have hleaf := read_leaf slot (c.storage.word address slot)
  rw [nodes_storageProof]
  generalize c.storage.word address slot = word at hleaf ⊢
  have hnumber : Rlp.readNumber 256 (StorageLeaf.ofWord slot word).value =
      .ok (word.toUInt256, []) := by
    have h := Rlp.readNumber_number (by decide) (by decide) word.toUInt256 []
    rw [List.append_nil] at h
    rw [StorageLeaf.value_ofWord, h]
  simp only [provenValue, List.getLast?_singleton, hleaf, Result.ofRlp, Except.mapError_ok, bind,
    Except.bind, hnumber]
  rfl

/-- The proofs of slots prove the stored numbers. -/
theorem mapM_provenValue (c : SimulatedChain) (slots : List UInt256) :
    ((slots.map (c.storageProof address)).map (·.nodes)).mapM provenValue =
      .ok (slots.map fun slot => (c.storage.word address slot).toUInt256) := by
  simp only [Except.mapM_eq_ok_iff, List.forall₂_map_left_iff, List.forall₂_map_right_iff,
    List.forall₂_same]
  intro slot _
  exact provenValue_storageProof c slot

/-! ## The layout -/

theorem lawful_layout : layout.Lawful :=
  .cons (.tuple (.single .word)) (.single NodeLists.lawful_codec)

/-- The layout of proofs is read back. -/
theorem decodeProof?_encodeProof {number : BitVec 64} {proof : StateProof}
    (h : (encodeProof number proof).length < Abi.Codec.addressable) :
    decodeProof? (encodeProof number proof) = .ok (some (number, proof.nodes)) := by
  have hvalid : ∀ a, layout.valid a := by
    intro a
    simp [layout, NodeLists.codec]
  have hdecode := lawful_layout.decode_encode layoutName h (hvalid _)
  have hnumber := UInt256.toNat_toWord_setWidth number
  simp only [decodeProof?, encodeProof, hdecode, Result.ofAbi, Except.mapError_ok, bind,
    Except.bind, hnumber, BitVec.ofNat_toNat, BitVec.setWidth_eq, if_true]
  rfl

/-! ## Verification -/

variable {config : Config} {commands : List Command} {constants : List Bytes} {blob : Bytes}

/-- A target is proven exactly when it has few enough commands and the stored words replay. -/
theorem returns_proveTarget_iff {values values' : List Bytes} :
    ((gateway config).proveTarget address commands constants values).Returns c (blob, values') c' ↔
      commands.length ≤ config.maxCommands ∧
      ∃ rs, replay config.maxValueLength constants values commands
          ((slotsOf rs).map (c.storage.word address)) = some (rs, []) ∧
        values' = values ++ valuesOf rs ∧
        (slotsOf rs = [] ∨ c.failReads = false) ∧ (slotsOf rs = [] ∨ c.dropProof = false) ∧
        blob = encodeProof c.number (c.stateProof address (slotsOf rs)) ∧
        c' = { c with
          reads := c.reads + (slotsOf rs).length
          fetches := c.fetches + 1
          blocks := c.blocks + 1
          lastSlots := slotsOf rs
          lastTarget := some address } := by
  rw [Gateway.returns_proveTarget]
  constructor
  · intro h
    obtain ⟨hc, block, s₁, rs, words, s₂, proof, hb, hr, hv, hvs, hp, hk, he⟩ := h
    obtain ⟨rfl, hs₁⟩ := returns_block.1 hb
    obtain ⟨hf, rfl, hs₂⟩ := returns_readInTurn.1 hr
    obtain ⟨hproof, hs'⟩ := returns_prove.1 hp
    have hproof : proof = c.stateProof address (slotsOf rs) := by
      rw [hproof, hs₂, hs₁]
      exact stateProof_counted c _ _ _ _
    rw [hs₁] at hv hf
    rw [hproof] at hk he
    refine ⟨hc, rs, hv, hvs, hf, keys_stateProof.1 hk, (Except.ok.inj he).symm, ?_⟩
    rw [hs', hs₂, hs₁]
  · intro h
    obtain ⟨hc, rs, hv, hvs, hf, hd, hblob, hs'⟩ := h
    have hproof := (stateProof_counted c address (slotsOf rs) (c.blocks + 1)
      (c.reads + (slotsOf rs).length)).symm
    refine ⟨hc, _, _, rs, _, _, c.stateProof address (slotsOf rs), returns_block.2 ⟨rfl, rfl⟩,
      returns_readInTurn.2 ⟨hf, rfl, rfl⟩, hv, hvs, returns_prove.2 ⟨hproof, hs'⟩,
      keys_stateProof.2 hd, ?_⟩
    rw [hblob]
    rfl

/-- **A proof is all that a verifier needs.** An answered request decodes to the block's number and
to storage proofs that prove one number each. These numbers, as words, replay: the commands take
them off in order and leave none over. The slots of the replay are the proven ones, and hold the
proven numbers. -/
theorem replay_of_prove
    (h : ((gateway config).prove address commands constants).Returns c blob c')
    (hl : blob.length < 2 ^ 60) :
    ∃ nodes numbers rs, decodeProof? blob = .ok (some (c.number, nodes)) ∧
      nodes.storage.mapM provenValue = .ok numbers ∧
      replay config.maxValueLength constants [] commands (numbers.map UInt256.toWord) =
        some (rs, []) ∧
      List.Forall₂ LeadsTo (slotsOf rs) nodes.storage ∧
      numbers = (slotsOf rs).map (fun slot => (c.storage.word address slot).toUInt256) ∧
      c'.lastSlots = slotsOf rs ∧ c'.lastTarget = some address := by
  obtain ⟨values, h⟩ := Gateway.returns_prove.1 h
  obtain ⟨-, rs, hv, -, -, hd, hblob, hs⟩ := returns_proveTarget_iff.1 h
  have hnumbers : ((slotsOf rs).map fun slot => (c.storage.word address slot).toUInt256).map
      UInt256.toWord = (slotsOf rs).map (c.storage.word address) := by
    simp
  have hnodes : (c.stateProof address (slotsOf rs)).nodes.storage =
      ((slotsOf rs).map (c.storageProof address)).map (·.nodes) := by
    rw [StateProof.nodes, storageProofs_stateProof hd]
  refine ⟨(c.stateProof address (slotsOf rs)).nodes, _, rs, ?_, ?_, by rwa [hnumbers], ?_, rfl, ?_⟩
  · rw [hblob] at hl ⊢
    exact decodeProof?_encodeProof (Nat.lt_trans hl (by decide))
  · rw [hnodes]
    exact mapM_provenValue c (slotsOf rs)
  · rw [hnodes]
    simp only [List.map_map, List.forall₂_map_right_iff, List.forall₂_same]
    intro slot _
    exact leadsTo_storageProof c slot
  · rw [hs]
    exact ⟨rfl, rfl⟩

/-- A chain that holds the same word at every slot. -/
def uniform (word : Word) : SimulatedChain := { storage := ⟨fun _ _ => word⟩ }

/-- A value of 33 bytes and the word at its base slot, with no limit but the ones of every
gateway. -/
theorem returns_prove_uniform :
    ((gateway {}).prove .zero [.ofByte 1 0, .ofByte 0 0] [[]]).Returns (uniform (longWord 33))
      (encodeProof 1 ((uniform (longWord 33)).stateProof .zero ((0 :: dataSlots 0 2) ++ [0])))
      { uniform (longWord 33) with
        reads := 4
        fetches := 1
        blocks := 1
        lastSlots := (0 :: dataSlots 0 2) ++ [0]
        lastTarget := some .zero } := by
  let long : Resolved :=
    ⟨0 :: dataSlots 0 2, ((longWord 33).toList ++ (longWord 33).toList).take 33⟩
  exact Gateway.returns_prove.2 ⟨_, returns_proveTarget_iff.2 ⟨by decide,
    [long, ⟨[0], (longWord 33).toList⟩], rfl, rfl, .inr rfl, .inr rfl, rfl, rfl⟩⟩

theorem replay_of_prove_uniform :
    ∃ blob c', ((gateway {}).prove .zero [.ofByte 1 0, .ofByte 0 0] [[]]).Returns
        (uniform (longWord 33)) blob c' ∧ blob.length < 2 ^ 60 ∧
      ∃ nodes numbers rs, decodeProof? blob = .ok (some (1, nodes)) ∧
        nodes.storage.mapM provenValue = .ok numbers ∧
        replay 1048576 [[]] [] [.ofByte 1 0, .ofByte 0 0] (numbers.map UInt256.toWord) =
          some (rs, []) ∧
        List.Forall₂ LeadsTo (slotsOf rs) nodes.storage ∧
        numbers = (slotsOf rs).map (fun _ => (longWord 33).toUInt256) ∧
        c'.lastSlots = slotsOf rs ∧ c'.lastTarget = some .zero := by
  have hl : (encodeProof 1 ((uniform (longWord 33)).stateProof .zero
      ((0 :: dataSlots 0 2) ++ [0]))).length < 2 ^ 60 := by
    decide +kernel
  exact ⟨_, _, returns_prove_uniform, hl, replay_of_prove returns_prove_uniform hl⟩

end SimulatedChain

end StorageGateway
