import StorageGateway.Proofs.Simulated

/-!
# A proof depends on the words it proves

A gateway reads no word that it does not prove, and a limit rejects a value but never changes it. So
a proof of one chain is also the proof of every other chain that holds the same words at the proven
slots, whatever it holds elsewhere, under the same limits or higher ones.

## Main definitions

* `SimulatedChain.Agree` — two chains hold the same words at some slots of a contract.

## Main statements

* `replay_mono` — values that a limit admits are the same under a higher limit.
* `SimulatedChain.returns_proveTarget_of_agree` — one target, given the values before it.
* `SimulatedChain.prove_eq_of_agree` — a request for one target.
-/

namespace StorageGateway

/-! ## Higher limits -/

variable {max max' : Nat}

theorem ReadAs.mono (hm : max ≤ max') {base : BaseSlot} {words : List Word} {r : Resolved}
    (h : ReadAs max base words r) : ReadAs max' base words r := by
  cases h with
  | fixed hd word => exact .fixed hd word
  | short hd hw => exact .short hd (LengthWord.ofWord_mono hm hw)
  | long hd hw hl => exact .long hd (LengthWord.ofWord_mono hm hw) hl

/-- Words that replay under a limit replay to the same values under a higher limit. -/
theorem replay_mono (hm : max ≤ max') {constants values : List Bytes} {commands : List Command}
    {words rest : List Word} {rs : List Resolved}
    (h : replay max constants values commands words = some (rs, rest)) :
    replay max' constants values commands words = some (rs, rest) := by
  induction commands generalizing values words rs with
  | nil => exact h
  | cons command commands ih =>
    obtain ⟨base, used, r, later, more, hb, hw, hr, hmore, hrs⟩ := replay_cons_eq_some_iff.1 h
    exact replay_cons_eq_some_iff.2
      ⟨base, used, r, later, more, hb, hw, hr.mono hm, ih hmore, hrs⟩

namespace SimulatedChain

/-! ## Chains that agree -/

/-- Two chains hold the same words at the slots of a contract; elsewhere they may differ. -/
def Agree (address : Address) (slots : List UInt256) (c₁ c₂ : SimulatedChain) : Prop :=
  ∀ slot ∈ slots, c₂.storage.word address slot = c₁.storage.word address slot

variable {c₁ c₂ : SimulatedChain} {address : Address} {slots : List UInt256}

theorem Agree.words_eq (h : Agree address slots c₁ c₂) :
    slots.map (c₂.storage.word address) = slots.map (c₁.storage.word address) :=
  List.map_congr_left h

/-- Chains that agree on slots prove them in the same way. -/
theorem Agree.stateProof_eq (h : Agree address slots c₁ c₂)
    (h₁ : slots = [] ∨ c₁.dropProof = false) (h₂ : c₂.dropProof = false) :
    c₂.stateProof address slots = c₁.stateProof address slots := by
  have hproofs : slots.map (c₂.storageProof address) = slots.map (c₁.storageProof address) := by
    refine List.map_congr_left ?_
    intro slot hs
    rw [storageProof, storageProof, h slot hs]
  have hstorage : (c₂.stateProof address slots).storageProofs =
      (c₁.stateProof address slots).storageProofs := by
    rw [storageProofs_stateProof (.inr h₂), storageProofs_stateProof h₁, hproofs]
  -- the storage root is the digest of the storage proofs
  simp only [stateProof] at hstorage ⊢
  rw [hstorage]

/-! ## Targets -/

variable {config₁ config₂ : Config} {commands : List Command} {constants : List Bytes}
  {blob : Bytes} {c₁' : SimulatedChain}

/-- A target that is proven on one chain is proven in the same way, with the same values, on a chain
that agrees with it on the proven slots. -/
theorem returns_proveTarget_of_agree {values values' : List Bytes}
    (hc : config₁.maxCommands ≤ config₂.maxCommands)
    (hl : config₁.maxValueLength ≤ config₂.maxValueLength)
    (hn : c₂.number = c₁.number) (hf : c₂.failReads = false) (hd : c₂.dropProof = false)
    (h : ((gateway config₁).proveTarget address commands constants values).Returns c₁
      (blob, values') c₁')
    (hagree : Agree address c₁'.lastSlots c₁ c₂) :
    ∃ c₂', ((gateway config₂).proveTarget address commands constants values).Returns c₂
      (blob, values') c₂' ∧ c₂'.lastSlots = c₁'.lastSlots := by
  obtain ⟨hcount, rs, hr, hvalues, -, hdrop, hblob, hs⟩ := returns_proveTarget_iff.1 h
  have hslots : c₁'.lastSlots = slotsOf rs := by rw [hs]
  rw [hslots] at hagree ⊢
  have hr₂ : replay config₂.maxValueLength constants values commands
      ((slotsOf rs).map (c₂.storage.word address)) = some (rs, []) := by
    rw [hagree.words_eq]
    exact replay_mono hl hr
  have hblob₂ : blob = encodeProof c₂.number (c₂.stateProof address (slotsOf rs)) := by
    rw [hn, hagree.stateProof_eq hdrop hd, hblob]
  have h₂ := returns_proveTarget_iff.2
    ⟨Nat.le_trans hcount hc, rs, hr₂, hvalues, .inr hf, .inr hd, hblob₂, rfl⟩
  exact ⟨_, h₂, rfl⟩

/-- **A proof depends only on the words it proves.** Take a request that a gateway answers on one
chain. On a chain with the same words at the proven slots, and anything elsewhere, a gateway whose
limits are not lower gives the same bytes and proves the same slots; whether the two gateways read
several slots at a time does not matter. That the first chain answered already says that it leaves
out no proof and fails no read. Every simulated chain starts at the same block and stays there, so
`hn` holds of any two of them. -/
theorem prove_eq_of_agree
    (hc : config₁.maxCommands ≤ config₂.maxCommands)
    (hl : config₁.maxValueLength ≤ config₂.maxValueLength)
    (hn : c₂.number = c₁.number) (hf : c₂.failReads = false) (hd : c₂.dropProof = false)
    (h : ((gateway config₁).prove address commands constants).Returns c₁ blob c₁')
    (hagree : Agree address c₁'.lastSlots c₁ c₂) :
    ∃ c₂', ((gateway config₂).prove address commands constants).Returns c₂ blob c₂' ∧
      c₂'.lastSlots = c₁'.lastSlots := by
  obtain ⟨values, h⟩ := Gateway.returns_prove.1 h
  obtain ⟨c₂', h₂, hslots⟩ := returns_proveTarget_of_agree hc hl hn hf hd h hagree
  exact ⟨c₂', Gateway.returns_prove.2 ⟨values, h₂⟩, hslots⟩

/-- A chain that holds a word at some slots of contract zero, and nothing else. -/
def only (slots : List UInt256) (word : Word) : SimulatedChain :=
  { storage := ⟨fun address slot => if address = .zero ∧ slot ∈ slots then word else .zero⟩ }

theorem agree_only (slots : List UInt256) (word : Word) :
    Agree .zero slots (uniform word) (only slots word) := by
  intro slot hs
  exact if_pos ⟨rfl, hs⟩

theorem prove_eq_of_agree_only :
    ∃ c', ((gateway ⟨300, 2 ^ 40, false⟩).prove .zero [.ofByte 1 0, .ofByte 0 0] [[]]).Returns
        (only ((0 :: dataSlots 0 2) ++ [0]) (longWord 33))
        (encodeProof 1 ((uniform (longWord 33)).stateProof .zero ((0 :: dataSlots 0 2) ++ [0])))
        c' ∧
      c'.lastSlots = (0 :: dataSlots 0 2) ++ [0] := by
  have hagree := agree_only ((0 :: dataSlots 0 2) ++ [0]) (longWord 33)
  have hn : (only ((0 :: dataSlots 0 2) ++ [0]) (longWord 33)).number =
      (uniform (longWord 33)).number := rfl
  have hc : ({} : Config).maxCommands ≤ (⟨300, 2 ^ 40, false⟩ : Config).maxCommands := by decide
  have hl : ({} : Config).maxValueLength ≤ (⟨300, 2 ^ 40, false⟩ : Config).maxValueLength := by
    decide
  exact prove_eq_of_agree hc hl hn rfl rfl returns_prove_uniform hagree

end SimulatedChain

end StorageGateway
