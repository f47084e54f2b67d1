import StorageGateway.Gateway.Calls
import StorageGateway.Proofs.Failures
import StorageGateway.Proofs.Simulated

/-!
# Which errors of a request are final

An error that is blamed on the request should not go away when the chain changes. Two runs of one
request on different chains are compared: as long as both go on, they have resolved equally many
values, so every instruction and every target reference finds an entry in both or in none. What may
differ are the values themselves. They decide two errors: a value that is the seed of a slot may be
longer than a slot, and a value that a target stands for may be no address. All other errors that
are blamed on the request are final.

## Main definitions

* `Request` and `Gateway.serve` — the three ways to ask a gateway.
* `InStep` — the values of two runs of one request.
* `Error.IsFinal`, `Error.DependsOnValues`.

## Main statements

* `Gateway.dependsOnValues_of_serve` — what fails on one chain and is answered on another.
* `Error.isFinal_iff` — which errors are final.
-/

namespace StorageGateway

variable {config : Config}

/-! ## Lengths of values -/

/-- The values that a gateway resolves: they fit in a word, or are within its limits. -/
def Config.Admits (config : Config) (value : Bytes) : Prop :=
  value.length ≤ 32 ∨ value.length ≤ config.maxValueLength ∧ value.length < limit64

theorem ReadAs.admits {base : BaseSlot} {words : List Word} {r : Resolved}
    (h : ReadAs config.maxValueLength base words r) : config.Admits r.value := by
  cases h with
  | fixed hd word => exact .inl (by rw [word.length_toList])
  | short hd hw => exact .inl (LengthWord.length_le_of_short hw)
  | long hd hw hl =>
    obtain ⟨hlimit, hmax, -⟩ := LengthWord.of_long hw
    rw [Config.Admits, List.length_take]
    omega

theorem Config.admits_of_replay {constants values : List Bytes} {commands : List Command}
    {words rest : List Word} {rs : List Resolved}
    (h : replay config.maxValueLength constants values commands words = some (rs, rest)) :
    ∀ v ∈ valuesOf rs, config.Admits v := by
  induction commands generalizing values words rs with
  | nil =>
    simp only [replay, Option.some.injEq, Prod.mk.injEq] at h
    rw [← h.1]
    simp
  | cons command commands ih =>
    obtain ⟨base, used, r, later, more, -, -, hr, hm, rfl⟩ := replay_cons_eq_some_iff.1 h
    intro v hv
    rcases List.mem_cons.1 hv with rfl | hv
    · exact hr.admits
    · exact ih hm v hv

/-! ## Two runs -/

/-- The values that two runs of one request have resolved. -/
structure InStep (config : Config) (values₁ values₂ : List Bytes) : Prop where
  /-- They are equally many. -/
  length_eq : values₁.length = values₂.length
  /-- Those of the first run are within the limits of a gateway. -/
  admits : ∀ v ∈ values₁, config.Admits v
  /-- There are none if no commands are allowed. -/
  maxCommands_pos : values₁ ≠ [] → 0 < config.maxCommands

namespace InStep

theorem nil : InStep config [] [] := ⟨rfl, by simp, by simp⟩

theorem append {values₁ values₂ more₁ more₂ : List Bytes} (h : InStep config values₁ values₂)
    (hl : more₁.length = more₂.length) (ha : ∀ v ∈ more₁, config.Admits v)
    (hc : more₁.length ≤ config.maxCommands) :
    InStep config (values₁ ++ more₁) (values₂ ++ more₂) := by
  refine ⟨by rw [List.length_append, List.length_append, h.length_eq, hl], ?_, ?_⟩
  · intro v hv
    rcases List.mem_append.1 hv with hv | hv
    · exact h.admits v hv
    · exact ha v hv
  · intro hne
    by_cases hv : values₁ = []
    · rw [hv, List.nil_append] at hne
      have := List.length_pos_iff.2 hne
      omega
    · exact h.maxCommands_pos hv

end InStep

/-- The errors, among those blamed on a request, that the values decide. -/
def Error.DependsOnValues (config : Config) : Error → Prop
  | seedTooLarge length => 0 < config.maxCommands ∧ 32 < length ∧ length < limit64 ∧
      length ≤ config.maxValueLength
  | invalidTargetReference target => 0 < config.maxCommands ∧ target.toNat ≤ maxTargetReference
  | _ => False

namespace Gateway

section TwoRuns

variable {σ₁ σ₂ β₁ β₂ : Type} {service₁ : Service σ₁ β₁} {service₂ : Service σ₂ β₂}
  {block₁ : β₁} {block₂ : β₂} {address₁ address₂ : Address} {constants values₁ values₂ : List Bytes}
  {s₁ s₁' : σ₁} {s₂ s₂' : σ₂} {e : Error}

/-- Commands that fail in one run, the request being to blame, and not in the other. -/
theorem dependsOnValues_of_resolveCommands {commands : List Command}
    {r : List UInt256 × List Bytes} (hv : InStep config values₁ values₂)
    (hc : commands.length ≤ config.maxCommands)
    (h₁ : (resolveCommands ⟨service₁, config⟩ block₁ address₁ constants values₁ commands).Fails
      s₁ e s₁') (he : e.isMalformedRequest = true)
    (h₂ : (resolveCommands ⟨service₂, config⟩ block₂ address₂ constants values₂ commands).Returns
      s₂ r s₂') : e.DependsOnValues config := by
  induction commands generalizing values₁ values₂ s₁ s₂ s₂' r with
  | nil => cases h₁
  | cons command commands ih =>
    rw [List.length_cons] at hc
    rw [resolveCommands, Run.returns_bind] at h₂
    obtain ⟨⟨slots₂, value₂⟩, t₂, hfirst₂, h₂⟩ := h₂
    obtain ⟨base₂, words₂, hd₂, -, -⟩ := returns_resolveCommand.1 hfirst₂
    obtain ⟨r', t₂', hrest₂, -⟩ := Run.returns_bind.1 h₂
    rw [resolveCommands] at h₁
    rcases Run.fails_bind.1 h₁ with hfirst₁ | ⟨⟨slots₁, value₁⟩, t₁, hfirst₁, h₁⟩
    · -- The first command leads to a slot in the other run, so its seed is a value.
      have hd₁ := derive_of_fails_resolveCommand hfirst₁ he
      have halike : Tables.Alike ⟨constants, values₁⟩ ⟨constants, values₂⟩ :=
        ⟨rfl, hv.length_eq⟩
      obtain ⟨value, hm, hl, rfl⟩ := halike.seedTooLarge hd₁ hd₂
      rcases hv.admits value hm with hw | ⟨hmax, hlimit⟩
      · omega
      · exact ⟨by omega, hl, hlimit, hmax⟩
    · obtain ⟨base₁, words₁, -, -, hr₁⟩ := returns_resolveCommand.1 hfirst₁
      rcases Run.fails_bind.1 h₁ with hrest₁ | ⟨_, t₁', -, h₁⟩
      · have hstep : InStep config (values₁ ++ [value₁]) (values₂ ++ [value₂]) := by
          refine hv.append rfl ?_ (by rw [List.length_singleton]; omega)
          intro v hm
          rw [List.mem_singleton.1 hm]
          exact hr₁.admits
        exact ih hstep (by omega) hrest₁ hrest₂
      · cases h₁

/-- A target that fails in one run, the request being to blame, and not in the other. -/
theorem dependsOnValues_of_proveTarget {commands : List Command} {r : Bytes × List Bytes}
    (hpack : service₁.AcquitsRequests)
    (hv : InStep config values₁ values₂)
    (h₁ : (proveTarget ⟨service₁, config⟩ address₁ commands constants values₁).Fails s₁ e s₁')
    (he : e.isMalformedRequest = true)
    (h₂ : (proveTarget ⟨service₂, config⟩ address₂ commands constants values₂).Returns s₂ r s₂') :
    e.DependsOnValues config := by
  obtain ⟨hc, block₂, t₂, rs, words, t₂', proof, -, hr, hreplay, -, -, -, -⟩ :=
    returns_proveTarget.1 h₂
  have hcommands := returns_resolveCommands.2 ⟨rs, words, hr, hreplay, rfl, rfl⟩
  have hc : commands.length ≤ config.maxCommands := hc
  rcases of_fails_proveTarget hpack h₁ he with hc' | ⟨block₁, t₁, hfail⟩
  · have hc' : config.maxCommands < commands.length := hc'
    omega
  · exact dependsOnValues_of_resolveCommands hv hc hfail he hcommands

/-- Two runs that both prove a target go on in step. -/
theorem inStep_of_proveTarget {commands : List Command} {blob₁ blob₂ : Bytes}
    {values₁' values₂' : List Bytes} (hv : InStep config values₁ values₂)
    (h₁ : (proveTarget ⟨service₁, config⟩ address₁ commands constants values₁).Returns s₁
      (blob₁, values₁') s₁')
    (h₂ : (proveTarget ⟨service₂, config⟩ address₂ commands constants values₂).Returns s₂
      (blob₂, values₂') s₂') : InStep config values₁' values₂' := by
  obtain ⟨hc, _, _, rs₁, _, _, _, -, -, hreplay₁, rfl, -⟩ := returns_proveTarget.1 h₁
  obtain ⟨-, _, _, rs₂, _, _, _, -, -, hreplay₂, rfl, -⟩ := returns_proveTarget.1 h₂
  have hl₁ := (slots_of_replay hreplay₁).1
  have hl₂ := (slots_of_replay hreplay₂).1
  have hc : commands.length ≤ config.maxCommands := hc
  refine hv.append ?_ (Config.admits_of_replay hreplay₁) ?_
  · rw [valuesOf, valuesOf, List.length_map, List.length_map, hl₁, hl₂]
  · rw [valuesOf, List.length_map, hl₁]
    exact hc

/-- A target that stands for no address in one run, and for an address in the other. -/
theorem of_resolveTarget {target a : Address} (hl : values₁.length = values₂.length)
    (h₁ : resolveTarget target values₁ = .error e) (h₂ : resolveTarget target values₂ = .ok a) :
    e = .invalidTargetReference target ∧ target.toNat ≤ maxTargetReference ∧ values₁ ≠ [] := by
  rw [resolveTarget] at h₁ h₂
  by_cases ht : maxTargetReference < target.toNat
  · rw [if_pos ht] at h₁
    cases h₁
  · rw [if_neg ht] at h₁ h₂
    refine ⟨?_, by omega, ?_⟩
    · split at h₁
      · cases h₁
        rfl
      · split at h₁
        · cases h₁
        · cases h₁
          rfl
    · intro hnil
      have hnil₂ : values₂ = [] := by
        rw [← List.length_eq_zero_iff, ← hl, hnil]
        rfl
      rw [hnil₂] at h₂
      cases h₂

theorem dependsOnValues_of_proveRequests {requests : List TargetRequest} {blobs : List Bytes}
    (hpack : service₁.AcquitsRequests)
    (hv : InStep config values₁ values₂)
    (h₁ : (proveRequests ⟨service₁, config⟩ values₁ requests).Fails s₁ e s₁')
    (he : e.isMalformedRequest = true)
    (h₂ : (proveRequests ⟨service₂, config⟩ values₂ requests).Returns s₂ blobs s₂') :
    e.DependsOnValues config := by
  induction requests generalizing values₁ values₂ s₁ s₂ s₂' blobs with
  | nil => cases h₁
  | cons request requests ih =>
    obtain ⟨target₂, blob₂, values₂', t₂, more₂, ht₂, hfirst₂, hrest₂, -⟩ :=
      returns_proveRequests_cons.1 h₂
    rcases fails_proveRequests_cons.1 h₁ with
      ⟨ht₁, -⟩ | ⟨target₁, -, hfirst₁ | ⟨blob₁, values₁', t₁, hfirst₁, hrest₁⟩⟩
    · obtain ⟨rfl, ht, hne⟩ := of_resolveTarget hv.length_eq ht₁ ht₂
      exact ⟨hv.maxCommands_pos hne, ht⟩
    · exact dependsOnValues_of_proveTarget hpack hv hfirst₁ he hfirst₂
    · exact ih (inStep_of_proveTarget hv hfirst₁ hfirst₂) hrest₁ hrest₂

theorem dependsOnValues_of_prove {commands : List Command} {blob : Bytes}
    (hpack : service₁.AcquitsRequests)
    (h₁ : (prove ⟨service₁, config⟩ address₁ commands constants).Fails s₁ e s₁')
    (he : e.isMalformedRequest = true)
    (h₂ : (prove ⟨service₂, config⟩ address₂ commands constants).Returns s₂ blob s₂') :
    e.DependsOnValues config := by
  obtain ⟨values', h₂⟩ := returns_prove.1 h₂
  rw [prove] at h₁
  exact dependsOnValues_of_proveTarget hpack .nil (Run.fails_bind_pure.1 h₁) he h₂

/-- Call data that is answered in one run is well encoded, so the other one fails for the calls
themselves. -/
theorem dependsOnValues_of_answer {data answer : Bytes}
    (hpack : service₁.AcquitsRequests)
    (h₁ : (Gateway.answer ⟨service₁, config⟩ data).Fails s₁ e s₁')
    (he : e.isMalformedRequest = true)
    (h₂ : (Gateway.answer ⟨service₂, config⟩ data).Returns s₂ answer s₂') :
    e.DependsOnValues config := by
  rw [Gateway.answer] at h₁ h₂
  by_cases hl : data.length < 4
  · simp only [hl, if_true] at h₂
    cases h₂
  · simp only [hl, if_false] at h₁ h₂
    by_cases hs : data.take 4 = SingleCall.selector
    · rw [if_pos hs] at h₁ h₂
      obtain ⟨call, h₁, h₂⟩ := Run.exists_of_fails_of_returns h₁ h₂
      obtain ⟨blob, _, h₂, -⟩ := Run.returns_bind.1 h₂
      exact dependsOnValues_of_prove hpack (Run.fails_bind_pure.1 h₁) he h₂
    · rw [if_neg hs] at h₁ h₂
      by_cases hb : data.take 4 = BatchCall.selector
      · rw [if_pos hb] at h₁ h₂
        obtain ⟨call, h₁, h₂⟩ := Run.exists_of_fails_of_returns h₁ h₂
        obtain ⟨blobs, _, h₂, -⟩ := Run.returns_bind.1 h₂
        exact dependsOnValues_of_proveRequests hpack .nil (Run.fails_bind_pure.1 h₁) he h₂
      · rw [if_neg hb] at h₂
        cases h₂

end TwoRuns

end Gateway

/-! ## Requests -/

/-- The ways to ask a gateway. -/
inductive Request where
  /-- For one target. -/
  | target (address : Address) (commands : List Command) (constants : List Bytes)
  /-- For several targets. -/
  | targets (requests : List TargetRequest)
  /-- By call data. -/
  | call (data : Bytes)

/-- Answers a request: with one proof per target, or with the answer to call data. -/
def Gateway.serve {σ β : Type} (g : Gateway σ β) : Request → Run σ (List Bytes)
  | .target address commands constants => do
    let proof ← g.prove address commands constants
    pure [proof]
  | .targets requests => g.proveAll requests
  | .call data => do
    let answer ← g.answer data
    pure [answer]

/-- If a request fails on one chain, being to blame, and is answered on another, its values decide
the error. -/
theorem Gateway.dependsOnValues_of_serve {request : Request} {c₁ c₁' c₂ c₂' : SimulatedChain}
    {answers : List Bytes} {e : Error}
    (h₁ : ((SimulatedChain.gateway config).serve request).Fails c₁ e c₁')
    (he : e.isMalformedRequest = true)
    (h₂ : ((SimulatedChain.gateway config).serve request).Returns c₂ answers c₂') :
    e.DependsOnValues config := by
  have hpack : SimulatedChain.service.AcquitsRequests := by
    intro block proof e h
    cases h
  cases request with
  | target address commands constants =>
    rw [serve] at h₁ h₂
    obtain ⟨_, _, h₂, -⟩ := Run.returns_bind.1 h₂
    exact dependsOnValues_of_prove hpack (Run.fails_bind_pure.1 h₁) he h₂
  | targets requests => exact dependsOnValues_of_proveRequests hpack .nil h₁ he h₂
  | call data =>
    rw [serve] at h₁ h₂
    obtain ⟨_, _, h₂, -⟩ := Run.returns_bind.1 h₂
    exact dependsOnValues_of_answer hpack (Run.fails_bind_pure.1 h₁) he h₂

/-! ## Errors that go away -/

namespace SimulatedChain

/-- A chain that answers everything, and holds the same word at every slot. -/
structure Holds (c : SimulatedChain) (word : Word) : Prop where
  word_eq : ∀ address slot, c.storage.word address slot = word
  failReads_eq : c.failReads = false
  dropProof_eq : c.dropProof = false

theorem holds_uniform (word : Word) : (uniform word).Holds word := by
  refine ⟨?_, rfl, rfl⟩
  intro _ _
  rfl

theorem holds_empty : ({} : SimulatedChain).Holds .zero := by
  refine ⟨?_, rfl, rfl⟩
  intro _ _
  rfl

/-- Commands that replay on copies of one word can be proven, which leaves the words as they are. -/
theorem Holds.exists_proveTarget {c : SimulatedChain} {word : Word} (h : c.Holds word)
    (address : Address) {commands : List Command} {constants values : List Bytes}
    {words : List Word} {rs : List Resolved}
    (hr : replay config.maxValueLength constants values commands words = some (rs, []))
    (hw : (slotsOf rs).map (fun _ => word) = words) (hc : commands.length ≤ config.maxCommands) :
    ∃ blob c', ((gateway config).proveTarget address commands constants values).Returns c
      (blob, values ++ valuesOf rs) c' ∧ c'.Holds word := by
  have hwords : (slotsOf rs).map (c.storage.word address) = words := by
    rw [← hw]
    exact List.map_congr_left fun slot _ => h.word_eq address slot
  rw [← hwords] at hr
  exact ⟨_, _, returns_proveTarget_iff.2 ⟨hc, rs, hr, rfl, .inr h.failReads_eq,
    .inr h.dropProof_eq, rfl, rfl⟩, h.word_eq, h.failReads_eq, h.dropProof_eq⟩

/-! ### A seed that is too long -/

/-- A contract that no target reference stands for. -/
def contract : Address := ⟨List.replicate 20 0xff, rfl⟩

/-- A value and, with the value as its seed, another one. -/
def seededRequest : Request :=
  .targets [⟨contract, [.ofByte 1 0], [[]], 0⟩, ⟨contract, [.ofByte 0 0x20], [], 0⟩]

/-- A length word, repeated, is a value of that length. -/
theorem exists_replay_longWord {length max : Nat} (hl : length < limit64) (hm : length ≤ max) :
    ∃ r, r.value.length = length ∧ replay max [[]] [] [.ofByte 1 0]
      ((slotsOf [r]).map fun _ => longWord length) = some ([r], []) := by
  have hw := LengthWord.ofWord_longWord 0 hl hm
  generalize longWord length = word at hw ⊢
  have hdata := LengthWord.length_slots_of_long hw
  generalize dataSlots 0 (Bytes.pieces 32 length) = data at hw hdata
  let words := data.map fun _ => word
  have hwords : words.length = data.length := List.length_map _
  have hsum : (words.flatMap (·.toList)).length = data.length * 32 := by
    simp [words, List.length_flatMap]
  have hd : (⟨0, true⟩ : BaseSlot).isDynamic = true := rfl
  have hderive : Tables.derive ⟨[[]], []⟩ (.ofByte 1 0) = .ok ⟨0, true⟩ := by
    rw [Tables.derive_ofByte, Tables.seed_constant]
    rfl
  refine ⟨⟨0 :: data, (words.flatMap (·.toList)).take length⟩, ?_, ?_⟩
  · rw [List.length_take, hsum, hdata, Bytes.pieces]
    omega
  · rw [slotsOf_cons, slotsOf_nil, List.append_nil]
    exact replay_cons_eq_some_iff.2 ⟨_, word :: words, _, [], [], hderive,
      (List.append_nil _).symm, .long hd hw hwords, rfl, rfl⟩

theorem exists_fails_seededRequest {length : Nat} (hc : 0 < config.maxCommands)
    (h32 : 32 < length) (hl : length < limit64) (hm : length ≤ config.maxValueLength) :
    ∃ c', ((gateway config).serve seededRequest).Fails (uniform (longWord length))
      (.seedTooLarge length) c' := by
  obtain ⟨r, hlength, hr⟩ := exists_replay_longWord hl hm
  obtain ⟨blob, c₁, hfirst, -⟩ :=
    (holds_uniform (longWord length)).exists_proveTarget contract hr rfl hc
  have hderive : Tables.derive ⟨[], [r.value]⟩ (.ofByte 0 0x20) =
      .error (.seedTooLarge length) := by
    have hlong : ¬ r.value.length ≤ 32 := by omega
    rw [Tables.derive_ofByte, Tables.seed_backref, if_neg hlong, hlength]
    rfl
  have hcommands : ((gateway config).resolveCommands c₁.number contract [] [r.value]
      [.ofByte 0 0x20]).Fails { c₁ with blocks := c₁.blocks + 1 } (.seedTooLarge length)
        { c₁ with blocks := c₁.blocks + 1 } := Gateway.fails_resolveCommands hderive
  have hsecond : ((gateway config).proveTarget contract [.ofByte 0 0x20] [] [r.value]).Fails c₁
      (.seedTooLarge length) { c₁ with blocks := c₁.blocks + 1 } :=
    Gateway.fails_proveTarget hc (returns_block.2 ⟨rfl, rfl⟩) hcommands
  exact ⟨_, Gateway.fails_proveRequests_cons.2 (.inr ⟨contract, rfl, .inr ⟨blob, [r.value], c₁,
    hfirst, Gateway.fails_proveRequests_cons.2 (.inr ⟨contract, rfl, .inl hsecond⟩)⟩⟩)⟩

/-- Where nothing is stored, the seed is empty. -/
theorem exists_returns_seededRequest (hc : 0 < config.maxCommands) :
    ∃ answers c', ((gateway config).serve seededRequest).Returns {} answers c' := by
  have hreplay : replay config.maxValueLength [[]] [] [.ofByte 1 0] [.zero] =
      some ([⟨[0], []⟩], []) := rfl
  have hreplay' : replay config.maxValueLength [] [[]] [.ofByte 0 0x20] [.zero] =
      some ([⟨[0], Word.zero.toList⟩], []) := rfl
  obtain ⟨blob, c₁, hfirst, h₁⟩ := holds_empty.exists_proveTarget contract hreplay rfl hc
  obtain ⟨blob', c₂, hsecond, -⟩ := h₁.exists_proveTarget contract hreplay' rfl hc
  exact ⟨_, _, Gateway.returns_proveRequests_cons.2 ⟨contract, blob, _, c₁, [blob'], rfl, hfirst,
    Gateway.returns_proveRequests_cons.2 ⟨contract, blob', _, c₂, [], rfl, hsecond,
      Run.returns_pure.2 ⟨rfl, rfl⟩, rfl⟩, rfl⟩⟩

/-! ### A target that stands for no address -/

/-- A value and, where it is the address, a target without commands. -/
def referenceRequest (target : Address) : Request :=
  .targets [⟨contract, [.ofByte 0 0], [[]], 0⟩, ⟨target, [], [], 0⟩]

/-- A word that is no address. -/
def ones : Word := ⟨List.replicate 32 0xff, rfl⟩

theorem exists_fails_referenceRequest {target : Address} (hc : 0 < config.maxCommands)
    (ht : target.toNat ≤ maxTargetReference) :
    ∃ c', ((gateway config).serve (referenceRequest target)).Fails (uniform ones)
      (.invalidTargetReference target) c' := by
  have hreplay : replay config.maxValueLength [[]] [] [.ofByte 0 0] [ones] =
      some ([⟨[0], ones.toList⟩], []) := rfl
  obtain ⟨blob, c₁, hfirst, -⟩ :=
    (holds_uniform ones).exists_proveTarget contract hreplay rfl hc
  have htarget : resolveTarget target [ones.toList] = .error (.invalidTargetReference target) := by
    rw [resolveTarget, if_neg (by omega)]
    rfl
  exact ⟨_, Gateway.fails_proveRequests_cons.2 (.inr ⟨contract, rfl, .inr ⟨blob, _, c₁, hfirst,
    Gateway.fails_proveRequests_cons.2 (.inl ⟨htarget, rfl⟩)⟩⟩)⟩

/-- Where nothing is stored, the target is the address zero. -/
theorem exists_returns_referenceRequest {target : Address} (hc : 0 < config.maxCommands)
    (ht : target.toNat ≤ maxTargetReference) :
    ∃ answers c', ((gateway config).serve (referenceRequest target)).Returns {} answers c' := by
  have hreplay : replay config.maxValueLength [[]] [] [.ofByte 0 0] [.zero] =
      some ([⟨[0], Word.zero.toList⟩], []) := rfl
  have hreplay' : replay config.maxValueLength [] [Word.zero.toList] [] [] = some ([], []) := rfl
  obtain ⟨blob, c₁, hfirst, h₁⟩ := holds_empty.exists_proveTarget contract hreplay rfl hc
  obtain ⟨blob', c₂, hsecond, -⟩ := h₁.exists_proveTarget .zero hreplay' rfl (Nat.zero_le _)
  have htarget : resolveTarget target [Word.zero.toList] = .ok .zero := by
    rw [resolveTarget, if_neg (by omega)]
    rfl
  exact ⟨_, _, Gateway.returns_proveRequests_cons.2 ⟨contract, blob, _, c₁, [blob'], rfl, hfirst,
    Gateway.returns_proveRequests_cons.2 ⟨.zero, blob', _, c₂, [], htarget, hsecond,
      Run.returns_pure.2 ⟨rfl, rfl⟩, rfl⟩, rfl⟩⟩

end SimulatedChain

/-! ## Final errors -/

namespace Error

/-- A request that has failed with the error on one chain is answered on none. -/
def IsFinal (config : Config) (e : Error) : Prop :=
  ∀ request c₁ c₁' c₂ answers c₂',
    ((SimulatedChain.gateway config).serve request).Fails c₁ e c₁' →
      ¬ ((SimulatedChain.gateway config).serve request).Returns c₂ answers c₂'

/-- An error that the values decide goes away with other values. -/
theorem DependsOnValues.not_isFinal {e : Error} (h : e.DependsOnValues config) :
    ¬ e.IsFinal config := by
  intro hfinal
  cases e with
  | seedTooLarge length =>
    obtain ⟨hc, h32, hl, hm⟩ := h
    obtain ⟨c₁', h₁⟩ := SimulatedChain.exists_fails_seededRequest hc h32 hl hm
    obtain ⟨answers, c₂', h₂⟩ := SimulatedChain.exists_returns_seededRequest hc
    exact hfinal _ _ _ _ _ _ h₁ h₂
  | invalidTargetReference target =>
    obtain ⟨hc, ht⟩ := h
    obtain ⟨c₁', h₁⟩ := SimulatedChain.exists_fails_referenceRequest hc ht
    obtain ⟨answers, c₂', h₂⟩ := SimulatedChain.exists_returns_referenceRequest hc ht
    exact hfinal _ _ _ _ _ _ h₁ h₂
  | _ => exact h

/-- **An error that is blamed on the request is final exactly if no value decides it.** Not final
are seeds that are too long, for all lengths that a gateway resolves, and references to values that
are no addresses. -/
theorem isFinal_iff {e : Error} (he : e.isMalformedRequest = true) :
    e.IsFinal config ↔ ¬ e.DependsOnValues config := by
  constructor
  · intro hfinal hvalues
    exact hvalues.not_isFinal hfinal
  · intro hvalues request c₁ c₁' c₂ answers c₂' h₁ h₂
    exact hvalues (Gateway.dependsOnValues_of_serve h₁ he h₂)

theorem isFinal_iff_default :
    (tooManyCommands 33 32).IsFinal {} ∧ ¬ (seedTooLarge 33).IsFinal {} := by
  have h₁ : (tooManyCommands 33 32).IsFinal {} := (isFinal_iff rfl).2 id
  have h₂ : ¬ (seedTooLarge 33).IsFinal {} := by
    intro h
    exact (isFinal_iff rfl).1 h ⟨by decide, by decide, by decide, by decide⟩
  exact ⟨h₁, h₂⟩

/-- Not all errors that are blamed on the request are final: a seed of 33 bytes is not. -/
theorem exists_not_isFinal :
    ¬ ∀ (config : Config) (e : Error), e.isMalformedRequest = true → e.IsFinal config := by
  intro h
  have hvalues : (seedTooLarge 33).DependsOnValues {} :=
    ⟨by decide, by decide, by decide, by decide⟩
  exact hvalues.not_isFinal (h {} (seedTooLarge 33) rfl)

end Error

end StorageGateway
