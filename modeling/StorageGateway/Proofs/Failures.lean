import StorageGateway.Proofs.Replay

/-!
# Which failures are the request's

Reading, proving and decoding what was read fail because of the chain or of a collaborator, and are
never blamed on the request. What is blamed on the request while a target is proven is that it has
too many commands, or that one of its commands leads to no slot.

## Main statements

* `Gateway.derive_of_fails_resolveCommand` — a command that is to blame leads to no slot.
* `Gateway.of_fails_proveTarget` — a target that is to blame.
-/

namespace StorageGateway

variable {σ β : Type} {e : Error}

theorem Service.fails_read {s : Service σ β} {block : β} {address : Address} {slot : UInt256}
    {t t' : σ} (h : (s.read block address slot).Fails t e t') : ∃ failure, e = .io failure := by
  obtain ⟨failure, he, -⟩ := fails_ask.1 h
  exact ⟨failure, he⟩

/-- Reading fails only where a collaborator does. -/
theorem fails_readInTurn {s : Service σ β} {block : β} {address : Address}
    {slots : List UInt256} {t t' : σ}
    (h : (readInTurn (s.read block address) slots).Fails t e t') : ∃ failure, e = .io failure := by
  induction slots generalizing t with
  | nil => cases h
  | cons slot slots ih =>
    rw [readInTurn] at h
    rcases Run.fails_bind.1 h with hr | ⟨word, t₁, -, h⟩
    · exact Service.fails_read hr
    · exact ih (Run.fails_bind_pure.1 h)

namespace StoredValue

variable {s : Service σ β} {block : β} {v : StoredValue} {t t' : σ}

theorem fails_resolve {config : Config} {address : Address} {base : BaseSlot}
    (h : (resolve s config block address base).Fails t e t') : e.isMalformedRequest = false := by
  rw [resolve] at h
  by_cases hd : base.isDynamic
  · rw [if_pos hd] at h
    rcases Run.fails_bind.1 h with hr | ⟨word, t₁, -, h⟩
    · obtain ⟨failure, rfl⟩ := Service.fails_read hr
      rfl
    · have hl := Run.fails_bind_pure.1 h
      rcases LengthWord.of_ofWord_eq_error (Run.fails_ofResult.1 hl).1 with
        ⟨reason, rfl⟩ | ⟨length, rfl⟩ <;> rfl
  · rw [if_neg hd] at h
    cases h

/-- A value whose base slot holds no length is not resolved. -/
theorem fails_resolve_of_length {config : Config} {address : Address} {base : BaseSlot}
    {word : Word} (hd : base.isDynamic = true)
    (hr : (s.read block address base.slot).Returns t word t')
    (hw : LengthWord.ofWord base.slot word config.maxValueLength = .error e) :
    (resolve s config block address base).Fails t e t' := by
  rw [resolve, if_pos hd]
  exact Run.fails_bind.2 (.inr ⟨word, t', hr,
    Run.fails_bind.2 (.inl (Run.fails_ofResult.2 ⟨hw, rfl⟩))⟩)

theorem fails_fetch (h : (v.fetch s block).Fails t e t') : ∃ failure, e = .io failure := by
  cases ha : v.access with
  | word =>
    simp only [fetch, ha] at h
    exact Service.fails_read (Run.fails_bind_pure.1 h)
  | inline value =>
    simp only [fetch, ha] at h
    cases h
  | span length =>
    rw [Run.Fails, outcome_fetch_span ha, ← Run.Fails] at h
    exact fails_readInTurn (Run.fails_bind_pure.1 h)

end StoredValue

namespace StateProof

theorem exists_inconsistentState_of_firstMismatch {i : Nat} {proofs : List StorageProof}
    {slots : List UInt256} (h : firstMismatch i proofs slots = .error e) :
    ∃ reason, e = .inconsistentState reason := by
  induction proofs generalizing i slots with
  | nil => cases h
  | cons p proofs ih =>
    cases slots with
    | nil => cases h
    | cons slot slots =>
      rw [firstMismatch] at h
      by_cases hk : p.key = slot
      · rw [if_pos hk] at h
        exact ih h
      · rw [if_neg hk] at h
        cases h
        exact ⟨_, rfl⟩

/-- Storage proofs that are not for the slots are an inconsistency of the chain. -/
theorem exists_inconsistentState_of_check {proof : StateProof} {slots : List UInt256}
    (h : proof.check slots = .error e) : ∃ reason, e = .inconsistentState reason := by
  rw [check] at h
  by_cases hl : proof.storageProofs.length = slots.length
  · rw [if_pos hl] at h
    exact exists_inconsistentState_of_firstMismatch h
  · rw [if_neg hl] at h
    cases h
    exact ⟨_, rfl⟩

end StateProof

/-- No proof that does not fit its layout is blamed on the request. -/
def Service.AcquitsRequests (s : Service σ β) : Prop :=
  ∀ block proof e, s.encodeProof block proof = .error e → e.isMalformedRequest = false

namespace Gateway

variable {g : Gateway σ β} {block : β} {address : Address} {s s' : σ}

/-- If the request is to blame for a command that fails, the command leads to no slot. -/
theorem derive_of_fails_resolveCommand {tables : Tables} {command : Command}
    (h : (g.resolveCommand block address tables command).Fails s e s')
    (he : e.isMalformedRequest = true) : tables.derive command = .error e := by
  rw [resolveCommand] at h
  rcases Run.fails_bind.1 h with hd | ⟨base, s₁, -, h⟩
  · exact (Run.fails_ofResult.1 hd).1
  · exfalso
    rcases Run.fails_bind.1 h with hr | ⟨v, s₂, hv, h⟩
    · rw [StoredValue.fails_resolve hr] at he
      cases he
    · rcases Run.fails_bind.1 h with hl | ⟨⟨outcome, v'⟩, s₃, hl, h⟩
      · cases hl
      · rw [Run.Returns, Run.outcome_lift,
          StoredValue.run_value (StoredValue.outcome_eq_none hv)] at hl
        cases hl
        have ho := Run.fails_bind_pure.1 h
        obtain ⟨cause, hc, rfl⟩ := Except.mapError_eq_error_iff.1 (Run.fails_ofResult.1 ho).1
        have hf : (v.fetch g.service block).Fails s₂ cause
            ((v.fetch g.service block).outcome s₂).2 := by
          rw [Run.Fails, ← hc]
        obtain ⟨failure, rfl⟩ := StoredValue.fails_fetch hf
        cases he

/-- If the request is to blame for a target that fails, it has too many commands, or one of them
leads to no slot. -/
theorem of_fails_proveTarget {commands : List Command} {constants values : List Bytes}
    (hpack : g.service.AcquitsRequests)
    (h : (g.proveTarget address commands constants values).Fails s e s')
    (he : e.isMalformedRequest = true) :
    g.config.maxCommands < commands.length ∨
      ∃ block s₁, (g.resolveCommands block address constants values commands).Fails s₁ e s' := by
  rw [proveTarget] at h
  by_cases hc : g.config.maxCommands < commands.length
  · exact .inl hc
  · right
    simp only [hc, if_false] at h
    rcases Run.fails_bind.1 h with hb | ⟨block, s₁, -, h⟩
    · obtain ⟨failure, rfl, -⟩ := Service.fails_ask.1 hb
      cases he
    · rcases Run.fails_bind.1 h with hr | ⟨⟨slots, values'⟩, s₂, -, h⟩
      · exact ⟨block, s₁, hr⟩
      · exfalso
        rcases Run.fails_bind.1 h with hp | ⟨proof, s₃, -, h⟩
        · obtain ⟨failure, rfl, -⟩ := Service.fails_ask.1 hp
          cases he
        · rcases Run.fails_bind.1 h with hk | ⟨_, s₄, -, h⟩
          · obtain ⟨reason, rfl⟩ :=
              StateProof.exists_inconsistentState_of_check (Run.fails_ofResult.1 hk).1
            cases he
          · rcases Run.fails_bind.1 h with hn | ⟨blob, s₅, -, h⟩
            · rw [hpack _ _ _ (Run.fails_ofResult.1 hn).1] at he
              cases he
            · cases h

/-! ### Failing on purpose -/

/-- The bytes of a stored value that was not asked for them yet fail as reading them does; the error
is kept for every later asking. -/
theorem fails_slots_and_value {v : StoredValue} (hv : v.outcome = none) :
    (ExceptT.lift (v.value g.service block) >>= fun x => Run.ofResult x.1 >>= fun value =>
      pure (x.2.slots, value) : Run σ (List UInt256 × Bytes)).Fails s e s' ↔
        ∃ cause, (v.fetch g.service block).Fails s cause s' ∧ e = .memoized cause := by
  rw [Run.Fails, Run.outcome_bind, Run.outcome_lift, StoredValue.run_value hv]
  dsimp only
  rw [Run.outcome_bind, Run.outcome_ofResult]
  simp only [Run.Fails]
  rcases (v.fetch g.service block).outcome s with ⟨cause | b, t⟩
  · simp only [Except.mapError_error, Prod.mk.injEq, Except.error.injEq]
    constructor
    · intro h
      exact ⟨cause, ⟨rfl, h.2⟩, h.1.symm⟩
    · intro h
      obtain ⟨_, ⟨rfl, ht⟩, he⟩ := h
      exact ⟨he.symm, ht⟩
  · simp

/-- A command whose value is not resolved fails with it. -/
theorem fails_resolveCommand_of_resolve {tables : Tables} {command : Command} {base : BaseSlot}
    (hb : tables.derive command = .ok base)
    (h : (StoredValue.resolve g.service g.config block address base).Fails s e s') :
    (g.resolveCommand block address tables command).Fails s e s' :=
  Run.fails_bind.2 (.inr ⟨base, s, Run.returns_ofResult.2 ⟨hb, rfl⟩, Run.fails_bind.2 (.inl h)⟩)

/-- A command that leads to no slot fails before anything is read for it. -/
theorem fails_resolveCommands {constants values : List Bytes} {command : Command}
    {commands : List Command} (h : Tables.derive ⟨constants, values⟩ command = .error e) :
    (g.resolveCommands block address constants values (command :: commands)).Fails s e s := by
  have hfirst : (g.resolveCommand block address ⟨constants, values⟩ command).Fails s e s :=
    Run.fails_bind.2 (.inl (Run.fails_ofResult.2 ⟨h, rfl⟩))
  exact Run.fails_bind.2 (.inl hfirst)

/-- A target with too many commands fails before anything is asked. -/
theorem fails_proveTarget_of_tooMany {commands : List Command} {constants values : List Bytes}
    (hc : g.config.maxCommands < commands.length) :
    (g.proveTarget address commands constants values).Fails s
      (.tooManyCommands commands.length g.config.maxCommands) s := by
  rw [proveTarget, if_pos hc]
  rfl

theorem fails_proveTarget {commands : List Command} {constants values : List Bytes} {s₁ : σ}
    (hc : commands.length ≤ g.config.maxCommands) (hb : g.service.block.Returns s block s₁)
    (h : (g.resolveCommands block address constants values commands).Fails s₁ e s') :
    (g.proveTarget address commands constants values).Fails s e s' := by
  have hn : ¬ g.config.maxCommands < commands.length := by omega
  rw [proveTarget]
  simp only [hn, if_false]
  exact Run.fails_bind.2 (.inr ⟨block, s₁, hb, Run.fails_bind.2 (.inl h)⟩)

/-- Without a block to prove against, a target fails with the error of asking for it. -/
theorem fails_proveTarget_of_block {commands : List Command} {constants values : List Bytes}
    (hc : commands.length ≤ g.config.maxCommands) (hb : g.service.block.Fails s e s') :
    (g.proveTarget address commands constants values).Fails s e s' := by
  have hn : ¬ g.config.maxCommands < commands.length := by omega
  rw [proveTarget]
  simp only [hn, if_false]
  exact Run.fails_bind.2 (.inl hb)

/-- A target fails if its proof is not for the slots that were read. -/
theorem fails_proveTarget_of_check {commands : List Command}
    {constants values values' : List Bytes} {slots : List UInt256} {proof : StateProof} {s₁ s₂ : σ}
    (hc : commands.length ≤ g.config.maxCommands) (hb : g.service.block.Returns s block s₁)
    (hr : (g.resolveCommands block address constants values commands).Returns s₁
      (slots, values') s₂)
    (hp : (g.service.prove block address slots).Returns s₂ proof s')
    (hk : proof.check slots = .error e) :
    (g.proveTarget address commands constants values).Fails s e s' := by
  have hn : ¬ g.config.maxCommands < commands.length := by omega
  rw [proveTarget]
  simp only [hn, if_false]
  refine Run.fails_bind.2 (.inr ⟨block, s₁, hb, ?_⟩)
  refine Run.fails_bind.2 (.inr ⟨_, s₂, hr, ?_⟩)
  refine Run.fails_bind.2 (.inr ⟨proof, s', hp, ?_⟩)
  exact Run.fails_bind.2 (.inl (Run.fails_ofResult.2 ⟨hk, rfl⟩))

/-! ### Several targets -/

/-- The first target is resolved and proven, and then the others are. -/
theorem returns_proveRequests_cons {values : List Bytes} {request : TargetRequest}
    {requests : List TargetRequest} {blobs : List Bytes} :
    (g.proveRequests values (request :: requests)).Returns s blobs s' ↔
      ∃ target blob values' s₁ more, resolveTarget request.target values = .ok target ∧
        (g.proveTarget target request.commands request.constants values).Returns s
          (blob, values') s₁ ∧
        (g.proveRequests values' requests).Returns s₁ more s' ∧ blobs = blob :: more := by
  simp only [proveRequests, Run.returns_bind, Run.returns_ofResult, Run.returns_pure, Prod.exists]
  constructor
  · intro h
    obtain ⟨target, _, ⟨ht, rfl⟩, blob, values', s₁, hp, more, _, hr, rfl, rfl⟩ := h
    exact ⟨target, blob, values', s₁, more, ht, hp, hr, rfl⟩
  · intro h
    obtain ⟨target, blob, values', s₁, more, ht, hp, hr, rfl⟩ := h
    exact ⟨target, s, ⟨ht, rfl⟩, blob, values', s₁, hp, more, s', hr, rfl, rfl⟩

/-- The first target stands for no address, it fails, or the others do. -/
theorem fails_proveRequests_cons {values : List Bytes} {request : TargetRequest}
    {requests : List TargetRequest} :
    (g.proveRequests values (request :: requests)).Fails s e s' ↔
      (resolveTarget request.target values = .error e ∧ s = s') ∨
      ∃ target, resolveTarget request.target values = .ok target ∧
        ((g.proveTarget target request.commands request.constants values).Fails s e s' ∨
          ∃ blob values' s₁,
            (g.proveTarget target request.commands request.constants values).Returns s
              (blob, values') s₁ ∧
            (g.proveRequests values' requests).Fails s₁ e s') := by
  rw [proveRequests, Run.fails_bind, Run.fails_ofResult]
  simp only [Run.returns_ofResult]
  constructor
  · intro h
    rcases h with h | ⟨target, _, ⟨ht, rfl⟩, h⟩
    · exact .inl h
    · rcases Run.fails_bind.1 h with h | ⟨⟨blob, values'⟩, s₁, hp, h⟩
      · exact .inr ⟨target, ht, .inl h⟩
      · exact .inr ⟨target, ht, .inr ⟨blob, values', s₁, hp, Run.fails_bind_pure.1 h⟩⟩
  · intro h
    rcases h with h | ⟨target, ht, h | ⟨blob, values', s₁, hp, h⟩⟩
    · exact .inl h
    · exact .inr ⟨target, s, ⟨ht, rfl⟩, Run.fails_bind.2 (.inl h)⟩
    · exact .inr ⟨target, s, ⟨ht, rfl⟩, Run.fails_bind.2
        (.inr ⟨(blob, values'), s₁, hp, Run.fails_bind_pure.2 h⟩)⟩

end Gateway

end StorageGateway
