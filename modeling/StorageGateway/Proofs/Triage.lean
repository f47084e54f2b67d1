import StorageGateway.Proofs.Compositional

/-!
# Which kind of error a request ends with

An error tells its receiver what to do: mend the request, ask again at a newer block, or wait until
the collaborators answer. Each error that ends a request is of exactly one of these kinds. The last
kind needs a collaborator that fails, and it is the only one that a value keeps: deriving slots,
telling lengths and checking proofs are done anew for every request.

A computation is described by what it keeps true of the state, what it returns and what it fails
with; such descriptions compose along a sequence.

## Main definitions

* `Error.isUnanswered` — the third kind of error, besides the two that are blamed.
* `Error.Triaged` — an error of exactly one kind.
* `Run.Meets` — what a computation keeps, returns and fails with.
* `Service.FailsOnlyIf` — a service that fails to answer and in no other way.

## Main statements

* `Gateway.failsWithin_serve` — the errors of a request to such a service are triaged.
* `SimulatedChain.triaged_of_serve` — the errors of a request to a simulated chain are.
-/

namespace StorageGateway

variable {σ : Type}

/-! ## Kinds of errors -/

namespace Error

/-- Whether a collaborator gave no answer, just now or when a value was first read. -/
def isUnanswered : Error → Bool
  | io _ | memoized (io _) => true
  | _ => false

/-- An error that tells what to do; `failing` says whether collaborators fail. -/
structure Triaged (failing : Prop) (e : Error) : Prop where
  /-- The error is of exactly one kind. -/
  count_eq_one : [e.isMalformedRequest, e.isChainState, e.isUnanswered].count true = 1
  /-- Collaborators are only blamed if they fail. -/
  failing_of_isUnanswered : e.isUnanswered = true → failing
  /-- Nothing that was read or proven was badly encoded. -/
  ne_rlp : ∀ cause, e ≠ .rlp cause
  /-- Every proof fits its layout. -/
  ne_encoding : ∀ reason, e ≠ .encoding reason
  /-- A value keeps no failure but one of a collaborator. -/
  exists_io_of_eq_memoized : ∀ cause, e = .memoized cause → ∃ failure, cause = .io failure

/-- The failure of a collaborator; `failing` says whether there are any. -/
def IsFailure (failing : Prop) (e : Error) : Prop := failing ∧ ∃ failure, e = .io failure

variable {failing : Prop} {e : Error}

theorem IsFailure.triaged (h : e.IsFailure failing) : e.Triaged failing := by
  obtain ⟨hf, failure, rfl⟩ := h
  exact ⟨rfl, fun _ => hf, by simp, by simp, by simp⟩

/-- A failure stays one when a value keeps it. -/
theorem IsFailure.triaged_memoized (h : e.IsFailure failing) : (memoized e).Triaged failing := by
  obtain ⟨hf, failure, rfl⟩ := h
  exact ⟨rfl, fun _ => hf, by simp, by simp, by simp⟩

/-- An error that is blamed on the request or on the chain, and that no value keeps. -/
theorem triaged_of_blamed (hm : ∀ cause, e ≠ .memoized cause)
    (h : e.isMalformedRequest = true ∨ e.isChainState = true) : e.Triaged failing := by
  constructor <;> cases e <;> simp_all [isMalformedRequest, isChainState, isUnanswered]

theorem triaged_of_isDerivation (h : e.isDerivation = true) : e.Triaged failing := by
  apply triaged_of_blamed <;> cases e <;> simp_all [isDerivation, isMalformedRequest]

end Error

section

variable {failing : Prop} {e : Error}

theorem LengthWord.triaged_of_ofWord {slot : UInt256} {word : Word} {max : Nat}
    (h : LengthWord.ofWord slot word max = .error e) : e.Triaged failing := by
  rcases LengthWord.of_ofWord_eq_error h with ⟨reason, rfl⟩ | ⟨length, rfl⟩ <;>
    exact Error.triaged_of_blamed (by simp) (.inr rfl)

theorem StateProof.triaged_of_check {proof : StateProof} {slots : List UInt256}
    (h : proof.check slots = .error e) : e.Triaged failing := by
  obtain ⟨reason, rfl⟩ := StateProof.exists_inconsistentState_of_check h
  exact Error.triaged_of_blamed (by simp) (.inr rfl)

theorem triaged_of_resolveTarget {target : Address} {values : List Bytes}
    (h : resolveTarget target values = .error e) : e.Triaged failing := by
  have hblamed : (Error.invalidTargetReference target).Triaged failing :=
    Error.triaged_of_blamed (by simp) (.inl rfl)
  rw [resolveTarget] at h
  split at h
  · cases h
  · split at h
    · cases h
      exact hblamed
    · split at h <;> cases h
      exact hblamed

end

/-! ## Computations -/

namespace Run

variable {α β : Type} {inv : σ → Prop} {Q : α → Prop} {E E' : Error → Prop} {m : Run σ α}

/-- Started where `inv` holds, a run ends where it holds; what it returns satisfies `Q`, and an
error that it fails with satisfies `E`. -/
def Meets (inv : σ → Prop) (Q : α → Prop) (E : Error → Prop) (m : Run σ α) : Prop :=
  ∀ s, inv s → inv (m.outcome s).2 ∧
    match (m.outcome s).1 with
    | .ok a => Q a
    | .error e => E e

/-- The same without a word on what is returned. -/
abbrev FailsWithin (inv : σ → Prop) (E : Error → Prop) (m : Run σ α) : Prop :=
  m.Meets inv (fun _ => True) E

theorem meets_pure {a : α} (h : Q a) : (pure a : Run σ α).Meets inv Q E := fun _ hs => ⟨hs, h⟩

theorem failsWithin_throw {e : Error} (h : E e) : (throw e : Run σ α).FailsWithin inv E :=
  fun _ hs => ⟨hs, h⟩

theorem failsWithin_ofResult {r : Result α} (h : ∀ e, r = .error e → E e) :
    (ofResult r).FailsWithin inv E := by
  intro s hs
  refine ⟨hs, ?_⟩
  cases r with
  | ok a => trivial
  | error e => exact h e rfl

/-- A sequence keeps what both of its parts keep; the second part may rely on what the first
returns. -/
theorem Meets.bind {f : α → Run σ β} {Q' : β → Prop} (hm : m.Meets inv Q E)
    (hf : ∀ a, Q a → (f a).Meets inv Q' E) : (m >>= f).Meets inv Q' E := by
  intro s hs
  obtain ⟨hinv, hfirst⟩ := hm s hs
  rw [outcome_bind]
  rcases ho : m.outcome s with ⟨e | a, t⟩ <;> rw [ho] at hinv hfirst
  · exact ⟨hinv, hfirst⟩
  · exact hf a hfirst t hinv

theorem Meets.bind_pure {f : α → β} (hm : m.Meets inv Q E) :
    (m >>= fun a => pure (f a)).FailsWithin inv E :=
  hm.bind fun _ _ => meets_pure trivial

/-- Errors may be described more loosely. -/
theorem Meets.mono (hm : m.Meets inv Q E) (h : ∀ e, E e → E' e) : m.Meets inv Q E' := by
  intro s hs
  obtain ⟨hinv, hresult⟩ := hm s hs
  refine ⟨hinv, ?_⟩
  rcases ho : m.outcome s with ⟨e | a, t⟩ <;> rw [ho] at hresult
  · exact h e hresult
  · exact hresult

/-- Call data that is not well encoded. -/
theorem failsWithin_ofAbi {failing : Prop} (r : Except Abi.Error α) :
    (ofResult (Result.ofAbi r) : Run σ α).FailsWithin inv (Error.Triaged failing) := by
  refine failsWithin_ofResult fun e he => ?_
  obtain ⟨cause, -, rfl⟩ := Except.mapError_eq_error_iff.1 he
  exact Error.triaged_of_blamed (by simp) (.inl rfl)

end Run

/-! ## Requests -/

section

variable {β : Type} {inv : σ → Prop} {failing : Prop}

/-- While `inv` holds, questions to the service keep it and fail only if `failing` holds; and the
service finds a layout for every proof. -/
structure Service.FailsOnlyIf (s : Service σ β) (inv : σ → Prop) (failing : Prop) : Prop
    extends s.Has fun _ m => m.FailsWithin inv (Error.IsFailure failing) where
  encodes : ∀ block proof, ∃ blob, s.encodeProof block proof = .ok blob

theorem failsWithin_readInTurn {read : UInt256 → Run σ Word}
    (hread : ∀ slot, (read slot).FailsWithin inv (Error.IsFailure failing))
    (slots : List UInt256) :
    (readInTurn read slots).FailsWithin inv (Error.IsFailure failing) := by
  induction slots with
  | nil => exact Run.meets_pure trivial
  | cons slot slots ih => exact (hread slot).bind fun word _ => ih.bind_pure

namespace StoredValue

variable {s : Service σ β}

/-- A value that is resolved has no outcome yet. -/
theorem meets_resolve (hs : s.FailsOnlyIf inv failing) (config : Config) (block : β)
    (address : Address) (base : BaseSlot) :
    (resolve s config block address base).Meets inv (fun v => v.outcome = none)
      (Error.Triaged failing) := by
  rw [resolve]
  by_cases hd : base.isDynamic
  · rw [if_pos hd]
    refine ((hs.read block address base.slot).mono fun e he => he.triaged).bind fun word _ => ?_
    refine (Run.failsWithin_ofResult fun e he => LengthWord.triaged_of_ofWord he).bind
      fun length _ => ?_
    cases length <;> exact Run.meets_pure rfl
  · rw [if_neg hd]
    exact Run.meets_pure rfl

theorem failsWithin_fetch (hs : s.FailsOnlyIf inv failing) (block : β) (v : StoredValue) :
    (v.fetch s block).FailsWithin inv (Error.IsFailure failing) := by
  cases ha : v.access with
  | word =>
    simp only [fetch, ha]
    exact (hs.read block v.address v.base).bind_pure
  | inline value =>
    simp only [fetch, ha]
    exact Run.meets_pure trivial
  | span length =>
    rw [Run.ext (outcome_fetch_span ha)]
    exact (failsWithin_readInTurn (hs.read block v.address) v.data).bind_pure

/-- The first asking for the bytes of a value never fails itself: it gives what the value keeps. -/
theorem meets_value (hs : s.FailsOnlyIf inv failing) (block : β) {v : StoredValue}
    (hv : v.outcome = none) :
    Run.Meets inv (fun asked => ∀ e, asked.1 = .error e → e.Triaged failing)
      (Error.Triaged failing) (ExceptT.lift (v.value s block)) := by
  intro t ht
  obtain ⟨hinv, hfetch⟩ := failsWithin_fetch hs block v t ht
  rw [Run.outcome_lift, run_value hv]
  refine ⟨hinv, ?_⟩
  intro e he
  obtain ⟨cause, hcause, rfl⟩ := Except.mapError_eq_error_iff.1 he
  rw [hcause] at hfetch
  exact hfetch.triaged_memoized

end StoredValue

namespace Gateway

variable {g : Gateway σ β} (hs : g.service.FailsOnlyIf inv failing)

include hs

theorem failsWithin_resolveCommand (block : β) (address : Address) (tables : Tables)
    (command : Command) :
    (g.resolveCommand block address tables command).FailsWithin inv (Error.Triaged failing) := by
  have hderive : (Run.ofResult (tables.derive command) : Run σ BaseSlot).FailsWithin inv
      (Error.Triaged failing) := Run.failsWithin_ofResult fun e he =>
    Error.triaged_of_isDerivation (Tables.isDerivation_of_derive he)
  refine hderive.bind fun base _ => ?_
  refine (StoredValue.meets_resolve hs _ block address base).bind fun v hv => ?_
  refine (StoredValue.meets_value hs block hv).bind fun asked hasked => ?_
  exact (Run.failsWithin_ofResult hasked).bind_pure

theorem failsWithin_resolveCommands (block : β) (address : Address)
    (constants values : List Bytes) (commands : List Command) :
    (g.resolveCommands block address constants values commands).FailsWithin inv
      (Error.Triaged failing) := by
  induction commands generalizing values with
  | nil => exact Run.meets_pure trivial
  | cons command commands ih =>
    exact (failsWithin_resolveCommand hs block address _ command).bind
      fun first _ => (ih _).bind_pure

theorem failsWithin_proveTarget (address : Address) (commands : List Command)
    (constants values : List Bytes) :
    (g.proveTarget address commands constants values).FailsWithin inv (Error.Triaged failing) := by
  rw [proveTarget]
  split
  · exact Run.failsWithin_throw (Error.triaged_of_blamed (by simp) (.inl rfl))
  · refine (hs.block.mono fun e he => he.triaged).bind fun block _ => ?_
    refine (failsWithin_resolveCommands hs block address _ _ _).bind fun resolved _ => ?_
    refine ((hs.prove block address resolved.1).mono fun e he => he.triaged).bind
      fun proof _ => ?_
    refine (Run.failsWithin_ofResult fun e he => StateProof.triaged_of_check he).bind
      fun _ _ => ?_
    obtain ⟨blob, hblob⟩ := hs.encodes block proof
    rw [hblob]
    exact Run.meets_pure trivial

theorem failsWithin_prove (address : Address) (commands : List Command) (constants : List Bytes) :
    (g.prove address commands constants).FailsWithin inv (Error.Triaged failing) :=
  (failsWithin_proveTarget hs address commands constants []).bind_pure

theorem failsWithin_proveRequests (values : List Bytes) (requests : List TargetRequest) :
    (g.proveRequests values requests).FailsWithin inv (Error.Triaged failing) := by
  induction requests generalizing values with
  | nil => exact Run.meets_pure trivial
  | cons request requests ih =>
    refine (Run.failsWithin_ofResult fun e he => triaged_of_resolveTarget he).bind
      fun target _ => ?_
    exact (failsWithin_proveTarget hs target _ _ values).bind fun proven _ => (ih _).bind_pure

theorem failsWithin_answer (data : Bytes) :
    (g.answer data).FailsWithin inv (Error.Triaged failing) := by
  by_cases hsingle : data.take 4 = SingleCall.selector
  · rw [answer_of_single g hsingle]
    exact (Run.failsWithin_ofAbi _).bind fun call _ => (failsWithin_prove hs _ _ _).bind_pure
  · by_cases hbatch : data.take 4 = BatchCall.selector
    · rw [answer_of_batch g hbatch]
      exact (Run.failsWithin_ofAbi _).bind
        fun call _ => (failsWithin_proveRequests hs [] _).bind_pure
    · rw [answer_of_other g hsingle hbatch]
      exact Run.failsWithin_throw (Error.triaged_of_blamed (by simp) (.inl rfl))

/-- The errors of a request to a service that fails in no other way than to give no answer. -/
theorem failsWithin_serve (request : Request) :
    (g.serve request).FailsWithin inv (Error.Triaged failing) := by
  cases request with
  | target address commands constants => exact (failsWithin_prove hs _ _ _).bind_pure
  | targets requests => exact failsWithin_proveRequests hs [] requests
  | call data => exact (failsWithin_answer hs data).bind_pure

end Gateway

end

/-! ## A simulated chain -/

namespace SimulatedChain

/-- A simulated chain fails only to answer reads, and only while it is told to. -/
theorem service_failsOnlyIf (failing : Bool) :
    service.FailsOnlyIf (fun c => c.failReads = failing) (failing = true) where
  block := by
    intro c hc
    exact ⟨hc, trivial⟩
  read := by
    intro _ address slot c hc
    refine ⟨hc, ?_⟩
    cases failing with
    | false =>
      rw [returns_read.2 ⟨hc, rfl, rfl⟩]
      trivial
    | true =>
      rw [fails_read hc]
      exact ⟨rfl, _, rfl⟩
  prove := by
    intro _ _ _ c hc
    exact ⟨hc, trivial⟩
  encodes number proof := ⟨encodeProof number proof, rfl⟩

/-- **Each error tells what to do.** A request that fails on a simulated chain is malformed, or the
chain was in the way, or a collaborator gave no answer: exactly one of the three. The last is so
only while reads fail, and only a failure to read is kept by a value. -/
theorem triaged_of_serve {config : Config} {request : Request} {c c' : SimulatedChain} {e : Error}
    (h : ((gateway config).serve request).Fails c e c') : e.Triaged (c.failReads = true) := by
  have hserve := Gateway.failsWithin_serve (g := gateway config)
    (service_failsOnlyIf c.failReads) request c rfl
  rw [h] at hserve
  exact hserve.2

/-- A word that cannot be read is kept as a failure, a word that is no length is an error of the
chain, and call data without a selector is malformed. -/
theorem triaged_of_serve_each :
    (((gateway {}).serve (.target .zero [.ofByte 0 0] [[]])).Fails { failReads := true }
        (.memoized (readFailure 0)) { failReads := true, reads := 1, blocks := 1 } ∧
      (Error.memoized (readFailure 0)).Triaged (true = true)) ∧
    (((gateway {}).serve (.target .zero [.ofByte 1 0] [[]])).Fails (uniform (UInt256.toWord 64))
        (.malformedValue 0 "short value length 32 exceeds 31 bytes")
        { uniform (UInt256.toWord 64) with reads := 1, blocks := 1 } ∧
      (Error.malformedValue 0 "short value length 32 exceeds 31 bytes").Triaged (false = true)) ∧
    (((gateway {}).serve (.call [])).Fails {} (.unknownSelector []) {} ∧
      (Error.unknownSelector []).Triaged (false = true)) := by
  refine ⟨⟨rfl, ?unread⟩, ⟨rfl, ?length⟩, ⟨rfl, ?call⟩⟩
  case unread =>
    exact @triaged_of_serve {} (.target .zero [.ofByte 0 0] [[]]) { failReads := true } _ _ rfl
  case length =>
    exact @triaged_of_serve {} (.target .zero [.ofByte 1 0] [[]]) (uniform (UInt256.toWord 64)) _ _
      rfl
  case call => exact @triaged_of_serve {} (.call []) {} _ _ rfl

end SimulatedChain

end StorageGateway
