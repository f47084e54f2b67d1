import StorageGateway.Proofs.Calls
import StorageGateway.Proofs.Finality

/-!
# Properties that every request inherits from the service

A gateway asks its service three kinds of questions, and all else it does is computing results. A
property of computations that results have, and that passes on to sequences and to the first reading
of a value, whose failure is kept, therefore holds of whole requests once the questions have it.

Two such properties compare states. A computation keeps a relation if it ends in a state that is
related to the one it started from, and it respects a relation if from related states it gives the
same result and ends in related states again.

## Main definitions

* `Run.Compositional` — what a property has to pass on to.
* `Run.Keeps`, `Run.Respects` — the two properties that compare states.
* `Service.Has` — the questions to a service have a property.

## Main statements

* `Run.compositional_keeps`, `Run.compositional_respects` — both pass on.
* `Gateway.compositional_serve` — a request has what the questions to the service have.
-/

namespace StorageGateway

variable {σ : Type}

/-! ## Properties of computations -/

namespace Run

variable {α β : Type}

/-- A computation is its outcomes. -/
theorem ext {m m' : Run σ α} (h : ∀ s, m.outcome s = m'.outcome s) : m = m' := funext h

/-- A property of computations that results have, and that passes on to a sequence and to an
attempt. -/
structure Compositional (P : (α : Type) → Run σ α → Prop) : Prop where
  ofResult : ∀ {α : Type} (r : Result α), P α (ofResult r)
  bind : ∀ {α β : Type} {m : Run σ α} {f : α → Run σ β}, P α m → (∀ a, P β (f a)) →
    P β (m >>= f)
  attempt : ∀ {α : Type} {m : Run σ α}, P α m → P (Result α) (attempt m)

namespace Compositional

variable {P : (α : Type) → Run σ α → Prop}

theorem pure (hP : Compositional P) (a : α) : P α (pure a) := hP.ofResult (.ok a)

theorem throw (hP : Compositional P) (e : Error) : P α (throw e) := hP.ofResult (.error e)

/-- A result that is changed afterwards. -/
theorem bind_pure (hP : Compositional P) {m : Run σ α} (h : P α m) (f : α → β) :
    P β (m >>= fun a => Pure.pure (f a)) :=
  hP.bind h fun a => hP.pure (f a)

end Compositional

/-! ### Relations between states -/

/-- Every run ends in a state that is related to the one it started from. -/
def Keeps (R : σ → σ → Prop) (m : Run σ α) : Prop := ∀ s, R s (m.outcome s).2

/-- From related states the result is the same, and the states are related again afterwards. -/
def Respects (R : σ → σ → Prop) (m : Run σ α) : Prop :=
  ∀ s₁ s₂, R s₁ s₂ →
    (m.outcome s₁).1 = (m.outcome s₂).1 ∧ R (m.outcome s₁).2 (m.outcome s₂).2

/-- What relates each state to itself, and is passed on from one step to the next, is kept by a
sequence. -/
theorem compositional_keeps {R : σ → σ → Prop} (hrefl : ∀ s, R s s)
    (htrans : ∀ s₁ s₂ s₃, R s₁ s₂ → R s₂ s₃ → R s₁ s₃) :
    Compositional fun α (m : Run σ α) => m.Keeps R where
  ofResult := by
    intro α r s
    exact hrefl s
  bind := by
    intro α β m f hm hf s
    have hfirst := hm s
    rw [outcome_bind]
    rcases ho : m.outcome s with ⟨_ | a, t⟩ <;> rw [ho] at hfirst
    · exact hfirst
    · exact htrans _ _ _ hfirst (hf a t)
  attempt := by
    intro α m hm s
    exact hm s

theorem compositional_respects (R : σ → σ → Prop) :
    Compositional fun α (m : Run σ α) => m.Respects R where
  ofResult := by
    intro α r s₁ s₂ h
    exact ⟨rfl, h⟩
  bind := by
    intro α β m f hm hf s₁ s₂ h
    obtain ⟨hresult, hstate⟩ := hm s₁ s₂ h
    rw [outcome_bind, outcome_bind]
    generalize m.outcome s₁ = o₁ at hresult hstate ⊢
    generalize m.outcome s₂ = o₂ at hresult hstate ⊢
    obtain ⟨r₁, t₁⟩ := o₁
    obtain ⟨r₂, t₂⟩ := o₂
    cases hresult
    cases r₁ with
    | error e => exact ⟨rfl, hstate⟩
    | ok a => exact hf a t₁ t₂ hstate
  attempt := by
    intro α m hm s₁ s₂ h
    obtain ⟨hresult, hstate⟩ := hm s₁ s₂ h
    rw [outcome_attempt, outcome_attempt, hresult]
    exact ⟨rfl, hstate⟩

end Run

/-! ## What a gateway computes -/

section

variable {β : Type} {P : (α : Type) → Run σ α → Prop}

/-- The three questions to a service have a property. -/
structure Service.Has (s : Service σ β) (P : (α : Type) → Run σ α → Prop) : Prop where
  block : P β s.block
  read : ∀ block address slot, P Word (s.read block address slot)
  prove : ∀ block address slots, P StateProof (s.prove block address slots)

theorem compositional_readInTurn (hP : Run.Compositional P) {read : UInt256 → Run σ Word}
    (hread : ∀ slot, P Word (read slot)) (slots : List UInt256) :
    P (List Word) (readInTurn read slots) := by
  induction slots with
  | nil => exact hP.pure []
  | cons slot slots ih => exact hP.bind (hread slot) fun word => hP.bind_pure ih (word :: ·)

namespace StoredValue

variable {s : Service σ β}

theorem compositional_resolve (hP : Run.Compositional P) (hs : s.Has P) (config : Config)
    (block : β) (address : Address) (base : BaseSlot) :
    P StoredValue (resolve s config block address base) := by
  rw [resolve]
  by_cases hd : base.isDynamic
  · rw [if_pos hd]
    refine hP.bind (hs.read block address base.slot) fun word => ?_
    exact hP.bind_pure (hP.ofResult _) (ofLength config address base.slot)
  · rw [if_neg hd]
    exact hP.pure _

theorem compositional_fetch (hP : Run.Compositional P) (hs : s.Has P) (block : β)
    (v : StoredValue) : P Bytes (v.fetch s block) := by
  cases ha : v.access with
  | word =>
    simp only [fetch, ha]
    exact hP.bind_pure (hs.read block v.address v.base) _
  | inline value =>
    simp only [fetch, ha]
    exact hP.pure value
  | span length =>
    -- Several reads at a time have the outcome of reading in turn, where the property passes on.
    rw [Run.ext (outcome_fetch_span ha)]
    exact hP.bind_pure (compositional_readInTurn hP (hs.read block v.address) v.data) _

/-- The first asking for the bytes of a value is an attempt to read them. -/
theorem lift_value {block : β} {v : StoredValue} (hv : v.outcome = none) :
    ExceptT.lift (v.value s block) = (do
      let outcome ← Run.attempt (v.fetch s block)
      pure (outcome.mapError .memoized, { v with outcome := some outcome })) := by
  apply Run.ext
  intro t
  rw [Run.outcome_lift, run_value hv, Run.outcome_bind, Run.outcome_attempt]
  rfl

theorem compositional_value (hP : Run.Compositional P) (hs : s.Has P) (block : β)
    (v : StoredValue) : P (Result Bytes × StoredValue) (ExceptT.lift (v.value s block)) := by
  cases hv : v.outcome with
  | none =>
    rw [lift_value hv]
    exact hP.bind_pure (hP.attempt (compositional_fetch hP hs block v)) _
  | some outcome =>
    rw [value, hv]
    exact hP.pure _

end StoredValue

namespace Gateway

variable {g : Gateway σ β}

theorem compositional_resolveCommand (hP : Run.Compositional P) (hs : g.service.Has P)
    (block : β) (address : Address) (tables : Tables) (command : Command) :
    P (List UInt256 × Bytes) (g.resolveCommand block address tables command) := by
  refine hP.bind (hP.ofResult _) fun base => ?_
  refine hP.bind (StoredValue.compositional_resolve hP hs _ block address base) fun v => ?_
  refine hP.bind (StoredValue.compositional_value hP hs block v) fun asked => ?_
  exact hP.bind_pure (hP.ofResult _) _

theorem compositional_resolveCommands (hP : Run.Compositional P) (hs : g.service.Has P)
    (block : β) (address : Address) (constants values : List Bytes) (commands : List Command) :
    P (List UInt256 × List Bytes)
      (g.resolveCommands block address constants values commands) := by
  induction commands generalizing values with
  | nil => exact hP.pure _
  | cons command commands ih =>
    refine hP.bind (compositional_resolveCommand hP hs block address _ command) fun first => ?_
    exact hP.bind_pure (ih _) _

theorem compositional_proveTarget (hP : Run.Compositional P) (hs : g.service.Has P)
    (address : Address) (commands : List Command) (constants values : List Bytes) :
    P (Bytes × List Bytes) (g.proveTarget address commands constants values) := by
  rw [proveTarget]
  split
  · exact hP.throw _
  · refine hP.bind hs.block fun block => ?_
    refine hP.bind (compositional_resolveCommands hP hs block address _ _ _) fun resolved => ?_
    refine hP.bind (hs.prove block address resolved.1) fun proof => ?_
    refine hP.bind (hP.ofResult _) fun _ => ?_
    exact hP.bind_pure (hP.ofResult _) _

theorem compositional_prove (hP : Run.Compositional P) (hs : g.service.Has P)
    (address : Address) (commands : List Command) (constants : List Bytes) :
    P Bytes (g.prove address commands constants) :=
  hP.bind_pure (compositional_proveTarget hP hs address commands constants []) _

theorem compositional_proveRequests (hP : Run.Compositional P) (hs : g.service.Has P)
    (values : List Bytes) (requests : List TargetRequest) :
    P (List Bytes) (g.proveRequests values requests) := by
  induction requests generalizing values with
  | nil => exact hP.pure []
  | cons request requests ih =>
    refine hP.bind (hP.ofResult _) fun target => ?_
    refine hP.bind (compositional_proveTarget hP hs target _ _ values) fun proven => ?_
    exact hP.bind_pure (ih _) _

theorem compositional_answer (hP : Run.Compositional P) (hs : g.service.Has P) (data : Bytes) :
    P Bytes (g.answer data) := by
  by_cases hsingle : data.take 4 = SingleCall.selector
  · rw [answer_of_single g hsingle]
    refine hP.bind (hP.ofResult _) fun call => ?_
    exact hP.bind_pure (compositional_prove hP hs _ _ _) _
  · by_cases hbatch : data.take 4 = BatchCall.selector
    · rw [answer_of_batch g hbatch]
      refine hP.bind (hP.ofResult _) fun call => ?_
      exact hP.bind_pure (compositional_proveRequests hP hs [] _) _
    · rw [answer_of_other g hsingle hbatch]
      exact hP.throw _

/-- **A request has what the questions to the service have**, if the property passes on to sequences
and attempts. -/
theorem compositional_serve (hP : Run.Compositional P) (hs : g.service.Has P)
    (request : Request) : P (List Bytes) (g.serve request) := by
  cases request with
  | target address commands constants =>
    exact hP.bind_pure (compositional_prove hP hs address commands constants) _
  | targets requests => exact compositional_proveRequests hP hs [] requests
  | call data => exact hP.bind_pure (compositional_answer hP hs data) _

end Gateway

end

end StorageGateway
