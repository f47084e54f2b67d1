import StorageGateway.Proofs.Finality

/-!
# Batches of independent requests

A request is independent of the ones before it in a batch if its target is an address of its own,
and no command of it selects an earlier value before it halts. The values that a batch passes on
are then of no use to it: a batch of independent requests is answered like the single calls made one
after the other, and stops at the first one that fails.

## Main definitions

* `Command.Independent`, `TargetRequest.Independent` — no use is made of earlier values.
* `Gateway.SingleCalls` — single calls made one after the other, all of them answered.

## Main statements

* `Command.Independent.derive_eq` — the values do not matter to a command that selects none.
* `Gateway.proveTarget_eq_prepend` — nor to a target whose commands select none.
* `Gateway.proveAll_eq_singleCalls` — a batch and its single calls.
-/

namespace StorageGateway

/-! ## Commands that select no value -/

namespace Command

/-- No instruction before the first halt selects an earlier value. -/
def Independent (c : Command) : Prop :=
  ∀ byte ∈ c.executed, Instruction.opcode? byte ≠ some .backref

instance (c : Command) : Decidable c.Independent :=
  List.decidableBAll (fun byte => Instruction.opcode? byte ≠ some .backref) c.executed

end Command

namespace Tables

variable {constants : List Bytes} {byte : UInt8} {position : Nat}

/-- An instruction that selects no value does the same whatever the values are. -/
theorem execute_eq_of_ne_backref (values values' : List Bytes)
    (h : Instruction.opcode? byte ≠ some .backref) :
    execute ⟨constants, values⟩ byte position = execute ⟨constants, values'⟩ byte position := by
  rw [execute, execute]
  rw [Instruction.opcode?] at h
  cases hi : Instruction.decode? byte with
  | none => rfl
  | some i =>
    obtain ⟨op, index⟩ := i
    cases op with
    | constant => rfl
    | halt => rfl
    | backref =>
      rw [hi] at h
      exact absurd rfl h

end Tables

/-- A command that selects no value leads to the same slot, or fails in the same way, whatever the
values are. -/
theorem Command.Independent.derive_eq {c : Command} (h : c.Independent)
    {constants : List Bytes} (values values' : List Bytes) :
    Tables.derive ⟨constants, values⟩ c = Tables.derive ⟨constants, values'⟩ c := by
  refine Tables.derive_congr rfl rfl ?_
  intro byte hb position
  exact Tables.execute_eq_of_ne_backref values values' (h byte hb)

/-! ## Targets that use no earlier value -/

namespace Gateway

variable {σ β : Type} {g : Gateway σ β} {block : β} {address : Address} {constants : List Bytes}
  {commands : List Command}

/-- Earlier values are only passed on by commands that select none: they come before the values of
the commands. -/
theorem resolveCommands_eq_prepend (earlier values : List Bytes)
    (h : ∀ command ∈ commands, command.Independent) :
    g.resolveCommands block address constants (earlier ++ values) commands =
      (do
        let (slots, values) ← g.resolveCommands block address constants values commands
        pure (slots, earlier ++ values)) := by
  induction commands generalizing values with
  | nil => simp [resolveCommands]
  | cons command commands ih =>
    have hfirst : g.resolveCommand block address ⟨constants, earlier ++ values⟩ command =
        g.resolveCommand block address ⟨constants, values⟩ command := by
      rw [resolveCommand, resolveCommand,
        (h command List.mem_cons_self).derive_eq (earlier ++ values) values]
    have hrest := fun value => ih (values ++ [value])
      fun c hc => h c (List.mem_cons_of_mem _ hc)
    simp only [resolveCommands, hfirst, bind_assoc, pure_bind, List.append_assoc, hrest]

theorem proveTarget_eq_prepend (earlier : List Bytes)
    (h : ∀ command ∈ commands, command.Independent) :
    g.proveTarget address commands constants earlier =
      (do
        let (blob, values) ← g.proveTarget address commands constants []
        pure (blob, earlier ++ values)) := by
  have hresolve : ∀ block, g.resolveCommands block address constants earlier commands =
      (do
        let (slots, values) ← g.resolveCommands block address constants [] commands
        pure (slots, earlier ++ values)) := by
    intro block
    rw [← resolveCommands_eq_prepend earlier [] h, List.append_nil]
  by_cases hc : g.config.maxCommands < commands.length
  · simp only [proveTarget, hc, if_true]
    rfl
  · simp only [proveTarget, hc, if_false, hresolve, bind_assoc, pure_bind]

/-- With commands that select no value, a target is proven after earlier values as it is without
them. -/
theorem returns_proveTarget_iff_prove {earlier : List Bytes} {blob : Bytes} {s s' : σ}
    (h : ∀ command ∈ commands, command.Independent) :
    (∃ values, (g.proveTarget address commands constants earlier).Returns s (blob, values) s') ↔
      (g.prove address commands constants).Returns s blob s' := by
  rw [returns_prove, proveTarget_eq_prepend earlier h]
  simp only [Run.returns_bind, Run.returns_pure, Prod.exists, Prod.mk.injEq]
  constructor
  · intro h
    obtain ⟨_, _, values, _, hp, ⟨rfl, rfl⟩, rfl⟩ := h
    exact ⟨values, hp⟩
  · intro h
    obtain ⟨values, hp⟩ := h
    exact ⟨earlier ++ values, blob, values, s', hp, ⟨rfl, rfl⟩, rfl⟩

theorem fails_proveTarget_iff_prove {earlier : List Bytes} {e : Error} {s s' : σ}
    (h : ∀ command ∈ commands, command.Independent) :
    (g.proveTarget address commands constants earlier).Fails s e s' ↔
      (g.prove address commands constants).Fails s e s' := by
  rw [proveTarget_eq_prepend earlier h, prove, Run.fails_bind_pure, Run.fails_bind_pure]

end Gateway

/-! ## Batches -/

/-- The target is an address of its own, and no command selects an earlier value. -/
structure TargetRequest.Independent (request : TargetRequest) : Prop where
  maxTargetReference_lt : maxTargetReference < request.target.toNat
  commands : ∀ command ∈ request.commands, command.Independent

theorem TargetRequest.Independent.resolveTarget_eq {request : TargetRequest}
    (h : request.Independent) (values : List Bytes) :
    resolveTarget request.target values = .ok request.target := by
  rw [resolveTarget, if_pos h.maxTargetReference_lt]

namespace Gateway

variable {σ β : Type} (g : Gateway σ β)

/-- The single call for a request of a batch. -/
def single (request : TargetRequest) : Run σ Bytes :=
  g.prove request.target request.commands request.constants

/-- The single calls for some requests, each from the state that the one before it left, are all
answered. -/
inductive SingleCalls : σ → List TargetRequest → List Bytes → σ → Prop
  | nil (s : σ) : SingleCalls s [] [] s
  | cons {s t s' : σ} {request : TargetRequest} {requests : List TargetRequest} {blob : Bytes}
    {blobs : List Bytes} (first : (g.single request).Returns s blob t)
    (rest : SingleCalls t requests blobs s') :
    SingleCalls s (request :: requests) (blob :: blobs) s'

variable {g} {s s' : σ} {e : Error} {values : List Bytes} {request : TargetRequest}
  {requests : List TargetRequest} {blobs : List Bytes}

theorem returns_proveRequests_cons_independent (h : request.Independent) :
    (g.proveRequests values (request :: requests)).Returns s blobs s' ↔
      ∃ blob values' t more, (g.proveTarget request.target request.commands request.constants
          values).Returns s (blob, values') t ∧
        (g.proveRequests values' requests).Returns t more s' ∧ blobs = blob :: more := by
  rw [returns_proveRequests_cons, h.resolveTarget_eq]
  simp

/-- A batch of independent requests is answered where the single calls are, with their proofs. -/
theorem returns_proveRequests_iff (h : ∀ request ∈ requests, request.Independent) :
    (g.proveRequests values requests).Returns s blobs s' ↔ g.SingleCalls s requests blobs s' := by
  induction requests generalizing values s blobs with
  | nil =>
    rw [proveRequests, Run.returns_pure]
    constructor
    · intro h
      obtain ⟨rfl, rfl⟩ := h
      exact .nil s
    · intro h
      cases h
      exact ⟨rfl, rfl⟩
  | cons request requests ih =>
    have hi := h request List.mem_cons_self
    have hrest : ∀ r ∈ requests, r.Independent := fun r hr => h r (List.mem_cons_of_mem _ hr)
    rw [returns_proveRequests_cons_independent hi]
    constructor
    · intro h
      obtain ⟨blob, values', t, more, hp, hr, rfl⟩ := h
      exact .cons ((returns_proveTarget_iff_prove hi.commands).1 ⟨values', hp⟩) ((ih hrest).1 hr)
    · intro h
      cases h with
      | cons first rest =>
        obtain ⟨values', hp⟩ := (returns_proveTarget_iff_prove hi.commands).2 first
        exact ⟨_, values', _, _, hp, (ih hrest).2 rest, rfl⟩

/-- A batch of independent requests fails with the first single call that fails, in the state that
this call leaves. -/
theorem fails_proveRequests_iff (h : ∀ request ∈ requests, request.Independent) :
    (g.proveRequests values requests).Fails s e s' ↔
      ∃ done request rest blobs t, requests = done ++ request :: rest ∧
        g.SingleCalls s done blobs t ∧ (g.single request).Fails t e s' := by
  induction requests generalizing values s with
  | nil =>
    constructor
    · intro h
      cases h
    · intro h
      obtain ⟨done, request, rest, -, -, hsplit, -⟩ := h
      cases done <;> cases hsplit
  | cons request requests ih =>
    have hi := h request List.mem_cons_self
    have hrest : ∀ r ∈ requests, r.Independent := fun r hr => h r (List.mem_cons_of_mem _ hr)
    rw [fails_proveRequests_cons, hi.resolveTarget_eq]
    simp only [reduceCtorEq, false_and, false_or, Except.ok.injEq, exists_eq_left']
    rw [fails_proveTarget_iff_prove hi.commands]
    constructor
    · intro h
      rcases h with h | ⟨blob, values', t, hp, h⟩
      · exact ⟨[], request, requests, [], s, rfl, .nil s, h⟩
      · obtain ⟨done, failed, rest, blobs, t', rfl, hdone, hf⟩ := (ih hrest).1 h
        have hfirst := (returns_proveTarget_iff_prove hi.commands).1 ⟨values', hp⟩
        exact ⟨request :: done, failed, rest, blob :: blobs, t', rfl, .cons hfirst hdone, hf⟩
    · intro h
      obtain ⟨done, failed, rest, blobs, t, hsplit, hdone, hf⟩ := h
      cases hdone with
      | nil =>
        cases hsplit
        exact .inl hf
      | cons first more =>
        cases hsplit
        obtain ⟨values', hp⟩ := (returns_proveTarget_iff_prove hi.commands).2 first
        exact .inr ⟨_, values', _, hp, (ih hrest).2 ⟨_, failed, rest, _, t, rfl, more, hf⟩⟩

/-- **A batch of independent requests is its single calls.** On any service and under any limits, a
batch whose requests are all independent is answered exactly when the single calls are that are made
for them in order, with the proofs of these calls; and it fails exactly with the error of the first
single call that fails. Either way the state afterwards, with all that a chain counts and records,
is the one that the single calls leave, up to and including the first failure. -/
theorem proveAll_eq_singleCalls (h : ∀ request ∈ requests, request.Independent) :
    (∀ s blobs s', (g.proveAll requests).Returns s blobs s' ↔
      g.SingleCalls s requests blobs s') ∧
    (∀ s e s', (g.proveAll requests).Fails s e s' ↔
      ∃ done request rest blobs t, requests = done ++ request :: rest ∧
        g.SingleCalls s done blobs t ∧ (g.single request).Fails t e s') := by
  constructor
  · intro s blobs s'
    exact returns_proveRequests_iff h
  · intro s e s'
    exact fails_proveRequests_iff h

end Gateway

namespace SimulatedChain

/-- A request for the word at slot zero, and one whose command halts at once. -/
def readThenHalt : List TargetRequest :=
  [⟨contract, [.ofByte 0 0], [[]], 0⟩, ⟨contract, [.ofByte 0 Instruction.haltByte], [], 0⟩]

theorem independent_readThenHalt : ∀ request ∈ readThenHalt, request.Independent := by
  intro request hr
  simp only [readThenHalt, List.mem_cons, List.not_mem_nil, or_false] at hr
  rcases hr with rfl | rfl
  · exact ⟨by decide, by decide⟩
  · exact ⟨by decide, by decide⟩

/-- The chain that the first request of `readThenHalt` leaves. -/
def afterRead : SimulatedChain :=
  { reads := 1, fetches := 1, blocks := 1, lastSlots := [0], lastTarget := some contract }

theorem proveAll_eq_singleCalls_readThenHalt :
    ((gateway {}).proveAll readThenHalt).Fails {}
      (.malformedCommand "command halts before its seed instruction")
      { afterRead with blocks := 2 } := by
  have hread : ((gateway {}).single ⟨contract, [.ofByte 0 0], [[]], 0⟩).Returns {}
      (encodeProof 1 (stateProof {} contract [0])) afterRead :=
    Gateway.returns_prove.2 ⟨_, returns_proveTarget_iff.2 ⟨by decide, [⟨[0], Word.zero.toList⟩],
      rfl, rfl, .inr rfl, .inr rfl, rfl, rfl⟩⟩
  have hhalt : ((gateway {}).single ⟨contract, [.ofByte 0 Instruction.haltByte], [], 0⟩).Fails
      afterRead (.malformedCommand "command halts before its seed instruction")
      { afterRead with blocks := 2 } :=
    Run.fails_bind_pure.2 (Gateway.fails_proveTarget (by decide) (returns_block.2 ⟨rfl, rfl⟩)
      (Gateway.fails_resolveCommands rfl))
  exact ((Gateway.proveAll_eq_singleCalls independent_readThenHalt).2 _ _ _).2
    ⟨_, _, [], _, _, rfl, .cons hread (.nil _), hhalt⟩

end SimulatedChain

end StorageGateway
