import StorageGateway.Proofs.Compositional
import StorageGateway.Proofs.Resolution
import StorageGateway.Simulated.Change

/-!
# What a call leaves behind

A simulated chain counts the questions it is asked and records the last proof, and a call changes
nothing else. Which questions a call asks before it ends is decided by the chain it starts from: the
first command that gets stuck ends it, and each command before that one has read the slots of its
value. So the counters after a call, answered or failed, are known exactly. And since no answer
depends on a counter, a call can be taken out of any session without changing the answers to the
other calls.

## Main definitions

* `SimulatedChain.Resolves`, `SimulatedChain.Stuck` — commands that lead to values on a chain, and a
  command that does not.
* `SimulatedChain.afterReads`, `SimulatedChain.afterProof` — the chain after a failed and after a
  complete call.
* `SimulatedChain.Ahead` — chains that answer alike, one of which has counted more.
* `SessionStep`, `SimulatedChain.session` — changes and calls, one after the other.

## Main statements

* `SimulatedChain.exists_resolves_or_stuck` — commands resolve, or a first one gets stuck.
* `SimulatedChain.session_without_call` — a session without one of its calls.
* `SimulatedChain.effects_of_prove` — the effects of a call.
-/

namespace StorageGateway

/-! ## Commands one after the other -/

namespace Gateway

variable {σ β : Type} {g : Gateway σ β} {block : β} {address : Address} {constants : List Bytes}

/-- Commands are resolved up to some point and then from there on. -/
theorem resolveCommands_append (values : List Bytes) (front back : List Command) :
    g.resolveCommands block address constants values (front ++ back) = (do
      let (slots, values) ← g.resolveCommands block address constants values front
      let (more, values) ← g.resolveCommands block address constants values back
      pure (slots ++ more, values)) := by
  induction front generalizing values with
  | nil => simp [resolveCommands]
  | cons command front ih => simp [resolveCommands, ih]

end Gateway

namespace SimulatedChain

variable {c : SimulatedChain} {max : Nat} {address : Address} {constants values : List Bytes}
  {command : Command} {commands : List Command} {rs : List Resolved} {n : Nat} {e : Error}

/-! ## Commands on a chain -/

/-- Commands that lead to values: the stored words are such that all of them resolve, and the chain
answers reads, unless there are none. -/
structure Resolves (c : SimulatedChain) (max : Nat) (address : Address)
    (constants values : List Bytes) (commands : List Command) (rs : List Resolved) : Prop where
  answers : commands = [] ∨ c.failReads = false
  resolution_eq : (resolution max constants (c.storage.word address) values commands).2 = .ok rs

/-- A command that leads to no value, with the number of reads that it takes to find out and the
error. -/
inductive Stuck (c : SimulatedChain) (max : Nat) (address : Address) (tables : Tables)
    (command : Command) : Nat → Error → Prop
  /-- The command leads to no slot, and nothing is read. -/
  | noSlot {e : Error} (h : tables.derive command = .error e) :
    Stuck c max address tables command 0 e
  /-- The length of the value cannot be read. -/
  | noLengthRead {base : BaseSlot} (hb : tables.derive command = .ok base)
    (hd : base.isDynamic = true) (hf : c.failReads = true) :
    Stuck c max address tables command 1 (readFailure base.slot)
  /-- The value, which is a word, cannot be read. -/
  | noWordRead {base : BaseSlot} (hb : tables.derive command = .ok base)
    (hd : base.isDynamic = false) (hf : c.failReads = true) :
    Stuck c max address tables command 1 (.memoized (readFailure base.slot))
  /-- The word that is read is no length, or one that is too large. -/
  | noLength {base : BaseSlot} {e : Error} (hb : tables.derive command = .ok base)
    (hd : base.isDynamic = true) (hf : c.failReads = false)
    (hw : LengthWord.ofWord base.slot (c.storage.word address base.slot) max = .error e) :
    Stuck c max address tables command 1 e

theorem Resolves.nil : c.Resolves max address constants values [] [] := ⟨.inl rfl, rfl⟩

theorem Resolves.cons {base : BaseSlot} {r : Resolved} (hf : c.failReads = false)
    (hb : Tables.derive ⟨constants, values⟩ command = .ok base)
    (hr : valueAt max (c.storage.word address) base = .ok r)
    (h : c.Resolves max address constants (values ++ [r.value]) commands rs) :
    c.Resolves max address constants values (command :: commands) (r :: rs) :=
  ⟨.inr hf, resolution_cons_eq_ok_iff.2 ⟨base, r, rs, hb, hr, h.resolution_eq, rfl⟩⟩

/-- Commands that resolve are answered by a replay of the stored words. -/
theorem Resolves.replay_eq (h : c.Resolves max address constants values commands rs) :
    replay max constants values commands ((slotsOf rs).map (c.storage.word address)) =
      some (rs, []) :=
  resolution_eq_ok_iff_replay.1 h.resolution_eq

theorem Resolves.slots_eq_nil_iff (h : c.Resolves max address constants values commands rs) :
    slotsOf rs = [] ↔ commands = [] :=
  slotsOf_eq_nil_iff_of_replay h.replay_eq

/-- Commands resolve, or a first one of them gets stuck after the others have. -/
theorem exists_resolves_or_stuck (c : SimulatedChain) (max : Nat) (address : Address)
    (constants values : List Bytes) (commands : List Command) :
    (∃ rs, c.Resolves max address constants values commands rs) ∨
    ∃ done failed rest rs n e, commands = done ++ failed :: rest ∧
      c.Resolves max address constants values done rs ∧
      c.Stuck max address ⟨constants, values ++ valuesOf rs⟩ failed n e := by
  induction commands generalizing values with
  | nil => exact .inl ⟨[], .nil⟩
  | cons command commands ih =>
    -- If the first command gets stuck, the ones before it are none.
    have hfirst : ∀ n e, c.Stuck max address ⟨constants, values⟩ command n e →
        ∃ done failed rest rs n e, command :: commands = done ++ failed :: rest ∧
          c.Resolves max address constants values done rs ∧
          c.Stuck max address ⟨constants, values ++ valuesOf rs⟩ failed n e := by
      intro n e h
      rw [← List.append_nil values] at h
      exact ⟨[], command, commands, [], n, e, rfl, .nil, h⟩
    cases hb : Tables.derive ⟨constants, values⟩ command with
    | error e => exact .inr (hfirst _ _ (.noSlot hb))
    | ok base =>
      cases hf : c.failReads with
      | true =>
        cases hd : base.isDynamic with
        | true => exact .inr (hfirst _ _ (.noLengthRead hb hd hf))
        | false => exact .inr (hfirst _ _ (.noWordRead hb hd hf))
      | false =>
        cases hr : valueAt max (c.storage.word address) base with
        | error e =>
          obtain ⟨hd, hw⟩ := valueAt_eq_error_iff.1 hr
          exact .inr (hfirst _ _ (.noLength hb hd hf hw))
        | ok r =>
          rcases ih (values ++ [r.value]) with ⟨rs, h⟩ |
            ⟨done, failed, rest, rs, n, e, rfl, h, hstuck⟩
          · exact .inl ⟨r :: rs, h.cons hf hb hr⟩
          · refine .inr ⟨command :: done, failed, rest, r :: rs, n, e, rfl, h.cons hf hb hr, ?_⟩
            rwa [List.append_assoc] at hstuck

/-! ## Reads -/

section

variable (config : Config) (block : BitVec 64)

/-- Commands that resolve read the slots of their values. -/
theorem returns_resolveCommands
    (h : c.Resolves config.maxValueLength address constants values commands rs) :
    ((gateway config).resolveCommands block address constants values commands).Returns c
      (slotsOf rs, values ++ valuesOf rs) { c with reads := c.reads + (slotsOf rs).length } := by
  have hanswers : slotsOf rs = [] ∨ c.failReads = false :=
    h.answers.imp_left h.slots_eq_nil_iff.2
  exact Gateway.returns_resolveCommands.2
    ⟨rs, _, returns_readInTurn.2 ⟨hanswers, rfl, rfl⟩, h.replay_eq, rfl, rfl⟩

/-- Why the value at a base slot is not resolved. -/
theorem fails_resolveCommand {tables : Tables}
    (h : c.Stuck config.maxValueLength address tables command n e) :
    ((gateway config).resolveCommand block address tables command).Fails c e
      { c with reads := c.reads + n } := by
  cases h with
  | noSlot h => exact Run.fails_bind.2 (.inl (Run.fails_ofResult.2 ⟨h, rfl⟩))
  | @noLengthRead base hb hd hf =>
    have hresolve : (StoredValue.resolve service config block address base).Fails c
        (readFailure base.slot) { c with reads := c.reads + 1 } := by
      rw [StoredValue.resolve, if_pos hd]
      exact Run.fails_bind.2 (.inl (fails_read hf block base.slot))
    exact Gateway.fails_resolveCommand_of_resolve hb hresolve
  | @noWordRead base hb hd hf =>
    -- A word is not read where its slot is found, but when it is asked for its bytes.
    have hresolve : (StoredValue.resolve service config block address base).Returns c
        (.ofFixed config address base.slot) c :=
      StoredValue.returns_resolve.2 (.inl ⟨hd, rfl, rfl⟩)
    have hfetch : ((StoredValue.ofFixed config address base.slot).fetch service block).Fails c
        (readFailure base.slot) { c with reads := c.reads + 1 } :=
      Run.fails_bind.2 (.inl (fails_read hf block base.slot))
    refine Run.fails_bind.2 (.inr ⟨base, c, Run.returns_ofResult.2 ⟨hb, rfl⟩,
      Run.fails_bind.2 (.inr ⟨_, c, hresolve, ?_⟩)⟩)
    exact (Gateway.fails_slots_and_value (g := gateway config) rfl).2 ⟨_, hfetch, rfl⟩
  | @noLength base e hb hd hf hw =>
    exact Gateway.fails_resolveCommand_of_resolve hb
      (StoredValue.fails_resolve_of_length hd (returns_read.2 ⟨hf, rfl, rfl⟩) hw)

end

/-! ## The call -/

variable {config : Config}

/-- The chain after a call that made so many reads and then failed. -/
def afterReads (c : SimulatedChain) (count : Nat) : SimulatedChain :=
  { c with reads := c.reads + count, blocks := c.blocks + 1 }

/-- The chain after a call that read some slots and asked for their proof. -/
def afterProof (c : SimulatedChain) (address : Address) (slots : List UInt256) : SimulatedChain :=
  { c with
    reads := c.reads + slots.length
    fetches := c.fetches + 1
    blocks := c.blocks + 1
    lastSlots := slots
    lastTarget := some address }

/-- What a chain has counted does not decide which commands resolve. -/
theorem Resolves.counted (h : c.Resolves max address constants values commands rs)
    (reads blocks : Nat) :
    Resolves { c with reads := reads, blocks := blocks } max address constants values commands rs :=
  ⟨h.answers, h.resolution_eq⟩

theorem Stuck.counted {tables : Tables} (h : c.Stuck max address tables command n e)
    (reads blocks : Nat) :
    Stuck { c with reads := reads, blocks := blocks } max address tables command n e := by
  cases h with
  | noSlot h => exact .noSlot h
  | noLengthRead hb hd hf => exact .noLengthRead hb hd hf
  | noWordRead hb hd hf => exact .noWordRead hb hd hf
  | noLength hb hd hf hw => exact .noLength hb hd hf hw

/-- A call fails with the first command that gets stuck, after the reads of the commands before
it. -/
theorem fails_prove_of_stuck {done rest : List Command} {failed : Command}
    (hcommands : commands = done ++ failed :: rest) (hc : commands.length ≤ config.maxCommands)
    (hdone : c.Resolves config.maxValueLength address constants [] done rs)
    (hstuck : c.Stuck config.maxValueLength address ⟨constants, valuesOf rs⟩ failed n e) :
    ((gateway config).prove address commands constants).Fails c e
      (c.afterReads ((slotsOf rs).length + n)) := by
  have hfront := returns_resolveCommands config c.number (hdone.counted c.reads (c.blocks + 1))
  have hfailed := fails_resolveCommand config c.number
    (hstuck.counted (c.reads + (slotsOf rs).length) (c.blocks + 1))
  have hresolve : ((gateway config).resolveCommands c.number address constants [] commands).Fails
      { c with blocks := c.blocks + 1 } e (c.afterReads ((slotsOf rs).length + n)) := by
    rw [hcommands, Gateway.resolveCommands_append, afterReads, ← Nat.add_assoc]
    exact Run.fails_bind.2 (.inr ⟨_, _, hfront, Run.fails_bind.2 (.inl
      (Run.fails_bind.2 (.inl hfailed)))⟩)
  exact Run.fails_bind_pure.2 (Gateway.fails_proveTarget hc (returns_block.2 ⟨rfl, rfl⟩) hresolve)

/-- A call whose commands all resolve is answered with the proof of their slots. -/
theorem returns_prove_of_resolves (hc : commands.length ≤ config.maxCommands)
    (h : c.Resolves config.maxValueLength address constants [] commands rs)
    (hd : commands = [] ∨ c.dropProof = false) :
    ((gateway config).prove address commands constants).Returns c
      (encodeProof c.number (c.stateProof address (slotsOf rs)))
      (c.afterProof address (slotsOf rs)) :=
  Gateway.returns_prove.2 ⟨_, returns_proveTarget_iff.2 ⟨hc, rs, h.replay_eq, rfl,
    h.answers.imp_left h.slots_eq_nil_iff.2, hd.imp_left h.slots_eq_nil_iff.2, rfl, rfl⟩⟩

/-- The error of a proof that lacks its last storage proof, for the count of slots. -/
def missingProof (count : Nat) : Error :=
  .inconsistentState s!"requested {count} slots, received {count - 1} storage proofs"

/-- Without its last storage proof, a proof of some slots does not pass. -/
theorem check_stateProof_of_dropProof (address : Address) {slots : List UInt256}
    (hd : c.dropProof = true) (hne : slots ≠ []) :
    (c.stateProof address slots).check slots = .error (missingProof slots.length) := by
  have hlength : (c.stateProof address slots).storageProofs.length = slots.length - 1 := by
    simp [stateProof, hd]
  have hpos := List.length_pos_iff.2 hne
  rw [StateProof.check, hlength, if_neg (by omega), missingProof]

/-- A call whose commands all resolve fails if the proof lacks one of their slots. -/
theorem fails_prove_of_dropProof (hc : commands.length ≤ config.maxCommands)
    (h : c.Resolves config.maxValueLength address constants [] commands rs)
    (hne : commands ≠ []) (hd : c.dropProof = true) :
    ((gateway config).prove address commands constants).Fails c
      (missingProof (slotsOf rs).length) (c.afterProof address (slotsOf rs)) := by
  have hresolve := returns_resolveCommands config c.number (h.counted c.reads (c.blocks + 1))
  have hproof := (stateProof_counted c address (slotsOf rs) (c.blocks + 1)
    (c.reads + (slotsOf rs).length)).symm
  have hcheck := check_stateProof_of_dropProof address hd (mt h.slots_eq_nil_iff.1 hne)
  exact Run.fails_bind_pure.2 (Gateway.fails_proveTarget_of_check hc
    (returns_block.2 ⟨rfl, rfl⟩) hresolve (returns_prove.2 ⟨hproof, rfl⟩) hcheck)

/-! ## Sessions -/

/-- Two chains that answer alike; the first one has counted so many more reads, proofs and
blocks. -/
structure Ahead (reads fetches blocks : Nat) (c₁ c₂ : SimulatedChain) : Prop where
  number_eq : c₁.number = c₂.number
  storage_eq : c₁.storage = c₂.storage
  failReads_eq : c₁.failReads = c₂.failReads
  dropProof_eq : c₁.dropProof = c₂.dropProof
  reads_eq : c₁.reads = c₂.reads + reads
  fetches_eq : c₁.fetches = c₂.fetches + fetches
  blocks_eq : c₁.blocks = c₂.blocks + blocks

/-- The same block, storage and settings, and no counter lower than before. -/
def CountsOn (c c' : SimulatedChain) : Prop :=
  ∃ reads fetches blocks, Ahead reads fetches blocks c' c

namespace Ahead

variable {c₁ c₂ c₃ : SimulatedChain} {reads fetches blocks : Nat}

theorem refl (c : SimulatedChain) : Ahead 0 0 0 c c := ⟨rfl, rfl, rfl, rfl, rfl, rfl, rfl⟩

theorem trans {reads' fetches' blocks' : Nat} (h : Ahead reads fetches blocks c₂ c₁)
    (h' : Ahead reads' fetches' blocks' c₃ c₂) :
    Ahead (reads + reads') (fetches + fetches') (blocks + blocks') c₃ c₁ where
  number_eq := h'.number_eq.trans h.number_eq
  storage_eq := h'.storage_eq.trans h.storage_eq
  failReads_eq := h'.failReads_eq.trans h.failReads_eq
  dropProof_eq := h'.dropProof_eq.trans h.dropProof_eq
  reads_eq := by rw [h'.reads_eq, h.reads_eq, Nat.add_assoc]
  fetches_eq := by rw [h'.fetches_eq, h.fetches_eq, Nat.add_assoc]
  blocks_eq := by rw [h'.blocks_eq, h.blocks_eq, Nat.add_assoc]

/-- A change does the same to both chains. -/
theorem change (h : Ahead reads fetches blocks c₁ c₂) (change : Change) :
    Ahead reads fetches blocks (change.apply c₁) (change.apply c₂) := by
  obtain ⟨hn, hs, hf, hd, hr, hp, hb⟩ := h
  cases change with
  | write w => exact ⟨hn, congrArg w.apply hs, hf, hd, hr, hp, hb⟩
  | failReads on => exact ⟨hn, hs, rfl, hd, hr, hp, hb⟩
  | dropProof on => exact ⟨hn, hs, hf, rfl, hr, hp, hb⟩

end Ahead

/-- The questions to a chain only count. -/
theorem service_has_keeps : service.Has fun _ m => m.Keeps CountsOn where
  block := by
    intro c
    exact ⟨0, 0, 1, rfl, rfl, rfl, rfl, rfl, rfl, rfl⟩
  read := by
    intro _ _ _ c
    exact ⟨1, 0, 0, rfl, rfl, rfl, rfl, rfl, rfl, rfl⟩
  prove := by
    intro _ _ _ c
    exact ⟨0, 1, 0, rfl, rfl, rfl, rfl, rfl, rfl, rfl⟩

/-- What a chain has counted does not decide what it answers. -/
theorem service_has_respects (reads fetches blocks : Nat) :
    service.Has fun _ m => m.Respects (Ahead reads fetches blocks) where
  block := by
    intro c₁ c₂ h
    refine ⟨congrArg Except.ok h.number_eq, { h with blocks_eq := ?_ }⟩
    change c₁.blocks + 1 = c₂.blocks + 1 + blocks
    rw [h.blocks_eq, Nat.add_right_comm]
  read := by
    intro _ address slot c₁ c₂ h
    have hanswer : (storageAt address slot c₁).1 = (storageAt address slot c₂).1 := by
      simp only [storageAt, h.failReads_eq, h.storage_eq]
    refine ⟨congrArg (·.mapError Error.io) hanswer, { h with reads_eq := ?_ }⟩
    change c₁.reads + 1 = c₂.reads + 1 + reads
    rw [h.reads_eq, Nat.add_right_comm]
  prove := by
    intro _ address slots c₁ c₂ h
    have hanswer : c₁.stateProof address slots = c₂.stateProof address slots := by
      unfold stateProof storageProof
      rw [h.dropProof_eq, h.storage_eq]
    refine ⟨congrArg Except.ok hanswer, { h with fetches_eq := ?_ }⟩
    change c₁.fetches + 1 = c₂.fetches + 1 + fetches
    rw [h.fetches_eq, Nat.add_right_comm]

/-- A step of a session. -/
inductive SessionStep where
  /-- The chain changes. -/
  | alter (change : Change)
  /-- A gateway with some limits is asked. -/
  | call (config : Config) (request : Request)

/-- The answer of a step, if it is a call, and the chain after it. -/
def SessionStep.run : SessionStep → SimulatedChain → List (Result (List Bytes)) × SimulatedChain
  | .alter change, c => ([], change.apply c)
  | .call config request, c =>
    let (answer, c) := ((gateway config).serve request).outcome c
    ([answer], c)

/-- The answers to the calls of a session, in order, and the chain after it. -/
def session : List SessionStep → SimulatedChain → List (Result (List Bytes)) × SimulatedChain
  | [], c => ([], c)
  | step :: steps, c =>
    let (answers, c) := step.run c
    let (more, c) := session steps c
    (answers ++ more, c)

theorem session_append (front back : List SessionStep) (c : SimulatedChain) :
    session (front ++ back) c =
      ((session front c).1 ++ (session back (session front c).2).1,
        (session back (session front c).2).2) := by
  induction front generalizing c with
  | nil => rfl
  | cons step front ih => simp [session, ih, List.append_assoc]

/-- What one step after the other only counts, the sequence only counts. -/
theorem compositional_countsOn :
    Run.Compositional fun α (m : Run SimulatedChain α) => m.Keeps CountsOn := by
  refine Run.compositional_keeps (fun c => ⟨0, 0, 0, .refl c⟩) ?_
  intro c₁ c₂ c₃ h₁ h₂
  obtain ⟨reads, fetches, blocks, h₁⟩ := h₁
  obtain ⟨reads', fetches', blocks', h₂⟩ := h₂
  exact ⟨_, _, _, h₁.trans h₂⟩

section

variable {c₁ c₂ : SimulatedChain} {reads fetches blocks : Nat}

/-- A step is answered alike by chains that answer alike. -/
theorem Ahead.run (h : Ahead reads fetches blocks c₁ c₂) (step : SessionStep) :
    (step.run c₁).1 = (step.run c₂).1 ∧
      Ahead reads fetches blocks (step.run c₁).2 (step.run c₂).2 := by
  cases step with
  | alter change => exact ⟨rfl, h.change change⟩
  | call config request =>
    have hcomp := Run.compositional_respects (Ahead reads fetches blocks)
    obtain ⟨hanswer, hahead⟩ := Gateway.compositional_serve (g := gateway config) hcomp
      (service_has_respects reads fetches blocks) request c₁ c₂ h
    exact ⟨congrArg ([·]) hanswer, hahead⟩

/-- A whole session is answered alike by chains that answer alike. -/
theorem Ahead.session (h : Ahead reads fetches blocks c₁ c₂) (steps : List SessionStep) :
    (session steps c₁).1 = (session steps c₂).1 ∧
      Ahead reads fetches blocks (session steps c₁).2 (session steps c₂).2 := by
  induction steps generalizing c₁ c₂ with
  | nil => exact ⟨rfl, h⟩
  | cons step steps ih =>
    obtain ⟨hanswers, hahead⟩ := h.run step
    obtain ⟨hmore, hend⟩ := ih hahead
    refine ⟨?_, hend⟩
    simp only [SimulatedChain.session, hanswers, hmore]

end

/-- A session without one of its calls has the same answers but the one of that call, and its
counters are behind by what that call counted. -/
theorem session_without_call (front back : List SessionStep) (config : Config) (request : Request)
    (c : SimulatedChain) :
    ∃ answer answers reads fetches blocks,
      (session (front ++ .call config request :: back) c).1 =
        (session front c).1 ++ answer :: answers ∧
      (session (front ++ back) c).1 = (session front c).1 ++ answers ∧
      Ahead reads fetches blocks (session (front ++ [.call config request]) c).2
        (session front c).2 ∧
      Ahead reads fetches blocks (session (front ++ .call config request :: back) c).2
        (session (front ++ back) c).2 := by
  have hcounts := Gateway.compositional_serve (g := gateway config) compositional_countsOn
    service_has_keeps request (session front c).2
  obtain ⟨reads, fetches, blocks, hcounts⟩ := hcounts
  obtain ⟨hanswers, hahead⟩ := hcounts.session back
  refine ⟨(((gateway config).serve request).outcome (session front c).2).1,
    (session back (session front c).2).1, reads, fetches, blocks, ?_, ?_, ?_, ?_⟩
  · rw [session_append, ← hanswers]
    rfl
  · rw [session_append]
  · rw [session_append]
    exact hcounts
  · rw [session_append, session_append]
    exact hahead

/-! ## The effects of a call -/

/-- **What a call leaves behind.** Storage, settings and the number of the block stay as they are.
Too many commands leave everything as it is. A first command that gets stuck decides the error and
the count of reads, and no proof is asked for. If all commands resolve, the proof of their slots is
asked for, and the call is answered unless the chain leaves a storage proof out. One of the two is
the case. And a session without one of its calls answers the other calls as before. -/
theorem effects_of_prove (config : Config) (c : SimulatedChain) (address : Address)
    (commands : List Command) (constants : List Bytes) :
    let call := (gateway config).prove address commands constants
    let max := config.maxValueLength
    c.CountsOn (call.outcome c).2 ∧
    (config.maxCommands < commands.length →
      call.Fails c (.tooManyCommands commands.length config.maxCommands) c) ∧
    (commands.length ≤ config.maxCommands →
      (∀ done failed rest rs n e, commands = done ++ failed :: rest →
        c.Resolves max address constants [] done rs →
        c.Stuck max address ⟨constants, valuesOf rs⟩ failed n e →
        call.Fails c e (c.afterReads ((slotsOf rs).length + n))) ∧
      (∀ rs, c.Resolves max address constants [] commands rs →
        (commands = [] ∨ c.dropProof = false →
          call.Returns c (encodeProof c.number (c.stateProof address (slotsOf rs)))
            (c.afterProof address (slotsOf rs))) ∧
        (commands ≠ [] → c.dropProof = true →
          call.Fails c (missingProof (slotsOf rs).length) (c.afterProof address (slotsOf rs)))) ∧
      ((∃ rs, c.Resolves max address constants [] commands rs) ∨
        ∃ done failed rest rs n e, commands = done ++ failed :: rest ∧
          c.Resolves max address constants [] done rs ∧
          c.Stuck max address ⟨constants, valuesOf rs⟩ failed n e)) ∧
    ∀ (front back : List SessionStep) (request : Request) (c₀ : SimulatedChain),
      ∃ answer answers reads fetches blocks,
        (session (front ++ .call config request :: back) c₀).1 =
          (session front c₀).1 ++ answer :: answers ∧
        (session (front ++ back) c₀).1 = (session front c₀).1 ++ answers ∧
        Ahead reads fetches blocks (session (front ++ [.call config request]) c₀).2
          (session front c₀).2 ∧
        Ahead reads fetches blocks (session (front ++ .call config request :: back) c₀).2
          (session (front ++ back) c₀).2 := by
  intro call max
  refine ⟨?frame, ?tooMany, ?resolved, ?session⟩
  case frame =>
    exact Gateway.compositional_prove compositional_countsOn service_has_keeps address commands
      constants c
  case tooMany =>
    intro hc
    exact Run.fails_bind_pure.2 (Gateway.fails_proveTarget_of_tooMany hc)
  case resolved =>
    intro hc
    refine ⟨?_, ?_, ?_⟩
    · intro done failed rest rs n e hcommands hdone hstuck
      exact fails_prove_of_stuck hcommands hc hdone hstuck
    · intro rs h
      exact ⟨returns_prove_of_resolves hc h, fails_prove_of_dropProof hc h⟩
    · exact exists_resolves_or_stuck c max address constants [] commands
  case session =>
    intro front back request c₀
    exact session_without_call front back config request c₀

/-- A value of 33 bytes is read from three slots, and the chain leaves out the last of their storage
proofs. -/
theorem effects_of_prove_uniform :
    ((gateway {}).prove .zero [.ofByte 1 0] [[]]).Fails
      { uniform (longWord 33) with dropProof := true }
      (.inconsistentState "requested 3 slots, received 2 storage proofs")
      { uniform (longWord 33) with
        dropProof := true
        reads := 3
        fetches := 1
        blocks := 1
        lastSlots := 0 :: dataSlots 0 2
        lastTarget := some .zero } := by
  have hresolves : Resolves { uniform (longWord 33) with dropProof := true } 1048576 .zero [[]] []
      [.ofByte 1 0]
      [⟨0 :: dataSlots 0 2, ((longWord 33).toList ++ (longWord 33).toList).take 33⟩] :=
    ⟨.inr rfl, resolution_eq_ok_iff_replay.2 rfl⟩
  obtain ⟨-, -, h, -⟩ := effects_of_prove {} { uniform (longWord 33) with dropProof := true } .zero
    [.ofByte 1 0] [[]]
  exact ((h (by decide)).2.1 _ hresolves).2 (by simp) rfl

end SimulatedChain

end StorageGateway
