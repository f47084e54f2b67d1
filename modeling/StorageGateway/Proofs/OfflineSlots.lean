import StorageGateway.Cli.Run
import StorageGateway.Proofs.Failures
import StorageGateway.Proofs.Simulated

/-!
# Slots without a chain

The command line program derives the base slots of commands from given values, without a chain. It
has all values at once, while a gateway derives the slot of each command from the values before it.
A command selects only from values that are there, so more values do not change its slot, and both
find the same slots. Among the slots of a proof, the base slot of a command comes after all slots of
the commands before it, of which long values have many.

## Main definitions

* `EntriesAgree` — the entries of the program are the base slots among the slots of a proof.

## Main statements

* `exists_readAs_of_replay` — what one command of a replay gives.
* `Cli.deriveSlots_eq_ok_iff`, `Cli.of_deriveSlots_eq_error` — the two outcomes of the program.
* `Gateway.fails_prove_tooManyCommands_iff` — when a gateway refuses the commands.
* `entriesAgree_of_replay` — the program finds the base slots of a replay.
* `SimulatedChain.deriveSlots_of_prove` — the program and the gateway agree.
-/

namespace StorageGateway

/-! ## The slots of one command among all -/

section

variable {max : Nat} {constants values : List Bytes} {commands : List Command}
  {words rest : List Word} {rs : List Resolved} {r : Resolved}

/-- A command of a replay derives its base slot from the values before it, and its value is what
the words at its slots are read as. -/
theorem exists_readAs_of_replay
    (h : replay max constants values commands words = some (rs, rest)) {i : Nat}
    {command : Command} (hi : commands[i]? = some command) :
    ∃ base used r, Tables.derive ⟨constants, values ++ (valuesOf rs).take i⟩ command = .ok base ∧
      ReadAs max base used r ∧ rs[i]? = some r := by
  induction commands generalizing values words rs i with
  | nil => simp at hi
  | cons first commands ih =>
    obtain ⟨base, used, r, later, more, hd, -, hr, hm, rfl⟩ := replay_cons_eq_some_iff.1 h
    cases i with
    | zero =>
      rw [List.getElem?_cons_zero, Option.some.injEq] at hi
      subst hi
      exact ⟨base, used, r, by simpa using hd, hr, by simp⟩
    | succ i =>
      simpa using ih hm hi

/-- The slots of a value come after all slots of the values before it. -/
theorem getElem?_slotsOf {i : Nat} (hr : rs[i]? = some r) {slot : UInt256}
    {data : List UInt256} (hs : r.slots = slot :: data) :
    (slotsOf rs)[(slotsOf (rs.take i)).length]? = some slot := by
  induction rs generalizing i with
  | nil => simp at hr
  | cons first rs ih =>
    cases i with
    | zero =>
      rw [List.getElem?_cons_zero, Option.some.injEq] at hr
      simp [hr, hs]
    | succ i =>
      rw [List.take_succ_cons, slotsOf_cons, slotsOf_cons, List.length_append,
        List.getElem?_append_right (Nat.le_add_right _ _), Nat.add_sub_cancel_left]
      exact ih hr

end

theorem Tables.isDynamic_of_derive {t : Tables} {command : Command} {base : BaseSlot}
    (h : t.derive command = .ok base) : base.isDynamic = command.isDynamic := by
  obtain ⟨path, -, -, rfl⟩ := Tables.derive_eq_ok_iff.1 h
  rfl

/-! ## The program -/

namespace Cli

variable {config : Config} {commands : List Command} {constants values : List Bytes}

theorem checkCount_eq_ok_iff {u : Unit} :
    checkCount config commands = .ok u ↔ commands.length ≤ config.maxCommands := by
  by_cases h : config.maxCommands < commands.length
  · simp [checkCount, h]
  · simp [checkCount, h, Nat.le_of_not_lt h]

/-- The program gives one entry per command, if each of them leads to a slot. -/
theorem deriveSlots_eq_ok_iff {entries : List (Command × BaseSlot)} :
    deriveSlots config commands constants values = .ok entries ↔
      commands.length ≤ config.maxCommands ∧
      List.Forall₂ (fun command entry =>
        entry.1 = command ∧ Tables.derive ⟨constants, values⟩ command = .ok entry.2)
        commands entries := by
  have hentry : ∀ command (entry : Command × BaseSlot),
      (Tables.derive ⟨constants, values⟩ command >>= fun base =>
        (pure (command, base) : Result _)) = .ok entry ↔
      entry.1 = command ∧ Tables.derive ⟨constants, values⟩ command = .ok entry.2 := by
    intro command entry
    rw [Except.bind_eq_ok_iff]
    constructor
    · intro h
      obtain ⟨base, hd, h⟩ := h
      cases h
      exact ⟨rfl, hd⟩
    · intro h
      obtain ⟨rfl, hd⟩ := h
      exact ⟨entry.2, hd, rfl⟩
  rw [deriveSlots, Except.bind_eq_ok_iff]
  simp only [Except.mapM_eq_ok_iff, hentry, checkCount_eq_ok_iff, exists_const]

/-- The program refuses too many commands, and else fails with the error of a command. -/
theorem of_deriveSlots_eq_error {e : Error}
    (h : deriveSlots config commands constants values = .error e) :
    (config.maxCommands < commands.length ∧
      e = .tooManyCommands commands.length config.maxCommands) ∨
    (commands.length ≤ config.maxCommands ∧
      ∃ command ∈ commands, Tables.derive ⟨constants, values⟩ command = .error e) := by
  rw [deriveSlots] at h
  by_cases hc : config.maxCommands < commands.length
  · rw [checkCount, if_pos hc] at h
    cases h
    exact .inl ⟨hc, rfl⟩
  · rw [checkCount, if_neg hc] at h
    obtain ⟨command, hm, h⟩ := Except.exists_of_mapM_eq_error h
    rcases Except.bind_eq_error_iff.1 h with hd | ⟨base, -, h⟩
    · exact .inr ⟨Nat.le_of_not_lt hc, command, hm, hd⟩
    · cases h

/-- What the program prints if it finds slots. -/
theorem perform_slot {entries : List (Command × BaseSlot)} (files : Files)
    (h : deriveSlots config commands constants values = .ok entries) :
    perform files config (.slot commands constants values) =
      { exit := 0, stdout := (Json.arr (entries.map slotJson)).pretty ++ "\n" } := by
  simp only [perform, h]

/-- When the program refuses the commands, and what it then says. -/
theorem deriveSlots_tooManyCommands_iff {count limit : Nat} :
    deriveSlots config commands constants values = .error (.tooManyCommands count limit) ↔
      config.maxCommands < commands.length ∧ count = commands.length ∧
        limit = config.maxCommands := by
  constructor
  · intro h
    rcases of_deriveSlots_eq_error h with ⟨hc, he⟩ | ⟨-, command, -, hd⟩
    · cases he
      exact ⟨hc, rfl, rfl⟩
    · cases Tables.isDerivation_of_derive hd
  · intro h
    obtain ⟨hc, rfl, rfl⟩ := h
    rw [deriveSlots, checkCount, if_pos hc]
    rfl

end Cli

/-! ## One after the other and all at once -/

/-- The entries of the program are the base slots of resolved values: an entry holds its command,
its flag, and the slot that the command derives from the values before its own. That slot comes
right after all slots of the values before. The entry is shown by these three, and by nothing
else. -/
structure EntriesAgree (entries : List (Command × BaseSlot)) (commands : List Command)
    (constants : List Bytes) (rs : List Resolved) : Prop where
  length_eq : entries.length = commands.length
  exists_base : ∀ {i : Nat} {command : Command}, commands[i]? = some command →
    ∃ base, entries[i]? = some (command, base) ∧
      Tables.derive ⟨constants, (valuesOf rs).take i⟩ command = .ok base ∧
      base.isDynamic = command.isDynamic ∧
      (slotsOf rs)[(slotsOf (rs.take i)).length]? = some base.slot ∧
      (entries.map Cli.slotJson)[i]? = some (.obj
        [("command", .fixed command), ("isDynamic", .bool command.isDynamic),
          ("slot", .quantity base.slot)])

/-- The program is given all values at once, and finds the slots that are derived one by one. -/
theorem entriesAgree_of_replay {config : Config} {max : Nat} {commands : List Command}
    {constants : List Bytes} {words rest : List Word} {rs : List Resolved}
    (hc : commands.length ≤ config.maxCommands)
    (h : replay max constants [] commands words = some (rs, rest)) :
    ∃ entries, Cli.deriveSlots config commands constants (valuesOf rs) = .ok entries ∧
      EntriesAgree entries commands constants rs := by
  have hextends : ∀ i, Tables.Extends ⟨constants, (valuesOf rs).take i⟩
      ⟨constants, valuesOf rs⟩ := fun i => ⟨List.prefix_rfl, List.take_prefix i _⟩
  cases hd : Cli.deriveSlots config commands constants (valuesOf rs) with
  | error e =>
    exfalso
    rcases Cli.of_deriveSlots_eq_error hd with ⟨hn, -⟩ | ⟨-, command, hm, he⟩
    · omega
    · obtain ⟨i, hi⟩ := List.mem_iff_getElem?.1 hm
      obtain ⟨base, used, r, hb, -⟩ := exists_readAs_of_replay h hi
      rw [List.nil_append] at hb
      rw [(hextends i).derive hb] at he
      cases he
  | ok entries =>
    obtain ⟨-, hentries⟩ := Cli.deriveSlots_eq_ok_iff.1 hd
    refine ⟨entries, rfl, hentries.length_eq.symm, ?_⟩
    intro i command hi
    obtain ⟨base, used, r, hb, hr, hget⟩ := exists_readAs_of_replay h hi
    obtain ⟨count, hslots⟩ := hr.slots_eq
    rw [List.nil_append] at hb
    have hdynamic := Tables.isDynamic_of_derive hb
    have hentry : entries[i]? = some (command, base) := by
      obtain ⟨hlt, rfl⟩ := List.getElem?_eq_some_iff.1 hi
      have hlt' : i < entries.length := hentries.length_eq ▸ hlt
      obtain ⟨hcommand, hbase⟩ := hentries.get hlt hlt'
      -- The entry was derived from all values, and the base slot from the first of them.
      rw [List.get_eq_getElem, List.get_eq_getElem] at hcommand hbase
      rw [(hextends i).derive hb, Except.ok.injEq] at hbase
      rw [List.getElem?_eq_getElem hlt', ← hcommand, hbase]
    refine ⟨base, hentry, hb, hdynamic, getElem?_slotsOf hget hslots, ?_⟩
    rw [List.getElem?_map, hentry, ← hdynamic]
    rfl

/-! ## The gateway -/

namespace Gateway

variable {σ β : Type} {g : Gateway σ β} {block : β} {address : Address} {s s' : σ} {e : Error}
  {commands : List Command} {constants values : List Bytes}

/-- If the request is to blame for commands that fail, one of them leads to no slot. -/
theorem isDerivation_of_fails_resolveCommands
    (h : (g.resolveCommands block address constants values commands).Fails s e s')
    (he : e.isMalformedRequest = true) : e.isDerivation = true := by
  induction commands generalizing s values with
  | nil => cases h
  | cons command commands ih =>
    rw [resolveCommands] at h
    rcases Run.fails_bind.1 h with hf | ⟨first, t, -, h⟩
    · exact Tables.isDerivation_of_derive (derive_of_fails_resolveCommand hf he)
    · exact ih (Run.fails_bind_pure.1 h)

/-- When a gateway refuses the commands of a target, and what it then says. -/
theorem fails_prove_tooManyCommands_iff (hpack : g.service.AcquitsRequests) {count limit : Nat} :
    (∃ s', (g.prove address commands constants).Fails s (.tooManyCommands count limit) s') ↔
      g.config.maxCommands < commands.length ∧ count = commands.length ∧
        limit = g.config.maxCommands := by
  simp only [prove, Run.fails_bind_pure]
  constructor
  · intro h
    obtain ⟨s', h⟩ := h
    rcases of_fails_proveTarget hpack h rfl with hc | ⟨block, s₁, hr⟩
    · cases h.symm.trans (fails_proveTarget_of_tooMany hc)
      exact ⟨hc, rfl, rfl⟩
    · cases isDerivation_of_fails_resolveCommands hr rfl
  · intro h
    obtain ⟨hc, rfl, rfl⟩ := h
    exact ⟨s, fails_proveTarget_of_tooMany hc⟩

end Gateway

/-! ## A simulated chain -/

namespace SimulatedChain

theorem service_acquitsRequests : service.AcquitsRequests := by
  intro block proof e he
  cases he

/-- **The program agrees with the gateway.** If a request is answered, the program finds the slots
of the same commands from the values that the gateway resolved, and prints them: per command the
slot that the gateway derived, at the first place in the proof that is for the command. And whatever
the other arguments are, the program refuses commands for their number exactly if the gateway does,
with the same number and limit. -/
theorem deriveSlots_of_prove (config : Config) (c : SimulatedChain) (address : Address)
    (commands : List Command) (constants : List Bytes) :
    (∀ blob c', ((gateway config).prove address commands constants).Returns c blob c' →
      ∃ values rs entries,
        ((gateway config).proveTarget address commands constants []).Returns c (blob, values) c' ∧
        replay config.maxValueLength constants [] commands
          ((slotsOf rs).map (c.storage.word address)) = some (rs, []) ∧
        values = valuesOf rs ∧ c'.lastSlots = slotsOf rs ∧
        Cli.deriveSlots config commands constants values = .ok entries ∧
        EntriesAgree entries commands constants rs ∧
        ∀ files, Cli.perform files config (.slot commands constants values) =
          { exit := 0, stdout := (Json.arr (entries.map Cli.slotJson)).pretty ++ "\n" }) ∧
    (∀ given givenValues count limit,
      Cli.deriveSlots config commands given givenValues =
          .error (.tooManyCommands count limit) ↔
        ∃ c', ((gateway config).prove address commands constants).Fails c
          (.tooManyCommands count limit) c') := by
  constructor
  · intro blob c' h
    obtain ⟨values, hp⟩ := Gateway.returns_prove.1 h
    obtain ⟨hc, rs, hv, hvalues, -, -, -, hstate⟩ := returns_proveTarget_iff.1 hp
    rw [List.nil_append] at hvalues
    obtain ⟨entries, hentries, hagree⟩ := entriesAgree_of_replay hc hv
    rw [← hvalues] at hentries
    have hslots : c'.lastSlots = slotsOf rs := by rw [hstate]
    exact ⟨values, rs, entries, hp, hv, hvalues, hslots, hentries, hagree,
      fun files => Cli.perform_slot files hentries⟩
  · intro given givenValues count limit
    rw [Cli.deriveSlots_tooManyCommands_iff]
    exact (Gateway.fails_prove_tooManyCommands_iff (g := gateway config)
      service_acquitsRequests).symm

/-- Two commands with the same slot, the first one for a value of 33 bytes, and one command too
many for the limit. -/
theorem deriveSlots_of_prove_uniform :
    (∃ blob c', ((gateway {}).prove .zero [.ofByte 1 0, .ofByte 0 0] [[]]).Returns
        (uniform (longWord 33)) blob c' ∧
      ∃ values rs entries,
        replay 1048576 [[]] [] [.ofByte 1 0, .ofByte 0 0]
          ((slotsOf rs).map fun _ => longWord 33) = some (rs, []) ∧
        values = valuesOf rs ∧ c'.lastSlots = slotsOf rs ∧
        Cli.deriveSlots {} [.ofByte 1 0, .ofByte 0 0] [[]] values = .ok entries ∧
        EntriesAgree entries [.ofByte 1 0, .ofByte 0 0] [[]] rs ∧
        ∀ files, Cli.perform files {} (.slot [.ofByte 1 0, .ofByte 0 0] [[]] values) =
          { exit := 0, stdout := (Json.arr (entries.map Cli.slotJson)).pretty ++ "\n" }) ∧
    ∃ c', ((gateway { maxCommands := 1 }).prove .zero [.ofByte 1 0, .ofByte 0 0] [[]]).Fails
      (uniform (longWord 33)) (.tooManyCommands 2 1) c' := by
  constructor
  · refine ⟨_, _, returns_prove_uniform, ?_⟩
    obtain ⟨values, rs, entries, -, hrest⟩ :=
      (deriveSlots_of_prove {} (uniform (longWord 33)) .zero [.ofByte 1 0, .ofByte 0 0]
        [[]]).1 _ _ returns_prove_uniform
    exact ⟨values, rs, entries, hrest⟩
  · exact ((deriveSlots_of_prove { maxCommands := 1 } (uniform (longWord 33)) .zero
      [.ofByte 1 0, .ofByte 0 0] [[]]).2 [] [] 2 1).1 rfl

end SimulatedChain

end StorageGateway
