import StorageGateway.Proofs.Failures

/-!
# Resolving commands on stored words

A service that answers every read from memory leaves nothing to chance: the stored words decide
whether all commands resolve, and to what, or at which command they get stuck. A command gets stuck
if it leads to no slot, or if the word at its base slot is no length word. Either way the slots that
are read are decided too.

## Main definitions

* `valueAt` — the value at a base slot, and its slots.
* `resolution` — the slots that are read for commands, and the values or the error.
* `Service.AnswersFrom` — a service that answers reads from memory.

## Main statements

* `reads_of_resolution` — commands that resolve read exactly the slots that prove their values.
* `resolution_eq_ok_iff_replay` — these are the values of the replay.
* `Gateway.outcome_resolveCommands` — what a gateway makes of the commands.
-/

namespace StorageGateway

/-! ## Stored words -/

section

variable (max : Nat) (constants : List Bytes) (word : UInt256 → Word)

/-- The value at a base slot, unless the word there is no length word. -/
def valueAt (base : BaseSlot) : Result Resolved :=
  if base.isDynamic then do
    match ← LengthWord.ofWord base.slot (word base.slot) max with
    | .short value => pure ⟨[base.slot], value⟩
    | .long length data =>
      pure ⟨base.slot :: data, ((data.map word).flatMap (·.toList)).take length⟩
  else pure ⟨[base.slot], (word base.slot).toList⟩

/-- The slots that are read for commands, each of which has the values of the ones before it, and
the values or the error of the command that gets stuck. -/
def resolution : (values : List Bytes) → List Command → List UInt256 × Result (List Resolved)
  | _, [] => ([], .ok [])
  | values, command :: commands =>
    match Tables.derive ⟨constants, values⟩ command with
    | .error e => ([], .error e)
    | .ok base =>
      match valueAt max word base with
      | .error e => ([base.slot], .error e)
      | .ok r =>
        let (reads, rest) := resolution (values ++ [r.value]) commands
        (r.slots ++ reads, rest.map (r :: ·))

end

variable {max : Nat} {constants : List Bytes} {word : UInt256 → Word} {values : List Bytes}
  {command : Command} {commands : List Command} {base : BaseSlot} {r : Resolved} {e : Error}

/-- The value at a base slot is the one that the words at its slots make up. -/
theorem valueAt_eq_ok_iff :
    valueAt max word base = .ok r ↔ ReadAs max base (r.slots.map word) r := by
  constructor
  · intro h
    rw [valueAt] at h
    cases hd : base.isDynamic with
    | false =>
      rw [hd] at h
      cases h
      exact .fixed hd (word base.slot)
    | true =>
      rw [if_pos hd] at h
      obtain ⟨length, hw, h⟩ := Except.bind_eq_ok_iff.1 h
      cases length with
      | short value =>
        cases h
        exact .short hd hw
      | long length data =>
        cases h
        exact .long hd hw (List.length_map word)
  · intro h
    generalize hs : r.slots.map word = words at h
    cases h with
    | fixed hd w =>
      cases hs
      simp only [valueAt, hd]
      rfl
    | short hd hw =>
      cases hs
      simp only [valueAt, hd, hw]
      rfl
    | long hd hw hl =>
      cases hs
      simp only [valueAt, hd, hw]
      rfl

/-- Only a base slot that holds a length is read to no avail. -/
theorem valueAt_eq_error_iff :
    valueAt max word base = .error e ↔
      base.isDynamic = true ∧ LengthWord.ofWord base.slot (word base.slot) max = .error e := by
  rw [valueAt]
  cases base.isDynamic with
  | false => simp [pure, Except.pure]
  | true =>
    rw [if_pos rfl, Except.bind_eq_error_iff]
    constructor
    · intro h
      rcases h with h | ⟨length, -, h⟩
      · exact ⟨rfl, h⟩
      · cases length <;> cases h
    · intro h
      exact .inl h.2

theorem resolution_cons_of_derive_error (h : Tables.derive ⟨constants, values⟩ command = .error e) :
    resolution max constants word values (command :: commands) = ([], .error e) := by
  rw [resolution, h]

theorem resolution_cons_of_valueAt_error
    (hb : Tables.derive ⟨constants, values⟩ command = .ok base)
    (h : valueAt max word base = .error e) :
    resolution max constants word values (command :: commands) = ([base.slot], .error e) := by
  simp only [resolution, hb, h]

theorem resolution_cons (hb : Tables.derive ⟨constants, values⟩ command = .ok base)
    (h : valueAt max word base = .ok r) :
    resolution max constants word values (command :: commands) =
      (r.slots ++ (resolution max constants word (values ++ [r.value]) commands).1,
        (resolution max constants word (values ++ [r.value]) commands).2.map (r :: ·)) := by
  simp only [resolution, hb, h]

/-- Commands resolve if the first one leads to a value and the others resolve after it. -/
theorem resolution_cons_eq_ok_iff {rs : List Resolved} :
    (resolution max constants word values (command :: commands)).2 = .ok rs ↔
      ∃ base r more, Tables.derive ⟨constants, values⟩ command = .ok base ∧
        valueAt max word base = .ok r ∧
        (resolution max constants word (values ++ [r.value]) commands).2 = .ok more ∧
        rs = r :: more := by
  cases hb : Tables.derive ⟨constants, values⟩ command with
  | error e => simp [resolution_cons_of_derive_error hb]
  | ok base =>
    cases hr : valueAt max word base with
    | error e => simp [resolution_cons_of_valueAt_error hb hr, hr]
    | ok r =>
      rw [resolution_cons hb hr, Except.map_eq_ok_iff]
      constructor
      · intro h
        obtain ⟨more, hm, rfl⟩ := h
        exact ⟨base, r, more, rfl, hr, hm, rfl⟩
      · intro h
        obtain ⟨_, r', more, hb', hr', hm, rfl⟩ := h
        cases hb'
        rw [hr, Except.ok.injEq] at hr'
        subst hr'
        exact ⟨more, hm, rfl⟩

/-- Commands that resolve read exactly the slots that prove their values. -/
theorem reads_of_resolution {rs : List Resolved}
    (h : (resolution max constants word values commands).2 = .ok rs) :
    (resolution max constants word values commands).1 = slotsOf rs := by
  induction commands generalizing values rs with
  | nil =>
    cases h
    rfl
  | cons command commands ih =>
    obtain ⟨base, r, more, hb, hr, hm, rfl⟩ := resolution_cons_eq_ok_iff.1 h
    rw [resolution_cons hb hr, slotsOf_cons, ih hm]

/-- The values of commands that resolve are those of the replay of the stored words. -/
theorem resolution_eq_ok_iff_replay {rs : List Resolved} :
    (resolution max constants word values commands).2 = .ok rs ↔
      replay max constants values commands ((slotsOf rs).map word) = some (rs, []) := by
  induction commands generalizing values rs with
  | nil => cases rs <;> simp [resolution, replay]
  | cons command commands ih =>
    rw [resolution_cons_eq_ok_iff, replay_cons_eq_some_iff]
    constructor
    · intro h
      obtain ⟨base, r, more, hb, hr, hm, rfl⟩ := h
      exact ⟨base, _, r, _, more, hb, by rw [slotsOf_cons, List.map_append],
        valueAt_eq_ok_iff.1 hr, ih.1 hm, rfl⟩
    · intro h
      obtain ⟨base, used, r, later, more, hb, hw, hr, hm, rfl⟩ := h
      rw [slotsOf_cons, List.map_append] at hw
      obtain ⟨rfl, rfl⟩ := List.append_inj hw (by rw [List.length_map, hr.length_eq])
      exact ⟨base, r, more, hb, valueAt_eq_ok_iff.2 hr, ih.2 hm, rfl⟩

/-! ## Services that answer from memory -/

variable {σ β : Type}

/-- While `inv` holds, every read of a contract at a block is answered with the stored word, and
leaves the state that `after` tells, in which `inv` holds again. -/
structure Service.AnswersFrom (s : Service σ β) (block : β) (address : Address)
    (word : UInt256 → Word) (inv : σ → Prop) (after : σ → UInt256 → σ) : Prop where
  returns_read : ∀ {t}, inv t → ∀ slot,
    (s.read block address slot).Returns t (word slot) (after t slot)
  inv_after : ∀ {t}, inv t → ∀ slot, inv (after t slot)

namespace Service.AnswersFrom

variable {s : Service σ β} {block : β} {address : Address} {inv : σ → Prop}
  {after : σ → UInt256 → σ} {t : σ}

theorem inv_foldl (h : s.AnswersFrom block address word inv after) (ht : inv t)
    (slots : List UInt256) : inv (slots.foldl after t) := by
  induction slots generalizing t with
  | nil => exact ht
  | cons slot slots ih => exact ih (h.inv_after ht slot)

/-- Reading in turn gives the stored words. -/
theorem returns_readInTurn (h : s.AnswersFrom block address word inv after) (ht : inv t)
    (slots : List UInt256) :
    (readInTurn (s.read block address) slots).Returns t (slots.map word)
      (slots.foldl after t) := by
  induction slots generalizing t with
  | nil => exact (returns_readInTurn_nil _).2 ⟨rfl, rfl⟩
  | cons slot slots ih =>
    exact (returns_readInTurn_cons _).2
      ⟨_, _, _, rfl, h.returns_read ht slot, ih (h.inv_after ht slot)⟩

end Service.AnswersFrom

namespace Gateway

variable {g : Gateway σ β} {block : β} {address : Address} {inv : σ → Prop}
  {after : σ → UInt256 → σ} {t : σ}

/-- A command that leads to a value reads its slots. -/
theorem returns_resolveCommand_of_valueAt
    (h : g.service.AnswersFrom block address word inv after) (ht : inv t)
    (hb : Tables.derive ⟨constants, values⟩ command = .ok base)
    (hr : valueAt g.config.maxValueLength word base = .ok r) :
    (g.resolveCommand block address ⟨constants, values⟩ command).Returns t (r.slots, r.value)
      (r.slots.foldl after t) :=
  returns_resolveCommand.2
    ⟨base, _, hb, h.returns_readInTurn ht r.slots, valueAt_eq_ok_iff.1 hr⟩

/-- A command that leads to no length word reads its base slot. -/
theorem fails_resolveCommand_of_valueAt
    (h : g.service.AnswersFrom block address word inv after) (ht : inv t)
    (hb : Tables.derive ⟨constants, values⟩ command = .ok base)
    (he : valueAt g.config.maxValueLength word base = .error e) :
    (g.resolveCommand block address ⟨constants, values⟩ command).Fails t e
      (after t base.slot) := by
  obtain ⟨hd, hw⟩ := valueAt_eq_error_iff.1 he
  exact fails_resolveCommand_of_resolve hb
    (StoredValue.fails_resolve_of_length hd (h.returns_read ht base.slot) hw)

/-- What a gateway makes of commands is what the stored words make of them, and the slots that it
reads for them are the ones of their resolution. -/
theorem outcome_resolveCommands (h : g.service.AnswersFrom block address word inv after)
    (ht : inv t) (values : List Bytes) (commands : List Command) :
    (g.resolveCommands block address constants values commands).outcome t =
      ((resolution g.config.maxValueLength constants word values commands).2.map fun rs =>
          (slotsOf rs, values ++ valuesOf rs),
        (resolution g.config.maxValueLength constants word values commands).1.foldl after t) := by
  induction commands generalizing values t with
  | nil => simp [resolveCommands, resolution, Except.map]
  | cons command commands ih =>
    cases hb : Tables.derive ⟨constants, values⟩ command with
    | error e =>
      rw [fails_resolveCommands hb, resolution_cons_of_derive_error hb]
      rfl
    | ok base =>
      rw [resolveCommands, Run.outcome_bind]
      cases hr : valueAt g.config.maxValueLength word base with
      | error e =>
        rw [fails_resolveCommand_of_valueAt h ht hb hr, resolution_cons_of_valueAt_error hb hr]
        rfl
      | ok r =>
        rw [returns_resolveCommand_of_valueAt h ht hb hr, resolution_cons hb hr]
        dsimp only
        rw [Run.outcome_bind, ih (h.inv_foldl ht r.slots), List.foldl_append]
        cases (resolution g.config.maxValueLength constants word (values ++ [r.value])
          commands).2 with
        | error e => rfl
        | ok more => simp [Except.map]

/-- Commands that get stuck fail with the error of their resolution. -/
theorem fails_resolveCommands_of_resolution
    (h : g.service.AnswersFrom block address word inv after) (ht : inv t)
    (he : (resolution g.config.maxValueLength constants word values commands).2 = .error e) :
    (g.resolveCommands block address constants values commands).Fails t e
      ((resolution g.config.maxValueLength constants word values commands).1.foldl after t) := by
  rw [Run.Fails, outcome_resolveCommands h ht, he]
  rfl

end Gateway

end StorageGateway
