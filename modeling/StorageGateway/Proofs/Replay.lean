import StorageGateway.Gateway
import StorageGateway.Proofs.LengthWord
import StorageGateway.Proofs.Reads

/-!
# Replaying a request on words

What a gateway reads determines what it proves. A replay runs the commands of a request on a list
of words alone, without a chain: each command takes its base word off the front, and as many words
after it as a long value has slots. The words that a service gave to the gateway, in the order of
the reads, replay to the very slots that were read and to the values that were resolved.

## Main definitions

* `Resolved` — the slots of a value and its bytes.
* `replayValue`, `replay` — one value, and the values of a list of commands.
* `ReadAs` — which words make up a value.

## Main statements

* `Gateway.returns_resolveCommands` — resolving commands is reading slots in turn whose words
  replay.
* `Gateway.returns_proveTarget` — what a service answered when a target was proven.
-/

namespace StorageGateway

/-! ## Replays -/

/-- The slots that prove a value, and its bytes. -/
structure Resolved where
  /-- The base slot, then the data slots of a long value. -/
  slots : List UInt256
  /-- The bytes. -/
  value : Bytes

/-- Takes the value at a base slot off a list of words: the word itself if its length is fixed,
else what the length word tells, with the words of a long value after it. -/
def replayValue (max : Nat) (base : BaseSlot) : List Word → Option (Resolved × List Word)
  | [] => none
  | word :: words =>
    if base.isDynamic then
      match LengthWord.ofWord base.slot word max with
      | .ok (.short value) => some (⟨[base.slot], value⟩, words)
      | .ok (.long length data) =>
        let count := Bytes.pieces 32 length
        if count ≤ words.length then
          some (⟨base.slot :: data, ((words.take count).flatMap (·.toList)).take length⟩,
            words.drop count)
        else none
      | .error _ => none
    else some (⟨[base.slot], word.toList⟩, words)

/-- Runs commands on a list of words, each command with the values of the ones before it. -/
def replay (max : Nat) (constants : List Bytes) :
    (values : List Bytes) → List Command → List Word → Option (List Resolved × List Word)
  | _, [], words => some ([], words)
  | values, command :: commands, words => do
    let base ← (Tables.derive ⟨constants, values⟩ command).toOption
    let (first, words) ← replayValue max base words
    let (more, words) ← replay max constants (values ++ [first.value]) commands words
    pure (first :: more, words)

/-- All slots of a list of values, in order. -/
def slotsOf (rs : List Resolved) : List UInt256 := rs.flatMap (·.slots)

/-- The bytes of a list of values. -/
def valuesOf (rs : List Resolved) : List Bytes := rs.map (·.value)

@[simp] theorem slotsOf_nil : slotsOf [] = [] := rfl

@[simp] theorem slotsOf_cons (r : Resolved) (rs : List Resolved) :
    slotsOf (r :: rs) = r.slots ++ slotsOf rs := rfl

@[simp] theorem valuesOf_nil : valuesOf [] = [] := rfl

@[simp] theorem valuesOf_cons (r : Resolved) (rs : List Resolved) :
    valuesOf (r :: rs) = r.value :: valuesOf rs := rfl

variable {max : Nat}

/-- The words that are read for the value at a base slot, with its slots and its bytes. -/
inductive ReadAs (max : Nat) (base : BaseSlot) : List Word → Resolved → Prop
  /-- A value of fixed length is one word. -/
  | fixed (hd : base.isDynamic = false) (word : Word) :
    ReadAs max base [word] ⟨[base.slot], word.toList⟩
  /-- A short value is in its length word. -/
  | short (hd : base.isDynamic = true) {word : Word} {value : Bytes}
    (hw : LengthWord.ofWord base.slot word max = .ok (.short value)) :
    ReadAs max base [word] ⟨[base.slot], value⟩
  /-- A long value is in the words of its data slots. -/
  | long (hd : base.isDynamic = true) {word : Word} {length : Nat} {data : List UInt256}
    (hw : LengthWord.ofWord base.slot word max = .ok (.long length data)) {words : List Word}
    (hl : words.length = data.length) :
    ReadAs max base (word :: words)
      ⟨base.slot :: data, (words.flatMap (·.toList)).take length⟩

namespace ReadAs

variable {base : BaseSlot} {words : List Word} {r : Resolved}

/-- A value takes one word per slot. -/
theorem length_eq (h : ReadAs max base words r) : words.length = r.slots.length := by
  cases h with
  | fixed hd word => rfl
  | short hd hw => rfl
  | long hd hw hl => rw [List.length_cons, List.length_cons, hl]

/-- The slots of a value are its base slot and as many data slots after it as it needs. -/
theorem slots_eq (h : ReadAs max base words r) :
    ∃ count, r.slots = base.slot :: dataSlots base.slot count := by
  cases h with
  | fixed hd word => exact ⟨0, rfl⟩
  | short hd hw => exact ⟨0, rfl⟩
  | long hd hw hl => exact ⟨_, by rw [(LengthWord.of_long hw).2.2]⟩

end ReadAs

/-- A value takes its words off the front, and depends on no others. -/
theorem replayValue_eq_some_iff {base : BaseSlot} {words rest : List Word} {r : Resolved} :
    replayValue max base words = some (r, rest) ↔
      ∃ used, words = used ++ rest ∧ ReadAs max base used r := by
  constructor
  · intro h
    cases words with
    | nil => cases h
    | cons word words =>
      rw [replayValue] at h
      cases hd : base.isDynamic with
      | false =>
        simp only [hd, Bool.false_eq_true, if_false] at h
        cases h
        exact ⟨[word], rfl, .fixed hd word⟩
      | true =>
        cases hw : LengthWord.ofWord base.slot word max with
        | error e => simp [hd, hw] at h
        | ok length =>
          simp only [hd, hw, if_true] at h
          cases length with
          | short value =>
            cases h
            exact ⟨[word], rfl, .short hd hw⟩
          | long length data =>
            have hlen := LengthWord.length_slots_of_long hw
            by_cases hc : Bytes.pieces 32 length ≤ words.length
            · simp only [hc, if_true] at h
              cases h
              refine ⟨word :: words.take (Bytes.pieces 32 length), by simp, .long hd hw ?_⟩
              rw [List.length_take, hlen]
              omega
            · simp only [hc, if_false] at h
              cases h
  · intro h
    obtain ⟨used, rfl, h⟩ := h
    cases h with
    | fixed hd word => simp [replayValue, hd]
    | short hd hw => simp [replayValue, hd, hw]
    | long hd hw hl =>
      rw [LengthWord.length_slots_of_long hw] at hl
      simp [replayValue, hd, hw, ← hl]

variable {constants : List Bytes}

/-- The replay of one more command: its value, and then the replay of the others. -/
theorem replay_cons_eq_some_iff {values : List Bytes} {command : Command}
    {commands : List Command} {words rest : List Word} {rs : List Resolved} :
    replay max constants values (command :: commands) words = some (rs, rest) ↔
      ∃ base used r later more, Tables.derive ⟨constants, values⟩ command = .ok base ∧
        words = used ++ later ∧ ReadAs max base used r ∧
        replay max constants (values ++ [r.value]) commands later = some (more, rest) ∧
        rs = r :: more := by
  simp only [replay, bind, Option.bind_eq_some_iff, pure]
  constructor
  · intro h
    obtain ⟨base, hb, ⟨r, later⟩, hr, ⟨more, rest'⟩, hm, h⟩ := h
    simp only [Option.some.injEq, Prod.mk.injEq] at h
    obtain ⟨rfl, rfl⟩ := h
    obtain ⟨used, hu, hr⟩ := replayValue_eq_some_iff.1 hr
    cases hd : Tables.derive ⟨constants, values⟩ command with
    | error e =>
      rw [hd] at hb
      cases hb
    | ok b =>
      rw [hd] at hb
      cases hb
      exact ⟨base, used, r, later, more, rfl, hu, hr, hm, rfl⟩
  · intro h
    obtain ⟨base, used, r, later, more, hd, hu, hr, hm, rfl⟩ := h
    have hr := replayValue_eq_some_iff.2 ⟨used, hu, hr⟩
    exact ⟨base, by rw [hd]; rfl, (r, later), hr, (more, rest), hm, rfl⟩

/-- A replay gives one value per command, each of them proven by consecutive slots. -/
theorem slots_of_replay {values : List Bytes} {commands : List Command} {words rest : List Word}
    {rs : List Resolved} (h : replay max constants values commands words = some (rs, rest)) :
    rs.length = commands.length ∧
      ∀ r ∈ rs, ∃ slot count, r.slots = slot :: dataSlots slot count := by
  induction commands generalizing values words rs with
  | nil =>
    simp only [replay, Option.some.injEq, Prod.mk.injEq] at h
    rw [← h.1]
    exact ⟨rfl, by simp⟩
  | cons command commands ih =>
    obtain ⟨base, used, r, later, more, -, -, hr, hm, rfl⟩ := replay_cons_eq_some_iff.1 h
    obtain ⟨hl, hs⟩ := ih hm
    refine ⟨by simp [hl], ?_⟩
    intro r' hmem
    rcases List.mem_cons.1 hmem with rfl | hmem
    · exact ⟨base.slot, hr.slots_eq⟩
    · exact hs r' hmem

/-- Each command takes at least its base slot. -/
theorem slotsOf_eq_nil_iff_of_replay {values : List Bytes} {commands : List Command}
    {words rest : List Word} {rs : List Resolved}
    (h : replay max constants values commands words = some (rs, rest)) :
    slotsOf rs = [] ↔ commands = [] := by
  obtain ⟨hl, hslots⟩ := slots_of_replay h
  cases rs with
  | nil => simpa using hl.symm
  | cons r rs =>
    obtain ⟨slot, count, hr⟩ := hslots r List.mem_cons_self
    have hne : commands ≠ [] := List.ne_nil_of_length_eq_add_one hl.symm
    simp [hr, hne]

/-! ## Values of a contract -/

variable {σ β : Type}

namespace StoredValue

variable {s : Service σ β} {block : β} {v : StoredValue} {t t' : σ} {value : Bytes}

theorem returns_fetch_word (hv : v.access = .word) :
    (v.fetch s block).Returns t value t' ↔
      ∃ word, (s.read block v.address v.base).Returns t word t' ∧ value = word.toList := by
  simp only [fetch, hv, Run.returns_bind, Run.returns_pure]
  constructor
  · intro h
    obtain ⟨word, _, hr, rfl, rfl⟩ := h
    exact ⟨word, hr, rfl⟩
  · intro h
    obtain ⟨word, hr, rfl⟩ := h
    exact ⟨word, t', hr, rfl, rfl⟩

theorem returns_fetch_inline {bytes : Bytes} (hv : v.access = .inline bytes) :
    (v.fetch s block).Returns t value t' ↔ value = bytes ∧ t = t' := by
  simp [fetch, hv, eq_comm]

/-- The data slots of a long value are read in turn, also several at a time. -/
theorem outcome_fetch_span {length : Nat} (hv : v.access = .span length) (t : σ) :
    (v.fetch s block).outcome t =
      (do
        let words ← readInTurn (s.read block v.address) v.data
        pure ((words.flatMap (·.toList)).take length) : Run σ Bytes).outcome t := by
  simp only [fetch, hv]
  by_cases hp : v.parallelReads
  · rw [if_pos hp, Run.outcome_bind, ReadWindow.read_oldestFirst, ← Run.outcome_bind]
  · rw [if_neg hp]

theorem returns_fetch_span {length : Nat} (hv : v.access = .span length) :
    (v.fetch s block).Returns t value t' ↔
      ∃ words, (readInTurn (s.read block v.address) v.data).Returns t words t' ∧
        value = (words.flatMap (·.toList)).take length := by
  rw [Run.Returns, outcome_fetch_span hv, ← Run.Returns]
  simp only [Run.returns_bind, Run.returns_pure]
  constructor
  · intro h
    obtain ⟨words, _, hr, rfl, rfl⟩ := h
    exact ⟨words, hr, rfl⟩
  · intro h
    obtain ⟨words, hr, rfl⟩ := h
    exact ⟨words, t', hr, rfl, rfl⟩

/-- The first asking for the bytes reads them and keeps the outcome. -/
theorem run_value {schedule : ReadWindow.Schedule} (hv : v.outcome = none) :
    ((v.value s block schedule).run t).run =
      ((((v.fetch s block schedule).outcome t).1.mapError .memoized,
        { v with outcome := some ((v.fetch s block schedule).outcome t).1 }),
        ((v.fetch s block schedule).outcome t).2) := by
  rw [value, hv]
  rfl

theorem returns_resolve {config : Config} {address : Address} {base : BaseSlot} :
    (resolve s config block address base).Returns t v t' ↔
      (base.isDynamic = false ∧ v = ofFixed config address base.slot ∧ t = t') ∨
      (base.isDynamic = true ∧ ∃ word length, (s.read block address base.slot).Returns t word t' ∧
        LengthWord.ofWord base.slot word config.maxValueLength = .ok length ∧
        v = ofLength config address base.slot length) := by
  cases hd : base.isDynamic with
  | false => simp [resolve, hd, eq_comm]
  | true =>
    simp only [resolve, hd, if_true, Run.returns_bind, Run.returns_ofResult, Run.returns_pure]
    constructor
    · intro h
      obtain ⟨word, _, hr, length, _, ⟨hw, rfl⟩, rfl, rfl⟩ := h
      exact .inr ⟨trivial, word, length, hr, hw, rfl⟩
    · intro h
      rcases h with ⟨h, -⟩ | ⟨-, word, length, hr, hw, rfl⟩
      · cases h
      · exact ⟨word, t', hr, length, t', ⟨hw, rfl⟩, rfl, rfl⟩

/-- A value that was just resolved has not been asked for its bytes. -/
theorem outcome_eq_none {config : Config} {address : Address} {base : BaseSlot}
    (h : (resolve s config block address base).Returns t v t') : v.outcome = none := by
  rcases returns_resolve.1 h with ⟨-, rfl, -⟩ | ⟨-, word, length, -, -, rfl⟩
  · rfl
  · cases length <;> rfl

end StoredValue

namespace Gateway

variable {g : Gateway σ β} {block : β} {address : Address} {s s' : σ}

/-- The slots and the bytes of a stored value that was not asked for its bytes yet. -/
theorem returns_slots_and_value {v : StoredValue} (hv : v.outcome = none) {slots : List UInt256}
    {value : Bytes} :
    (ExceptT.lift (v.value g.service block) >>= fun x => Run.ofResult x.1 >>= fun value =>
      pure (x.2.slots, value) : Run σ (List UInt256 × Bytes)).Returns s (slots, value) s' ↔
        slots = v.slots ∧ (v.fetch g.service block).Returns s value s' := by
  rw [Run.Returns, Run.outcome_bind, Run.outcome_lift, StoredValue.run_value hv]
  dsimp only
  rw [Run.outcome_bind, Run.outcome_ofResult, Run.Returns]
  rcases (v.fetch g.service block).outcome s with ⟨_ | b, t⟩
  · simp
  · simp [StoredValue.slots, eq_comm, and_assoc]

/-- Resolving a value and fetching its bytes is reading its slots in turn, the base slot first; the
words that were read determine the slots and the bytes. -/
theorem returns_resolve_fetch {base : BaseSlot} {slots : List UInt256} {value : Bytes} :
    (∃ v t, (StoredValue.resolve g.service g.config block address base).Returns s v t ∧
      slots = v.slots ∧ (v.fetch g.service block).Returns t value s') ↔
      ∃ words, (readInTurn (g.service.read block address) slots).Returns s words s' ∧
        ReadAs g.config.maxValueLength base words ⟨slots, value⟩ := by
  simp only [StoredValue.returns_resolve]
  constructor
  · intro h
    obtain ⟨v, t, ⟨hd, rfl, rfl⟩ | ⟨hd, word, length, hr, hw, rfl⟩, rfl, hf⟩ := h
    · obtain ⟨word, hr, rfl⟩ := (StoredValue.returns_fetch_word rfl).1 hf
      exact ⟨[word], (returns_readInTurn_singleton _).2 ⟨word, rfl, hr⟩, .fixed hd word⟩
    · cases length with
      | short bytes =>
        obtain ⟨rfl, rfl⟩ := (StoredValue.returns_fetch_inline rfl).1 hf
        exact ⟨[word], (returns_readInTurn_singleton _).2 ⟨word, rfl, hr⟩, .short hd hw⟩
      | long length data =>
        obtain ⟨words, hrs, rfl⟩ := (StoredValue.returns_fetch_span rfl).1 hf
        have hl : words.length = data.length := length_of_readInTurn _ hrs
        exact ⟨word :: words, (returns_readInTurn_cons _).2 ⟨word, words, t, rfl, hr, hrs⟩,
          .long hd hw hl⟩
  · intro h
    obtain ⟨words, hr, hv⟩ := h
    cases hv with
    | fixed hd word =>
      obtain ⟨_, h, hb⟩ := (returns_readInTurn_singleton _).1 hr
      cases h
      exact ⟨_, s, .inl ⟨hd, rfl, rfl⟩, rfl,
        (StoredValue.returns_fetch_word rfl).2 ⟨word, hb, rfl⟩⟩
    | short hd hw =>
      obtain ⟨_, h, hb⟩ := (returns_readInTurn_singleton _).1 hr
      cases h
      exact ⟨_, s', .inr ⟨hd, _, _, hb, hw, rfl⟩, rfl,
        (StoredValue.returns_fetch_inline rfl).2 ⟨rfl, rfl⟩⟩
    | long hd hw hl =>
      obtain ⟨_, _, t, h, hb, hrs⟩ := (returns_readInTurn_cons _).1 hr
      cases h
      exact ⟨_, t, .inr ⟨hd, _, _, hb, hw, rfl⟩, rfl,
        (StoredValue.returns_fetch_span rfl).2 ⟨_, hrs, rfl⟩⟩

/-- Resolving a command is deriving its base slot and resolving the value there. -/
theorem returns_resolveCommand {tables : Tables} {command : Command} {slots : List UInt256}
    {value : Bytes} :
    (g.resolveCommand block address tables command).Returns s (slots, value) s' ↔
      ∃ base words, tables.derive command = .ok base ∧
        (readInTurn (g.service.read block address) slots).Returns s words s' ∧
        ReadAs g.config.maxValueLength base words ⟨slots, value⟩ := by
  rw [resolveCommand, Run.returns_bind]
  simp only [Run.returns_ofResult]
  constructor
  · intro h
    obtain ⟨base, _, ⟨hb, rfl⟩, h⟩ := h
    obtain ⟨v, t, hv, h⟩ := Run.returns_bind.1 h
    have hfetch := (returns_slots_and_value (StoredValue.outcome_eq_none hv)).1 h
    obtain ⟨words, hw⟩ := returns_resolve_fetch.1 ⟨v, t, hv, hfetch⟩
    exact ⟨base, words, hb, hw⟩
  · intro h
    obtain ⟨base, words, hb, hw⟩ := h
    obtain ⟨v, t, hv, h⟩ := returns_resolve_fetch.2 ⟨words, hw⟩
    have hvalue := (returns_slots_and_value (StoredValue.outcome_eq_none hv)).2 h
    exact ⟨base, s, ⟨hb, rfl⟩, Run.returns_bind.2 ⟨v, t, hv, hvalue⟩⟩

/-- Resolving commands is reading slots in turn; the words that were read replay to these slots, and
to the values that join the ones resolved before. -/
theorem returns_resolveCommands {constants values values' : List Bytes} {commands : List Command}
    {slots : List UInt256} :
    (g.resolveCommands block address constants values commands).Returns s (slots, values') s' ↔
      ∃ rs words, (readInTurn (g.service.read block address) slots).Returns s words s' ∧
        replay g.config.maxValueLength constants values commands words = some (rs, []) ∧
        slots = slotsOf rs ∧ values' = values ++ valuesOf rs := by
  induction commands generalizing values values' s slots with
  | nil =>
    simp only [resolveCommands, Run.returns_pure, replay, Prod.mk.injEq]
    constructor
    · intro h
      obtain ⟨⟨rfl, rfl⟩, rfl⟩ := h
      exact ⟨[], [], (returns_readInTurn_nil _).2 ⟨rfl, rfl⟩, rfl, rfl, by simp⟩
    · intro h
      obtain ⟨rs, words, hr, hv, rfl, rfl⟩ := h
      simp only [Option.some.injEq, Prod.mk.injEq] at hv
      obtain ⟨rfl, rfl⟩ := hv
      exact ⟨⟨rfl, by simp⟩, ((returns_readInTurn_nil _).1 hr).2⟩
  | cons command commands ih =>
    simp only [resolveCommands, Run.returns_bind, Run.returns_pure, Prod.mk.injEq, Prod.exists]
    constructor
    · intro h
      obtain ⟨first, value, t, hc, more, vs, _, hcs, ⟨rfl, rfl⟩, rfl⟩ := h
      obtain ⟨base, used, hb, hr, hv⟩ := returns_resolveCommand.1 hc
      obtain ⟨rs, words, hrs, hvs, rfl, rfl⟩ := ih.1 hcs
      refine ⟨⟨first, value⟩ :: rs, used ++ words, ?_, ?_, rfl, by simp⟩
      · exact (returns_readInTurn_append _).2 ⟨used, words, t, rfl, hr, hrs⟩
      · exact replay_cons_eq_some_iff.2
          ⟨base, used, _, words, rs, hb, rfl, hv, hvs, rfl⟩
    · intro h
      obtain ⟨_, words, hr, hv, rfl, rfl⟩ := h
      obtain ⟨base, used, r, later, more, hb, rfl, hused, hvs, rfl⟩ :=
        replay_cons_eq_some_iff.1 hv
      obtain ⟨first, second, t, hw, hr, hrs⟩ := (returns_readInTurn_append _).1 hr
      have hlen : used.length = first.length := by
        rw [hused.length_eq, length_of_readInTurn _ hr]
      obtain ⟨rfl, rfl⟩ := List.append_inj hw hlen
      exact ⟨r.slots, r.value, t, returns_resolveCommand.2 ⟨base, used, hb, hr, hused⟩,
        slotsOf more, _, s', ih.2 ⟨more, later, hrs, hvs, rfl, rfl⟩, ⟨rfl, by simp⟩, rfl⟩

/-- A target is proven exactly when it has few enough commands, the service picks a block and
answers all reads with words that replay, the storage proofs are for the slots of the replay, and
the proof fits the layout of the block. -/
theorem returns_proveTarget {constants values values' : List Bytes} {commands : List Command}
    {blob : Bytes} :
    (g.proveTarget address commands constants values).Returns s (blob, values') s' ↔
      commands.length ≤ g.config.maxCommands ∧
      ∃ block s₁ rs words s₂ proof, g.service.block.Returns s block s₁ ∧
        (readInTurn (g.service.read block address) (slotsOf rs)).Returns s₁ words s₂ ∧
        replay g.config.maxValueLength constants values commands words = some (rs, []) ∧
        values' = values ++ valuesOf rs ∧
        (g.service.prove block address (slotsOf rs)).Returns s₂ proof s' ∧
        proof.storageProofs.map (·.key) = slotsOf rs ∧
        g.service.encodeProof block proof = .ok blob := by
  rw [proveTarget]
  by_cases hc : g.config.maxCommands < commands.length
  · have hn : ¬ commands.length ≤ g.config.maxCommands := by omega
    simp [hc, hn]
  · have hl : commands.length ≤ g.config.maxCommands := by omega
    simp only [hc, hl, if_false, true_and, Run.returns_bind, Run.returns_ofResult,
      Run.returns_pure, Prod.exists, returns_resolveCommands, Prod.mk.injEq]
    constructor
    · intro h
      obtain ⟨block, s₁, hb, slots, _, s₂, ⟨rs, words, hr, hv, rfl, rfl⟩, proof, s₃, hp, _, _,
        ⟨hk, rfl⟩, blob', _, ⟨he, rfl⟩, ⟨rfl, rfl⟩, rfl⟩ := h
      exact ⟨block, s₁, rs, words, s₂, proof, hb, hr, hv, rfl, hp, StateProof.check_eq_ok_iff.1 hk,
        he⟩
    · intro h
      obtain ⟨block, s₁, rs, words, s₂, proof, hb, hr, hv, rfl, hp, hk, he⟩ := h
      exact ⟨block, s₁, hb, slotsOf rs, _, s₂, ⟨rs, words, hr, hv, rfl, rfl⟩, proof, s', hp, (),
        s', ⟨StateProof.check_eq_ok_iff.2 hk, rfl⟩, blob, s', ⟨he, rfl⟩, ⟨rfl, rfl⟩, rfl⟩

/-- A request for one target is answered with the proof of the target. -/
theorem returns_prove {constants : List Bytes} {commands : List Command} {blob : Bytes} :
    (g.prove address commands constants).Returns s blob s' ↔
      ∃ values, (g.proveTarget address commands constants []).Returns s (blob, values) s' := by
  simp only [prove, Run.returns_bind, Run.returns_pure, Prod.exists]
  constructor
  · intro h
    obtain ⟨_, values, _, h, rfl, rfl⟩ := h
    exact ⟨values, h⟩
  · intro h
    obtain ⟨values, h⟩ := h
    exact ⟨blob, values, s', h, rfl, rfl⟩

end Gateway

end StorageGateway
