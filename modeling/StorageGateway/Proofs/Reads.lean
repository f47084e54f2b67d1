import StorageGateway.Proofs.Run

/-!
# Reads of several slots

Reading a list of slots in turn is reading its front and then its back, and gives one word per
slot. A window that lets its oldest read finish first asks the same questions in the same order, so
it is the same computation as reading in turn.

## Main statements

* `readInTurn_append`, `length_of_readInTurn` — the laws of reading in turn.
* `ReadWindow.read_oldestFirst` — the window is reading in turn.
-/

namespace StorageGateway

variable {σ : Type} (read : UInt256 → Run σ Word)

/-! ## In turn -/

theorem returns_readInTurn_nil {words : List Word} {s s' : σ} :
    (readInTurn read []).Returns s words s' ↔ words = [] ∧ s = s' := by
  simp [readInTurn, eq_comm]

theorem returns_readInTurn_cons {slot : UInt256} {slots : List UInt256} {words : List Word}
    {s s'' : σ} :
    (readInTurn read (slot :: slots)).Returns s words s'' ↔
      ∃ word rest s', words = word :: rest ∧ (read slot).Returns s word s' ∧
        (readInTurn read slots).Returns s' rest s'' := by
  simp only [readInTurn, Run.returns_bind, Run.returns_pure]
  constructor
  · intro h
    obtain ⟨word, s', hw, rest, t, hr, rfl, rfl⟩ := h
    exact ⟨word, rest, s', rfl, hw, hr⟩
  · intro h
    obtain ⟨word, rest, s', rfl, hw, hr⟩ := h
    exact ⟨word, s', hw, rest, s'', hr, rfl, rfl⟩

theorem returns_readInTurn_singleton {slot : UInt256} {words : List Word} {s s' : σ} :
    (readInTurn read [slot]).Returns s words s' ↔
      ∃ word, words = [word] ∧ (read slot).Returns s word s' := by
  rw [returns_readInTurn_cons]
  simp only [returns_readInTurn_nil]
  constructor
  · intro h
    obtain ⟨word, _, _, rfl, hw, rfl, rfl⟩ := h
    exact ⟨word, rfl, hw⟩
  · intro h
    obtain ⟨word, rfl, hw⟩ := h
    exact ⟨word, [], s', rfl, hw, rfl, rfl⟩

/-- Reading a list is reading its front and then its back. -/
theorem returns_readInTurn_append {front back : List UInt256} {words : List Word} {s s'' : σ} :
    (readInTurn read (front ++ back)).Returns s words s'' ↔
      ∃ first second s', words = first ++ second ∧ (readInTurn read front).Returns s first s' ∧
        (readInTurn read back).Returns s' second s'' := by
  induction front generalizing s words with
  | nil =>
    simp only [List.nil_append, returns_readInTurn_nil]
    constructor
    · intro h
      exact ⟨[], words, s, rfl, ⟨rfl, rfl⟩, h⟩
    · intro h
      obtain ⟨_, second, _, rfl, ⟨rfl, rfl⟩, h⟩ := h
      exact h
  | cons slot front ih =>
    simp only [List.cons_append, returns_readInTurn_cons, ih]
    constructor
    · intro h
      obtain ⟨word, _, t, rfl, hw, first, second, s', rfl, hf, hs⟩ := h
      exact ⟨word :: first, second, s', rfl, ⟨word, first, t, rfl, hw, hf⟩, hs⟩
    · intro h
      obtain ⟨_, second, s', rfl, ⟨word, first, t, rfl, hw, hf⟩, hs⟩ := h
      exact ⟨word, first ++ second, t, rfl, hw, first, second, s', rfl, hf, hs⟩

/-- Each slot read gives one word. -/
theorem length_of_readInTurn {slots : List UInt256} {words : List Word} {s s' : σ}
    (h : (readInTurn read slots).Returns s words s') : words.length = slots.length := by
  induction slots generalizing s words with
  | nil => simp [((returns_readInTurn_nil read).1 h).1]
  | cons slot slots ih =>
    obtain ⟨word, rest, t, rfl, -, hr⟩ := (returns_readInTurn_cons read).1 h
    simp [ih hr]

/-! ## Through a window -/

namespace ReadWindow

/-- A window whose started reads are all under way. -/
def pending (waiting slots : List UInt256) (words : List Word) : ReadWindow :=
  ⟨waiting, slots.map (·, none), words⟩

variable {waiting slots : List UInt256} {words : List Word}

theorem fill_pending : (pending waiting slots words).fill =
    pending (waiting.drop (capacity - slots.length))
      (slots ++ waiting.take (capacity - slots.length)) words := by
  simp [fill, pending]

theorem underWay_pending : (pending waiting slots words).underWay = List.range slots.length := by
  rw [underWay, pending, List.filter_eq_self.2]
  · simp [List.range_eq_range']
  · intro entry hm
    obtain ⟨started, i⟩ := entry
    obtain ⟨slot, -, rfl⟩ := List.mem_map.1 (List.fst_mem_of_mem_zipIdx hm)
    rfl

theorem drain_pending :
    drain (slots.map (·, none)) words = .ok (slots.map (·, none), words) := by
  cases slots <;> simp [drain]

/-- The oldest of the reads under way finishes. -/
theorem finish_pending {slot : UInt256} {outcome : Result Word} :
    (pending waiting (slot :: slots) words).finish 0 outcome =
      outcome.map fun word => pending waiting slots (word :: words) := by
  cases outcome with
  | error e => simp [finish, pending, drain, Except.map]
  | ok word => simp [finish, pending, drain, drain_pending, Except.map]

/-- A window has room, or it is full of reads; either way some read is under way once it is filled,
unless no slots are left. -/
theorem exists_fill_pending (words : List Word) (h : 0 < slots.length + waiting.length) :
    ∃ slot rest waiting',
      (pending waiting slots words).fill = pending waiting' (slot :: rest) words ∧
        (slot :: rest) ++ waiting' = slots ++ waiting := by
  have hpos : 0 < (slots ++ waiting.take (capacity - slots.length)).length := by
    simp only [List.length_append, List.length_take, capacity]
    omega
  obtain ⟨slot, rest, hs⟩ := List.exists_cons_of_length_pos hpos
  refine ⟨slot, rest, waiting.drop (capacity - slots.length), ?_, ?_⟩
  · rw [fill_pending, hs]
  · rw [← hs, List.append_assoc, List.take_append_drop]

/-- One more read finishes, and what it made possible is handed on. -/
theorem outcome_complete_succ {schedule : Schedule} {w : ReadWindow} {count place : Nat}
    {slot : UInt256}
    (hplace : w.fill.underWay.getD (min (schedule count) (w.fill.underWay.length - 1)) 0 = place)
    (h : w.fill.started[place]? = some (slot, none)) (s : σ) :
    (complete read schedule (count + 1) w).outcome s =
      match w.fill.finish place ((read slot).outcome s).1 with
      | .ok w' => (complete read schedule count w').outcome ((read slot).outcome s).2
      | .error e => (.error e, ((read slot).outcome s).2) := by
  rw [complete]
  simp only [hplace, h]
  change Run.outcome
    (Run.attempt (read slot) >>= fun outcome =>
      Run.ofResult (w.fill.finish place outcome) >>= fun w => complete read schedule count w) s = _
  simp only [Run.outcome_bind, Run.outcome_attempt, Run.outcome_ofResult]
  rcases w.fill.finish place ((read slot).outcome s).1 with _ | w' <;> rfl

/-- A filled window waits for its oldest read and goes on without it. -/
theorem complete_oldestFirst_succ {w : ReadWindow} {slot : UInt256} {rest : List UInt256}
    (hw : w.fill = pending waiting (slot :: rest) words) (n : Nat) (s : σ) :
    (complete read oldestFirst (n + 1) w).outcome s =
      (do
        let word ← read slot
        complete read oldestFirst n (pending waiting rest (word :: words)) :
          Run σ (List Word)).outcome s := by
  have hplace : w.fill.underWay.getD (min (oldestFirst n) (w.fill.underWay.length - 1)) 0 = 0 := by
    rw [hw, underWay_pending]
    simp [oldestFirst, List.range_succ_eq_map]
  have hslot : w.fill.started[0]? = some (slot, none) := by
    rw [hw]
    rfl
  rw [outcome_complete_succ read hplace hslot, hw, finish_pending, Run.outcome_bind]
  rcases (read slot).outcome s with ⟨_ | word, s'⟩ <;> rfl

/-- With its oldest read finishing first, a window hands on what reading in turn gives: first the
words handed on before, then those of the reads under way, then those of the waiting slots. -/
theorem complete_oldestFirst (waiting slots : List UInt256) (words : List Word) (s : σ) :
    (complete read oldestFirst (slots.length + waiting.length)
      (pending waiting slots words)).outcome s =
        (do
          let more ← readInTurn read (slots ++ waiting)
          pure (words.reverse ++ more) : Run σ (List Word)).outcome s := by
  generalize hn : slots.length + waiting.length = n
  induction n generalizing waiting slots words s with
  | zero =>
    obtain ⟨rfl, rfl⟩ : slots = [] ∧ waiting = [] := by
      constructor <;> rw [← List.length_eq_zero_iff] <;> omega
    simp [complete, readInTurn, pending]
  | succ n ih =>
    have hpos : 0 < slots.length + waiting.length := by omega
    obtain ⟨slot, rest, waiting', hfill, hsplit⟩ := exists_fill_pending words hpos
    have hlen : rest.length + waiting'.length = n := by
      have hl := congrArg List.length hsplit
      simp only [List.length_append, List.length_cons] at hl
      omega
    rw [complete_oldestFirst_succ read hfill, ← hsplit, List.cons_append]
    simp only [readInTurn, bind_assoc, pure_bind, Run.outcome_bind]
    rcases (read slot).outcome s with ⟨e | word, s'⟩
    · rfl
    · simp only
      rw [ih waiting' rest (word :: words) s' hlen, Run.outcome_bind]
      rcases (readInTurn read (rest ++ waiting')).outcome s' with ⟨e | more, s''⟩ <;> simp

/-- A window that lets its oldest read finish first is reading in turn. -/
theorem read_oldestFirst (slots : List UInt256) (s : σ) :
    (ReadWindow.read read oldestFirst slots).outcome s = (readInTurn read slots).outcome s := by
  have h := complete_oldestFirst read slots [] [] s
  simpa [ReadWindow.read, start, pending] using h

end ReadWindow

end StorageGateway
