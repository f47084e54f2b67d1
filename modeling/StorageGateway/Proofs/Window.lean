import Mathlib.Logic.Relation
import StorageGateway.Proofs.Replay

/-!
# Reads that finish in any order

While several slots are read at a time, a service may answer any of the reads under way before the
others. A window hands the words on in the order of the slots all the same. So if a service gives
every slot the same answer whenever it is asked, then the order in which reads finish does not
matter: the words, and the failure if there is one, are those of reading in turn.

A schedule is one such order. The order may also depend on anything else, so a window is described
by its single steps: a read starts, a read finishes, or a word is handed on.

## Main definitions

* `Steady` — a service gives every slot the same answer.
* `ReadWindow.Step` and `ReadWindow.Ended` — the steps of a window, and the end of its runs.
* `ReadWindow.begun` — how many reads have begun.

## Main statements

* `ReadWindow.exists_steps_read` — reading by a schedule is one of the runs of a window.
* `ReadWindow.begun_le` — a run begins no more reads than there are slots.
* `ReadWindow.exists_ended`, `ReadWindow.Reading.result_eq` — every run can be brought to an end,
  and what it ends with is told by the answers.
* `StoredValue.value_of_steady` — the bytes of a long value do not depend on the order.
-/

namespace StorageGateway

variable {σ β : Type} {read : UInt256 → Run σ Word} {answer : UInt256 → Result Word}
  {slots : List UInt256} {calm : σ → Prop} {s s' : σ}

/-! ## Steady answers -/

/-- In the states `calm`, which reads do not leave, each of the slots is read with the same outcome
whenever it is read. -/
structure Steady (read : UInt256 → Run σ Word) (answer : UInt256 → Result Word)
    (slots : List UInt256) (calm : σ → Prop) : Prop where
  result_eq : ∀ slot ∈ slots, ∀ s, calm s → ((read slot).outcome s).1 = answer slot
  calm_after : ∀ slot ∈ slots, ∀ s, calm s → calm ((read slot).outcome s).2

theorem Steady.of_cons {slot : UInt256} (h : Steady read answer (slot :: slots) calm) :
    Steady read answer slots calm where
  result_eq slot' hm := h.result_eq slot' (List.mem_cons_of_mem _ hm)
  calm_after slot' hm := h.calm_after slot' (List.mem_cons_of_mem _ hm)

/-- Reading in turn gives the answers up to the first failure. -/
theorem Steady.result_readInTurn (h : Steady read answer slots calm) (hs : calm s) :
    ((readInTurn read slots).outcome s).1 = slots.mapM answer := by
  induction slots generalizing s with
  | nil => rfl
  | cons slot slots ih =>
    have hresult := h.result_eq slot List.mem_cons_self s hs
    have hrest := ih h.of_cons (h.calm_after slot List.mem_cons_self s hs)
    rw [readInTurn, Run.outcome_bind, List.mapM_cons, ← hresult, ← hrest]
    rcases (read slot).outcome s with ⟨e | word, t⟩
    · rfl
    · simp only [Run.outcome_bind]
      rcases (readInTurn read slots).outcome t with ⟨e | words, t'⟩ <;> rfl

namespace ReadWindow

variable {w w' : ReadWindow} {result : Result (List Word)}

/-! ## Steps of a window -/

/-- What a window may do next, and what that does to the state of the service. The next read starts
if there is room for it. Any read that is under way may finish, with what the service answers then.
The word of the first read is handed on once that read has finished. -/
inductive Step (read : UInt256 → Run σ Word) : ReadWindow × σ → ReadWindow × σ → Prop
  | start {slot : UInt256} {waiting : List UInt256}
    {started : List (UInt256 × Option (Result Word))} {words : List Word} {s : σ}
    (room : started.length < capacity) :
    Step read (⟨slot :: waiting, started, words⟩, s)
      (⟨waiting, started ++ [(slot, none)], words⟩, s)
  | finish {slot : UInt256} {waiting : List UInt256}
    {front back : List (UInt256 × Option (Result Word))} {words : List Word} {s : σ} :
    Step read (⟨waiting, front ++ (slot, none) :: back, words⟩, s)
      (⟨waiting, front ++ (slot, some ((read slot).outcome s).1) :: back, words⟩,
        ((read slot).outcome s).2)
  | handOn {slot : UInt256} {word : Word} {waiting : List UInt256}
    {rest : List (UInt256 × Option (Result Word))} {words : List Word} {s : σ} :
    Step read (⟨waiting, (slot, some (.ok word)) :: rest, words⟩, s)
      (⟨waiting, rest, word :: words⟩, s)

/-- A run of a window, step after step. -/
abbrev Steps (read : UInt256 → Run σ Word) : ReadWindow × σ → ReadWindow × σ → Prop :=
  Relation.ReflTransGen (Step read)

/-- A run ends when all words are handed on, or when the first read has failed. -/
inductive Ended : ReadWindow → Result (List Word) → Prop
  | returns (words : List Word) : Ended ⟨[], [], words⟩ (.ok words.reverse)
  | fails {slot : UInt256} {e : Error} {waiting : List UInt256}
    {rest : List (UInt256 × Option (Result Word))} {words : List Word} :
    Ended ⟨waiting, (slot, some (.error e)) :: rest, words⟩ (.error e)

/-! ### Reads begin once -/

/-- How many reads have begun: the ones whose words were handed on, and the ones that have started
and were not handed on. -/
def begun (w : ReadWindow) : Nat := w.words.length + w.started.length

/-- A step begins a read only for a slot that was waiting. -/
theorem Step.begun_add_waiting (h : Step read (w, s) (w', s')) :
    w'.begun + w'.waiting.length = w.begun + w.waiting.length := by
  cases h <;> simp [begun] <;> omega

/-- No run begins more reads than there are slots, also if it fails and drops reads that have not
finished. -/
theorem begun_le (h : Steps read (start slots, s) (w, s')) : w.begun ≤ slots.length := by
  suffices ∀ c, Steps read (start slots, s) c → c.1.begun + c.1.waiting.length = slots.length by
    have hsum : w.begun + w.waiting.length = slots.length := this _ h
    omega
  intro c hc
  induction hc with
  | refl => simp [begun, start]
  | tail _ hstep ih => rw [hstep.begun_add_waiting, ih]

/-! ### Runs end -/

/-- How many reads have yet to finish. -/
def unfinished (w : ReadWindow) : Nat :=
  w.waiting.length + w.started.countP (·.2.isNone)

/-- How many steps are left: those of reads that have yet to start, to finish, and to be handed
on. -/
def remaining (w : ReadWindow) : Nat :=
  w.waiting.length + w.unfinished + (w.waiting.length + w.started.length)

/-- Each step is one step less. -/
theorem Step.remaining_succ (h : Step read (w, s) (w', s')) : w'.remaining + 1 = w.remaining := by
  cases h <;> simp [remaining, unfinished] <;> omega

/-- A window that has not ended can go on. -/
theorem exists_ended_or_step (read : UInt256 → Run σ Word) (w : ReadWindow) (s : σ) :
    (∃ result, w.Ended result) ∨ ∃ w' s', Step read (w, s) (w', s') := by
  obtain ⟨waiting, started, words⟩ := w
  rcases started with _ | ⟨⟨slot, _ | e | word⟩, rest⟩
  · cases waiting with
    | nil => exact .inl ⟨_, .returns words⟩
    | cons slot waiting => exact .inr ⟨_, _, .start (by decide)⟩
  · have hfinish : Step read (⟨waiting, [] ++ (slot, none) :: rest, words⟩, s) _ := .finish
    exact .inr ⟨_, _, hfinish⟩
  · exact .inl ⟨_, .fails⟩
  · exact .inr ⟨_, _, .handOn⟩

/-- Every run can be brought to an end. -/
theorem exists_ended (read : UInt256 → Run σ Word) (w : ReadWindow) (s : σ) :
    ∃ w' s' result, Steps read (w, s) (w', s') ∧ w'.Ended result := by
  induction hn : w.remaining using Nat.strong_induction_on generalizing w s with
  | _ n ih =>
    rcases exists_ended_or_step read w s with ⟨result, hend⟩ | ⟨w', s', hstep⟩
    · exact ⟨w, s, result, .refl, hend⟩
    · have hleft := hstep.remaining_succ
      obtain ⟨w'', s'', result, hsteps, hend⟩ := ih w'.remaining (by omega) w' s' rfl
      exact ⟨w'', s'', result, .head hstep hsteps, hend⟩

/-! ### What a run ends with -/

/-- The reading of `slots` after the words of `handed` have been handed on, where every read that
has finished gave the answer for its slot. -/
structure Reading (answer : UInt256 → Result Word) (slots handed : List UInt256) (w : ReadWindow) :
    Prop where
  slots_eq : slots = handed ++ (w.started.map (·.1) ++ w.waiting)
  words_eq : handed.mapM answer = .ok w.words.reverse
  answered : ∀ slot outcome, (slot, some outcome) ∈ w.started → outcome = answer slot
  length_started_le : w.started.length ≤ capacity

theorem reading_start (answer : UInt256 → Result Word) (slots : List UInt256) :
    Reading answer slots [] (start slots) where
  slots_eq := by simp [start]
  words_eq := rfl
  answered := by simp [start]
  length_started_le := by simp [start]

/-- A step goes on with the reading. -/
theorem Reading.step {handed : List UInt256} (h : Reading answer slots handed w)
    (hread : Steady read answer slots calm) (hs : calm s) (hstep : Step read (w, s) (w', s')) :
    (∃ handed', Reading answer slots handed' w') ∧ calm s' := by
  have hmem : ∀ entry ∈ w.started, entry.1 ∈ slots := by
    intro entry hm
    rw [h.slots_eq]
    exact List.mem_append_right _ (List.mem_append_left _ (List.mem_map_of_mem hm))
  cases hstep with
  | start room =>
    refine ⟨⟨handed, by simpa using h.slots_eq, h.words_eq, ?_, ?_⟩, hs⟩
    · intro slot outcome hm
      exact h.answered slot outcome (by simpa using hm)
    · rw [List.length_append]
      exact room
  | @finish slot _ front back =>
    -- Only here the service is asked: for one of the slots, in a state that reads do not leave.
    have hslot : slot ∈ slots := hmem (slot, none) (by simp)
    have hlength := h.length_started_le
    refine ⟨⟨handed, by simpa using h.slots_eq, h.words_eq, ?_, by simpa using hlength⟩,
      hread.calm_after slot hslot s hs⟩
    intro slot' outcome hm
    rcases List.mem_append.1 hm with hm | hm
    · exact h.answered slot' outcome (List.mem_append_left _ hm)
    · rcases List.mem_cons.1 hm with heq | hm
      · cases heq
        exact hread.result_eq slot hslot s hs
      · exact h.answered slot' outcome (List.mem_append_right _ (List.mem_cons_of_mem _ hm))
  | @handOn slot word _ rest words =>
    have hanswer := h.answered slot (.ok word) List.mem_cons_self
    refine ⟨⟨handed ++ [slot], by simpa using h.slots_eq, ?_, ?_, ?_⟩, hs⟩
    · have hwords : handed.mapM answer = .ok words.reverse := h.words_eq
      rw [List.mapM_append, hwords, List.mapM_cons, ← hanswer, List.reverse_cons]
      rfl
    · intro slot' outcome hm
      exact h.answered slot' outcome (List.mem_cons_of_mem _ hm)
    · exact le_trans (Nat.le_succ _) h.length_started_le

/-- A run goes on with the reading. -/
theorem Reading.steps {handed : List UInt256} (h : Reading answer slots handed w)
    (hread : Steady read answer slots calm) (hs : calm s) (hsteps : Steps read (w, s) (w', s')) :
    ∃ handed', Reading answer slots handed' w' := by
  suffices ∀ c, Steps read (w, s) c → (∃ handed', Reading answer slots handed' c.1) ∧ calm c.2 from
    (this _ hsteps).1
  intro c hc
  induction hc with
  | refl => exact ⟨⟨handed, h⟩, hs⟩
  | tail _ hstep ih =>
    obtain ⟨⟨handed', h'⟩, hs'⟩ := ih
    exact h'.step hread hs' hstep

/-- A run ends with the words that the slots are read with, or with the failure of the first slot
that cannot be read. -/
theorem Reading.result_eq {handed : List UInt256} (h : Reading answer slots handed w)
    (hend : w.Ended result) : result = slots.mapM answer := by
  cases hend with
  | returns words =>
    have hslots : slots = handed := by simpa using h.slots_eq
    exact hslots ▸ h.words_eq.symm
  | @fails slot e waiting rest words =>
    have hanswer := h.answered slot (.error e) List.mem_cons_self
    rw [h.slots_eq, List.mapM_append, h.words_eq, List.map_cons, List.cons_append, List.mapM_cons,
      ← hanswer]
    rfl

/-! ## Runs by a schedule -/

theorem unfinished_fill (w : ReadWindow) : w.fill.unfinished = w.unfinished := by
  have hnone : ∀ slots : List UInt256,
      (slots.map fun slot => ((slot, none) : UInt256 × Option (Result Word))).countP (·.2.isNone) =
        slots.length := by
    intro slots
    simp
  simp only [unfinished, fill, List.length_drop, List.countP_append, hnone, List.length_take]
  omega

/-- Filling a window starts reads. -/
theorem steps_fill (read : UInt256 → Run σ Word) (w : ReadWindow) (s : σ) :
    Steps read (w, s) (w.fill, s) := by
  obtain ⟨waiting, started, words⟩ := w
  induction waiting generalizing started with
  | nil =>
    simp only [fill, List.drop_nil, List.take_nil, List.map_nil, List.append_nil]
    exact .refl
  | cons slot waiting ih =>
    by_cases room : started.length < capacity
    · obtain ⟨n, hn⟩ : ∃ n, capacity - started.length = n + 1 :=
        ⟨capacity - started.length - 1, by omega⟩
      have hn' : capacity - (started.length + 1) = n := by omega
      have hfill : fill ⟨slot :: waiting, started, words⟩ =
          fill ⟨waiting, started ++ [(slot, none)], words⟩ := by
        simp [fill, hn, hn']
      rw [hfill]
      exact .head (.start room) (ih _)
    · have hfull : capacity - started.length = 0 := by omega
      simp only [fill, hfull, List.drop_zero, List.take_zero, List.map_nil, List.append_nil]
      exact .refl

/-- The first of the started reads is under way. -/
def Drained (w : ReadWindow) : Prop := ∀ entry ∈ w.started.head?, entry.2 = none

/-- Draining hands on words, up to a read under way or to a failure. -/
theorem exists_steps_drain (read : UInt256 → Run σ Word) (w : ReadWindow) (s : σ) :
    (∃ started words, drain w.started w.words = .ok (started, words) ∧
      Steps read (w, s) (⟨w.waiting, started, words⟩, s) ∧
      unfinished ⟨w.waiting, started, words⟩ = w.unfinished ∧
      Drained ⟨w.waiting, started, words⟩) ∨
    ∃ e w', drain w.started w.words = .error e ∧ Steps read (w, s) (w', s) ∧
      w'.Ended (.error e) := by
  obtain ⟨waiting, started, words⟩ := w
  induction started generalizing words with
  | nil => exact .inl ⟨[], words, rfl, .refl, rfl, by simp [Drained]⟩
  | cons entry rest ih =>
    rcases entry with ⟨slot, _ | e | word⟩
    · exact .inl ⟨_, words, rfl, .refl, rfl, by simp [Drained]⟩
    · exact .inr ⟨e, _, rfl, .refl, .fails⟩
    · rcases ih (word :: words) with ⟨started, words', hdrain, hsteps, hcount, hd⟩ |
        ⟨e, w', hdrain, hsteps, hend⟩
      · refine .inl ⟨started, words', hdrain, .head .handOn hsteps, ?_, hd⟩
        rw [hcount]
        simp [unfinished]
      · exact .inr ⟨e, w', hdrain, .head .handOn hsteps, hend⟩

theorem mem_underWay {place : Nat} :
    place ∈ w.underWay ↔ ∃ slot, w.started[place]? = some (slot, none) := by
  simp [underWay, List.mem_zipIdx_iff_getElem?]

/-- A filled window that has something left to read has a read under way. -/
theorem Drained.underWay_fill_ne_nil (h : w.Drained) (hpos : 0 < w.unfinished) :
    w.fill.underWay ≠ [] := by
  obtain ⟨waiting, started, words⟩ := w
  have hfirst : ∃ slot, (fill ⟨waiting, started, words⟩).started[0]? = some (slot, none) := by
    rcases started with _ | ⟨⟨slot, outcome⟩, rest⟩
    · cases waiting with
      | nil => simp [unfinished] at hpos
      | cons slot waiting => exact ⟨slot, by simp [fill, capacity]⟩
    · obtain rfl : outcome = none := h (slot, outcome) (by simp)
      exact ⟨slot, by simp [fill]⟩
  exact List.ne_nil_of_mem (mem_underWay.2 hfirst)

theorem getD_min_mem {places : List Nat} (h : places ≠ []) (i : Nat) :
    places.getD (min i (places.length - 1)) 0 ∈ places := by
  have hlt : min i (places.length - 1) < places.length := by
    have := List.length_pos_of_ne_nil h
    omega
  rw [List.getD_eq_getElem?_getD, List.getElem?_eq_getElem hlt]
  exact List.getElem_mem hlt

/-- A read that is under way finishes, and what it made possible is handed on. -/
theorem exists_steps_finish (read : UInt256 → Run σ Word) {place : Nat} {slot : UInt256}
    (h : w.started[place]? = some (slot, none)) (s : σ) :
    let outcome := (read slot).outcome s
    (∃ w', w.finish place outcome.1 = .ok w' ∧ Steps read (w, s) (w', outcome.2) ∧
      w'.unfinished + 1 = w.unfinished ∧ w'.Drained) ∨
    ∃ e w', w.finish place outcome.1 = .error e ∧ Steps read (w, s) (w', outcome.2) ∧
      w'.Ended (.error e) := by
  intro outcome
  obtain ⟨waiting, started, words⟩ := w
  obtain ⟨hlt, hget⟩ := List.getElem?_eq_some_iff.1 h
  have hsplit : started = started.take place ++ (slot, none) :: started.drop (place + 1) := by
    rw [← hget, ← List.drop_eq_getElem_cons hlt, List.take_append_drop]
  rw [finish, List.modify_eq_take_cons_drop hlt, hget]
  generalize started.take place = front at hsplit ⊢
  generalize started.drop (place + 1) = back at hsplit ⊢
  subst hsplit
  have hstep : Step read (⟨waiting, front ++ (slot, none) :: back, words⟩, s)
      (⟨waiting, front ++ (slot, some outcome.1) :: back, words⟩, outcome.2) := .finish
  rcases exists_steps_drain read ⟨waiting, front ++ (slot, some outcome.1) :: back, words⟩
    outcome.2 with ⟨started, words', hdrain, hsteps, hcount, hd⟩ | ⟨e, w', hdrain, hsteps, hend⟩
  · refine .inl ⟨⟨waiting, started, words'⟩, by rw [hdrain]; rfl, .head hstep hsteps, ?_, hd⟩
    rw [hcount]
    simp [unfinished]
    omega
  · exact .inr ⟨e, w', by rw [hdrain]; rfl, .head hstep hsteps, hend⟩

/-- Letting the reads finish by a schedule is a run of the window, up to its end. -/
theorem exists_steps_complete (read : UInt256 → Run σ Word) (schedule : Schedule) {count : Nat}
    (w : ReadWindow) (s : σ) (hd : w.Drained) (hc : w.unfinished = count) :
    ∃ w', Steps read (w, s) (w', ((complete read schedule count w).outcome s).2) ∧
      w'.Ended ((complete read schedule count w).outcome s).1 := by
  -- The count is that of unfinished reads, so one is under way until there is nothing left to read.
  induction count generalizing w s with
  | zero =>
    obtain ⟨waiting, started, words⟩ := w
    obtain ⟨rfl, hnone⟩ : waiting = [] ∧ started.countP (·.2.isNone) = 0 := by
      simpa [unfinished, List.length_eq_zero_iff] using hc
    cases started with
    | nil => exact ⟨_, .refl, .returns words⟩
    | cons entry rest =>
      have hfirst := hd entry rfl
      simp [hfirst] at hnone
  | succ count ih =>
    have hne := hd.underWay_fill_ne_nil (by omega)
    obtain ⟨slot, hslot⟩ := mem_underWay.1 (getD_min_mem hne (schedule count))
    rw [outcome_complete_succ read rfl hslot]
    rcases exists_steps_finish read hslot s with
      ⟨w', hfinish, hsteps, hcount, hd'⟩ | ⟨e, w', hfinish, hsteps, hend⟩
    · rw [unfinished_fill, hc] at hcount
      obtain ⟨w'', hmore, hend⟩ := ih w' ((read slot).outcome s).2 hd' (by omega)
      rw [hfinish]
      exact ⟨w'', (steps_fill read w s).trans (hsteps.trans hmore), hend⟩
    · rw [hfinish]
      exact ⟨w', (steps_fill read w s).trans hsteps, hend⟩

/-- Reading by a schedule is one of the runs of a window, and gives what that run ends with. -/
theorem exists_steps_read (read : UInt256 → Run σ Word) (schedule : Schedule)
    (slots : List UInt256) (s : σ) :
    ∃ w, Steps read (start slots, s) (w, ((ReadWindow.read read schedule slots).outcome s).2) ∧
      w.Ended ((ReadWindow.read read schedule slots).outcome s).1 :=
  exists_steps_complete read schedule (start slots) s (by simp [Drained, start])
    (by simp [unfinished, start])

/-- If every slot is read with the same outcome whenever it is read, then reading by any schedule
gives these outcomes. -/
theorem result_read (hread : Steady read answer slots calm) (hs : calm s) (schedule : Schedule) :
    ((ReadWindow.read read schedule slots).outcome s).1 = slots.mapM answer := by
  obtain ⟨w, hsteps, hend⟩ := exists_steps_read read schedule slots s
  obtain ⟨handed, h⟩ := (reading_start answer slots).steps hread hs hsteps
  exact h.result_eq hend

end ReadWindow

/-! ## Values -/

namespace StoredValue

open ReadWindow

variable {service : Service σ β} {block : β} {v : StoredValue} {schedule : Schedule} {length : Nat}

/-- The bytes of a long value, for what its data slots are read with. -/
def spanOf (length : Nat) (words : Result (List Word)) : Result Bytes :=
  words.map fun words => (words.flatMap (·.toList)).take length

theorem result_bind_span {m : Run σ (List Word)} :
    ((m >>= fun words => pure ((words.flatMap (·.toList)).take length)).outcome s).1 =
      spanOf length (m.outcome s).1 := by
  rw [Run.outcome_bind]
  rcases m.outcome s with ⟨_ | _, _⟩ <;> rfl

/-- A long value is what the answers for its data slots tell. -/
theorem result_fetch_of_steady (hspan : v.access = .span length)
    (hread : Steady (service.read block v.address) answer v.data calm) (hs : calm s) :
    ((v.fetch service block).outcome s).1 = spanOf length (v.data.mapM answer) := by
  rw [outcome_fetch_span hspan, result_bind_span, hread.result_readInTurn hs]

/-- So it is if the reads finish in the order of a schedule. -/
theorem result_fetch_of_steady_parallel (schedule : Schedule) (hspan : v.access = .span length)
    (hp : v.parallelReads = true)
    (hread : Steady (service.read block v.address) answer v.data calm) (hs : calm s) :
    ((v.fetch service block schedule).outcome s).1 = spanOf length (v.data.mapM answer) := by
  simp only [fetch, hspan, hp, if_true]
  rw [result_bind_span, result_read hread hs]

theorem mapError_spanOf_eq_ok_iff {bytes : Bytes} {data : List UInt256} :
    (spanOf length (data.mapM answer)).mapError Error.memoized = .ok bytes ↔
      ∃ words, List.Forall₂ (fun slot word => answer slot = .ok word) data words ∧
        bytes = (words.flatMap (·.toList)).take length := by
  simp only [Except.mapError_eq_ok_iff, spanOf, Except.map_eq_ok_iff, Except.mapM_eq_ok_iff,
    eq_comm (a := bytes)]

theorem mapError_spanOf_eq_error_iff {e : Error} {data : List UInt256} :
    (spanOf length (data.mapM answer)).mapError Error.memoized = .error e ↔
      ∃ done slot rest cause, data = done ++ slot :: rest ∧
        (∀ slot' ∈ done, ∃ word, answer slot' = .ok word) ∧ answer slot = .error cause ∧
        e = .memoized cause := by
  simp only [Except.mapError_eq_error_iff, spanOf, Except.map_eq_error_iff,
    Except.mapM_eq_error_iff]
  constructor
  · intro h
    obtain ⟨cause, ⟨done, slot, rest, hdata, hdone, hslot⟩, rfl⟩ := h
    exact ⟨done, slot, rest, cause, hdata, hdone, hslot, rfl⟩
  · intro h
    obtain ⟨done, slot, rest, cause, hdata, hdone, hslot, rfl⟩ := h
    exact ⟨cause, ⟨done, slot, rest, hdata, hdone, hslot⟩, rfl⟩

/-- **The order in which reads finish does not matter.** Let a service give every data slot of a
long value the same answer whenever it is asked, be it a word or a failure. Then the value that is
read several slots at a time, by any schedule, is the value that is read slot after slot: the bytes
of all words, or the failure of the first data slot that cannot be read. So it is for every run of
the window, whatever decides about its order: no more reads are started and not handed on than there
is room for, the run can be brought to an end, and every end it may come to is that of reading in
turn. -/
theorem value_of_steady (hspan : v.access = .span length)
    (hread : Steady (service.read block v.address) answer v.data calm) (hs : calm s) :
    let inTurn := { v with parallelReads := false }
    let atOnce := { v with parallelReads := true }
    let read := service.read block v.address
    (∀ schedule,
      ((atOnce.value service block schedule).run s).run.1.1 =
        ((inTurn.value service block).run s).run.1.1 ∧
      ((atOnce.value service block schedule).run s).run.1.2.outcome =
        ((inTurn.value service block).run s).run.1.2.outcome) ∧
    (v.outcome = none →
      (∀ bytes, ((inTurn.value service block).run s).run.1.1 = .ok bytes ↔
        ∃ words, List.Forall₂ (fun slot word => answer slot = .ok word) v.data words ∧
          bytes = (words.flatMap (·.toList)).take length) ∧
      ∀ e, ((inTurn.value service block).run s).run.1.1 = .error e ↔
        ∃ done slot rest cause, v.data = done ++ slot :: rest ∧
          (∀ slot' ∈ done, ∃ word, answer slot' = .ok word) ∧ answer slot = .error cause ∧
          e = .memoized cause) ∧
    ∀ w t, Steps read (start v.data, s) (w, t) →
      w.started.length ≤ capacity ∧
      (∀ result, w.Ended result → result = ((readInTurn read v.data).outcome s).1) ∧
      ∃ w' t' result, Steps read (w, t) (w', t') ∧ w'.Ended result := by
  intro inTurn atOnce read
  have hinTurn := result_fetch_of_steady (v := inTurn) hspan hread hs
  refine ⟨?schedules, ?answers, ?runs⟩
  case schedules =>
    intro schedule
    have hatOnce := result_fetch_of_steady_parallel (v := atOnce) schedule hspan rfl hread hs
    cases hv : v.outcome with
    | some outcome => simp [value, inTurn, atOnce, hv]
    | none =>
      rw [run_value (v := atOnce) hv, run_value (v := inTurn) hv, hatOnce, hinTurn]
      exact ⟨rfl, rfl⟩
  case answers =>
    intro hv
    rw [run_value (v := inTurn) hv, hinTurn]
    exact ⟨fun bytes => mapError_spanOf_eq_ok_iff, fun e => mapError_spanOf_eq_error_iff⟩
  case runs =>
    intro w t hsteps
    obtain ⟨handed, h⟩ := (reading_start answer v.data).steps hread hs hsteps
    refine ⟨h.length_started_le, ?_, exists_ended read w t⟩
    intro result hend
    rw [hread.result_readInTurn hs]
    exact h.result_eq hend

/-- A service that has a word at every even slot, and fails to read the others. -/
def evenOnly : Service Unit Unit where
  provableBlock := pure ()
  storageAt _ _ slot :=
    if slot.toNat % 2 = 0 then pure (UInt256.toWord slot) else throw s!"no slot {slot.toNat}"
  proofs _ _ _ := throw "no proofs"
  encodeProof _ _ := .error (.encoding "no proofs")

/-- Of the reads under way, the one for the last slot always finishes first; still the failure is
that of the first slot that cannot be read. -/
theorem value_of_steady_evenOnly :
    let v : StoredValue := ⟨.zero, 0, [0, 2, 1, 4, 3], true, .span 160, true, none⟩
    ((v.value evenOnly () id).run ()).run.1.1 = .error (.memoized (.io "no slot 1")) := by
  intro v
  let answer : UInt256 → Result Word := fun slot =>
    if slot.toNat % 2 = 0 then .ok (UInt256.toWord slot) else .error (.io s!"no slot {slot.toNat}")
  have hread : Steady (evenOnly.read () v.address) answer v.data fun _ => True := by
    refine ⟨?_, fun _ _ _ _ => trivial⟩
    intro slot _ s _
    simp only [evenOnly, Service.read, Service.outcome_ask, answer]
    split <;> rfl
  have hspan : v.access = .span 160 := rfl
  obtain ⟨hschedules, hanswers, -⟩ := value_of_steady hspan hread (s := ()) trivial
  refine (hschedules id).1.trans (((hanswers rfl).2 _).2 ?_)
  refine ⟨[0, 2], 1, [4, 3], _, rfl, ?_, rfl, rfl⟩
  intro slot hm
  rcases List.mem_pair.1 hm with rfl | rfl <;> exact ⟨_, rfl⟩

end StoredValue

end StorageGateway
