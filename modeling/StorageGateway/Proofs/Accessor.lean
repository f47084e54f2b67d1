import StorageGateway.Proofs.Failures
import StorageGateway.Proofs.Simulated
import StorageGateway.Simulated.Change

/-!
# The bytes of a value over time

A value that was resolved on a simulated chain may be asked for its bytes at any later time and any
number of times, also by several callers at once, while storage is written and failures are switched
on and off in between. The first asking reads the bytes and settles the outcome; how many reads that
takes is decided by the way to the bytes and by whether reads fail then. No later asking reads
anything.

## Main definitions

* `HistoryStep`, `SimulatedChain.history` — changes and askings, one after the other.
* `StoredValue.firstReads` — how many reads the first asking takes.
* `StoredValue.Remembers` — what a value has answered, and the value itself.

## Main statements

* `SimulatedChain.firstReads_of_resolve` — how many reads the first asking takes.
* `StoredValue.Remembers.step` — a step of a history.
* `SimulatedChain.history_of_resolve` — the first answer is the answer for ever.
-/

namespace StorageGateway

namespace StoredValue

/-- How many reads the first asking for the bytes takes. -/
def firstReads (v : StoredValue) (failing : Bool) : Nat :=
  match v.access with
  | .word => 1
  | .inline _ => 0
  | .span _ => if failing then min 1 v.data.length else v.data.length

/-- What a value has answered so far, and the value itself: it has not been asked yet, or it was
read once and keeps what came of it, which is an error only if a collaborator failed. -/
inductive Remembers (v : StoredValue) : List (Result Bytes) → StoredValue → Prop
  | nothing : Remembers v [] v
  | outcome (r : Result Bytes) (count : Nat)
    (h : ∀ e, r = .error e → ∃ failure, e = .io failure) :
    Remembers v (List.replicate (count + 1) (r.mapError .memoized)) { v with outcome := some r }

end StoredValue

namespace SimulatedChain

variable {c c' : SimulatedChain} {v v' : StoredValue} {block : BitVec 64}
  {answers : List (Result Bytes)} {r : Result Bytes}

/-! ## Reading the bytes -/

/-- Reading in turn only counts reads, up to the first one that fails. -/
theorem state_readInTurn (block : BitVec 64) (address : Address) (slots : List UInt256)
    (c : SimulatedChain) :
    ((readInTurn (service.read block address) slots).outcome c).2 =
      { c with reads := c.reads + if c.failReads then min 1 slots.length else slots.length } := by
  by_cases hf : c.failReads = true
  · rw [if_pos hf]
    cases slots with
    | nil => rfl
    | cons slot slots =>
      rw [fails_readInTurn hf block slot slots, List.length_cons, Nat.min_eq_left (by omega)]
  · have hread : (readInTurn (service.read block address) slots).Returns c _ _ :=
      returns_readInTurn.2 ⟨.inr (by simpa using hf), rfl, rfl⟩
    rw [hread, if_neg hf]

/-- Reading the bytes of a value only counts reads. -/
theorem state_fetch (block : BitVec 64) (v : StoredValue) (c : SimulatedChain) :
    ((v.fetch service block).outcome c).2 =
      { c with reads := c.reads + v.firstReads c.failReads } := by
  cases ha : v.access with
  | word =>
    have hread : ((service.read block v.address v.base).outcome c).2 =
        { c with reads := c.reads + 1 } := rfl
    simp only [StoredValue.fetch, StoredValue.firstReads, ha]
    rw [Run.state_bind_pure, hread]
  | inline value =>
    simp only [StoredValue.fetch, StoredValue.firstReads, ha]
    rfl
  | span length =>
    rw [StoredValue.outcome_fetch_span ha, Run.state_bind_pure, state_readInTurn]
    simp only [StoredValue.firstReads, ha]

/-- The flag of a base slot and the length word in it decide how many reads a first asking takes:
one for a value of fixed length, none for a short one, and one for each data slot of a long one, or
only for the first if reads fail. -/
theorem firstReads_of_resolve {config : Config} {address : Address} {base : BaseSlot}
    (h : (StoredValue.resolve service config block address base).Returns c v c') (failing : Bool) :
    let told := LengthWord.ofWord base.slot (c.storage.word address base.slot) config.maxValueLength
    (base.isDynamic = false ∧ v.firstReads failing = 1) ∨
    (base.isDynamic = true ∧ (∃ value, told = .ok (.short value)) ∧ v.firstReads failing = 0) ∨
    (base.isDynamic = true ∧ (∃ length, told = .ok (.long length v.data)) ∧
      v.firstReads failing = if failing then min 1 v.data.length else v.data.length) := by
  intro told
  rcases StoredValue.returns_resolve.1 h with ⟨hd, rfl, -⟩ | ⟨hd, word, length, hr, hw, rfl⟩
  · exact .inl ⟨hd, rfl⟩
  · obtain ⟨-, rfl, -⟩ := returns_read.1 hr
    cases length with
    | short value => exact .inr (.inl ⟨hd, ⟨value, hw⟩, rfl⟩)
    | long length data => exact .inr (.inr ⟨hd, ⟨length, hw⟩, rfl⟩)

/-! ## Histories -/

/-- A step in the history of a value. -/
inductive HistoryStep where
  /-- The chain changes. -/
  | alter (change : Change)
  /-- Some callers ask for the bytes together. -/
  | ask (callers : Nat)
deriving DecidableEq

/-- How many callers ask for the bytes in a step. -/
def HistoryStep.callers : HistoryStep → Nat
  | .alter _ => 0
  | .ask callers => callers

/-- The answers to some callers, each of whom finds the value as the one before left it. -/
def askAll (block : BitVec 64) : (callers : Nat) → SimulatedChain → StoredValue →
    List (Result Bytes) × SimulatedChain × StoredValue
  | 0, c, v => ([], c, v)
  | callers + 1, c, v =>
    let ((answer, v), c) := ((v.value service block).run c).run
    let (answers, c, v) := askAll block callers c v
    (answer :: answers, c, v)

/-- The answers of a step, and the chain and the value after it. -/
def HistoryStep.run (block : BitVec 64) : HistoryStep → SimulatedChain → StoredValue →
    List (Result Bytes) × SimulatedChain × StoredValue
  | .alter change, c, v => ([], change.apply c, v)
  | .ask callers, c, v => askAll block callers c v

/-- The answers of a history, in order, and the chain and the value after it. -/
def history (block : BitVec 64) : List HistoryStep → SimulatedChain → StoredValue →
    List (Result Bytes) × SimulatedChain × StoredValue
  | [], c, v => ([], c, v)
  | step :: steps, c, v =>
    let (answers, c, v) := step.run block c v
    let (more, c, v) := history block steps c v
    (answers ++ more, c, v)

theorem history_append (front back : List HistoryStep) :
    history block (front ++ back) c v =
      ((history block front c v).1 ++
          (history block back (history block front c v).2.1 (history block front c v).2.2).1,
        (history block back (history block front c v).2.1 (history block front c v).2.2).2) := by
  induction front generalizing c v with
  | nil => rfl
  | cons step front ih => simp [history, ih, List.append_assoc]

theorem history_singleton (step : HistoryStep) :
    history block [step] c v = step.run block c v := by
  simp [history]

/-- Once the outcome is settled, callers get it without any read. -/
theorem askAll_of_outcome (h : v.outcome = some r) (callers : Nat) :
    askAll block callers c v = (List.replicate callers (r.mapError .memoized), c, v) := by
  induction callers with
  | zero => rfl
  | succ callers ih =>
    have hvalue : ((v.value service block).run c).run = ((r.mapError .memoized, v), c) := by
      rw [StoredValue.value, h]
      rfl
    simp [askAll, hvalue, ih, List.replicate_succ]

/-- The first caller reads the bytes, and the others get what came of it. -/
theorem askAll_first (h : v.outcome = none) (callers : Nat) :
    askAll block (callers + 1) c v =
      (List.replicate (callers + 1) (((v.fetch service block).outcome c).1.mapError .memoized),
        { c with reads := c.reads + v.firstReads c.failReads },
        { v with outcome := some ((v.fetch service block).outcome c).1 }) := by
  rw [askAll, StoredValue.run_value h, state_fetch]
  dsimp only
  rw [askAll_of_outcome rfl, List.replicate_succ]

end SimulatedChain

namespace StoredValue.Remembers

open SimulatedChain

variable {v v' : StoredValue} {answers : List (Result Bytes)}

/-- A step of a history: what was answered stays the answer, and only a first asking reads. -/
theorem step (h : v.Remembers answers v') (hv : v.outcome = none) (block : BitVec 64)
    (c : SimulatedChain) (step : HistoryStep) :
    v.Remembers (answers ++ (step.run block c v').1) (step.run block c v').2.2 ∧
      (step.run block c v').2.1.reads = c.reads +
        if answers = [] ∧ 0 < step.callers then v.firstReads c.failReads else 0 := by
  cases step with
  | alter change =>
    have hreads : (change.apply c).reads = c.reads := by cases change <;> rfl
    rw [HistoryStep.run, List.append_nil]
    exact ⟨h, by simp [HistoryStep.callers, hreads]⟩
  | ask callers =>
    rw [HistoryStep.run, HistoryStep.callers]
    cases h with
    | nothing =>
      cases callers with
      | zero => exact ⟨.nothing, by simp [askAll]⟩
      | succ callers =>
        -- The only case in which anything is read.
        rw [askAll_first hv, List.nil_append]
        refine ⟨.outcome _ callers ?_, by simp⟩
        intro e he
        have hfails : (v.fetch service block).Fails c e _ := Prod.ext he rfl
        exact StoredValue.fails_fetch hfails
    | outcome r count hr =>
      have hnil : ¬ List.replicate (count + 1) (r.mapError Error.memoized) = [] := by simp
      rw [askAll_of_outcome rfl, List.replicate_append_replicate, Nat.add_right_comm]
      exact ⟨.outcome r _ hr, by simp⟩

/-- A whole history. -/
theorem history (h : v.Remembers answers v') (hv : v.outcome = none) (block : BitVec 64)
    (c : SimulatedChain) (steps : List HistoryStep) :
    v.Remembers (answers ++ (history block steps c v').1) (history block steps c v').2.2 := by
  induction steps generalizing c v' answers with
  | nil =>
    rw [SimulatedChain.history, List.append_nil]
    exact h
  | cons step steps ih =>
    have hsteps := ih (h.step hv block c step).1 (step.run block c v').2.1
    rw [List.append_assoc] at hsteps
    exact hsteps

theorem slots_eq (h : v.Remembers answers v') : v'.slots = v.slots := by
  cases h <;> rfl

theorem head?_eq (h : v.Remembers answers v') {r : Result Bytes} (hr : r ∈ answers) :
    answers.head? = some r := by
  cases h with
  | nothing => cases hr
  | outcome first count _ => rw [List.replicate_succ, List.head?_cons, List.eq_of_mem_replicate hr]

/-- Only a collaborator makes an answer fail. -/
theorem exists_failure (h : v.Remembers answers v') {e : Error} (he : .error e ∈ answers) :
    ∃ failure, e = .memoized (.io failure) := by
  cases h with
  | nothing => cases he
  | outcome r count hr =>
    obtain ⟨cause, hcause, rfl⟩ := Except.mapError_eq_error_iff.1 (List.eq_of_mem_replicate he).symm
    obtain ⟨failure, rfl⟩ := hr cause hcause
    exact ⟨failure, rfl⟩

end StoredValue.Remembers

namespace SimulatedChain

/-- **The first answer is the answer for ever.** Whatever happens to the chain after a value was
resolved, and whenever and by how many callers it is asked for its bytes: all answers are the first
one, and if they fail, reading failed. The slots of the value never change. In any step only the
first asking adds to the reads, and the word at the base slot when the value was resolved decides
how many: none for a short value, one for a value of fixed length, and one for each data slot of a
long value, of which only the first is read if reads fail. -/
theorem history_of_resolve {config : Config} {block : BitVec 64} {address : Address}
    {base : BaseSlot} {c c' : SimulatedChain} {v : StoredValue}
    (h : (StoredValue.resolve service config block address base).Returns c v c')
    (steps : List HistoryStep) :
    let (answers, later, v') := history block steps c' v
    let told := LengthWord.ofWord base.slot (c.storage.word address base.slot) config.maxValueLength
    (∀ r ∈ answers, answers.head? = some r) ∧
    (∀ e, .error e ∈ answers → ∃ failure, e = .memoized (.io failure)) ∧
    v'.slots = v.slots ∧
    (∀ step, (history block (steps ++ [step]) c' v).2.1.reads = later.reads +
      if answers = [] ∧ 0 < step.callers then v.firstReads later.failReads else 0) ∧
    ∀ failing,
      (base.isDynamic = false ∧ v.firstReads failing = 1) ∨
      (base.isDynamic = true ∧ (∃ value, told = .ok (.short value)) ∧ v.firstReads failing = 0) ∨
      (base.isDynamic = true ∧ (∃ length, told = .ok (.long length v.data)) ∧
        v.firstReads failing = if failing then min 1 v.data.length else v.data.length) := by
  have hv := StoredValue.outcome_eq_none h
  have hend := StoredValue.Remembers.nothing.history hv block c' steps
  rw [List.nil_append] at hend
  refine ⟨fun r hr => hend.head?_eq hr, fun e he => hend.exists_failure he, hend.slots_eq, ?_,
    firstReads_of_resolve h⟩
  intro step
  rw [history_append, history_singleton]
  exact (hend.step hv block _ step).2

/-- Two callers ask for a value of 33 bytes while reads fail: one of its two data slots is read,
after its base slot. -/
theorem history_of_resolve_failing :
    ∃ v c',
      (StoredValue.resolve service {} 1 .zero ⟨0, true⟩).Returns (uniform (longWord 33)) v c' ∧
      (history 1 [.alter (.failReads true), .ask 2] c' v).2.1.reads = 2 := by
  have hresolve : (StoredValue.resolve service {} 1 .zero ⟨0, true⟩).Returns (uniform (longWord 33))
      (.ofLength {} .zero 0 (.long 33 (dataSlots 0 2)))
      { uniform (longWord 33) with reads := 1 } :=
    StoredValue.returns_resolve.2 (.inr ⟨rfl, _, _, returns_read.2 ⟨rfl, rfl, rfl⟩, rfl, rfl⟩)
  obtain ⟨-, -, -, hreads, -⟩ := history_of_resolve hresolve [.alter (.failReads true)]
  refine ⟨_, _, hresolve, (hreads (.ask 2)).trans ?_⟩
  rw [if_pos ⟨rfl, by decide⟩]
  simp [StoredValue.firstReads, StoredValue.ofLength, Change.apply]

end SimulatedChain

end StorageGateway
