import StorageGateway.Proofs.Accessor
import StorageGateway.Proofs.Compositional
import StorageGateway.Proofs.Recording
import StorageGateway.Proofs.Window

/-!
# How much a request asks of the service

How long a value is, the chain tells: a length word may announce a value of up to `2 ^ 255` bytes.
The configuration keeps the work of a request within limits nevertheless. A length above the limit
is an error before any of the bytes is read, so a command takes one read for its base slot and one
for each data slot of a value that is not too long, and a target takes one question for a proof.
The limits hold for whatever a service answers, and also for requests that fail.

The work is told by the record of the questions, which holds answered ones and failed ones. Of a
window that fails, the record does not hold the reads that have started and are dropped; these are
within the limits too, in whatever order the reads of a window finish.

## Main definitions

* `Work` — reads, fetched proofs and slots of these proofs.
* `Run.Costs` — what a recorded computation adds to the record.
* `Config.maxWork` — the limit for one target.
* `Gateway.Begun` — how many reads have begun for a target.

## Main statements

* `Run.Costs.bind` — the work of a sequence.
* `ReadWindow.costs_read` — reading several slots at a time reads each of them at most once.
* `Gateway.work_le_maxWork` — the limits for a request.
-/

namespace StorageGateway

variable {σ β : Type}

/-! ## Work -/

/-- What a service is asked to do. -/
@[ext]
structure Work where
  /-- The words to read. -/
  reads : Nat
  /-- The proofs to fetch. -/
  fetches : Nat
  /-- The slots that the proofs are for, of all proofs together. -/
  slots : Nat

namespace Work

variable {v v' w w' : Work}

instance : Zero Work := ⟨⟨0, 0, 0⟩⟩

instance : Add Work := ⟨fun v w => ⟨v.reads + w.reads, v.fetches + w.fetches, v.slots + w.slots⟩⟩

/-- Some work is within some other if that has at least as much of each kind. -/
instance : LE Work := ⟨fun v w => v.reads ≤ w.reads ∧ v.fetches ≤ w.fetches ∧ v.slots ≤ w.slots⟩

/-- The reading of words. -/
def ofReads (count : Nat) : Work := ⟨count, 0, 0⟩

/-- The same work several times. -/
def times (count : Nat) (w : Work) : Work :=
  ⟨count * w.reads, count * w.fetches, count * w.slots⟩

theorem le_def : v ≤ w ↔ v.reads ≤ w.reads ∧ v.fetches ≤ w.fetches ∧ v.slots ≤ w.slots := Iff.rfl

@[simp] theorem reads_zero : (0 : Work).reads = 0 := rfl
@[simp] theorem fetches_zero : (0 : Work).fetches = 0 := rfl
@[simp] theorem slots_zero : (0 : Work).slots = 0 := rfl
@[simp] theorem reads_add : (v + w).reads = v.reads + w.reads := rfl
@[simp] theorem fetches_add : (v + w).fetches = v.fetches + w.fetches := rfl
@[simp] theorem slots_add : (v + w).slots = v.slots + w.slots := rfl

@[simp] protected theorem add_zero : v + 0 = v := by ext <;> simp

@[simp] protected theorem zero_add : 0 + v = v := by ext <;> simp

protected theorem le_refl (w : Work) : w ≤ w := by simp [le_def]

protected theorem zero_le (w : Work) : 0 ≤ w := by simp [le_def]

protected theorem le_trans {u : Work} (h : u ≤ v) (h' : v ≤ w) : u ≤ w := by
  simp only [le_def] at *
  omega

protected theorem add_le_add (h : v ≤ v') (h' : w ≤ w') : v + w ≤ v' + w' := by
  simp only [le_def, reads_add, fetches_add, slots_add] at *
  omega

theorem times_succ (count : Nat) (w : Work) : w.times (count + 1) = w + w.times count := by
  ext <;> simp [times, Nat.succ_mul, Nat.add_comm]

theorem ofReads_le {m n : Nat} (h : m ≤ n) : ofReads m ≤ ofReads n := by simp [le_def, ofReads, h]

theorem ofReads_add (m n : Nat) : ofReads m + ofReads n = ofReads (m + n) := by
  ext <;> simp [ofReads]

end Work

/-- The work of a question. -/
def Event.work : Event β → Work
  | .provableBlock _ => 0
  | .storageAt .. => .ofReads 1
  | .proofs _ _ slots _ => ⟨0, 1, slots.length⟩

/-- The work of all questions of a record. -/
def workOf : List (Event β) → Work
  | [] => 0
  | event :: record => event.work + workOf record

@[simp] theorem workOf_nil : workOf ([] : List (Event β)) = 0 := rfl

theorem workOf_append (front back : List (Event β)) :
    workOf (front ++ back) = workOf front + workOf back := by
  induction front with
  | nil => simp [workOf]
  | cons event front ih => simp [workOf, ih, Work.ext_iff, Nat.add_assoc]

/-! ## Computations -/

namespace Run

variable {α γ : Type} {m : Run σ α} {m' : Run (σ × List (Event β)) α} {s : σ} {v w : Work}

/-- From `s`, the computation `m'` does what `m` does, and adds questions to the record whose work
is at most `w`. -/
def Costs (m : Run σ α) (m' : Run (σ × List (Event β)) α) (s : σ) (w : Work) : Prop :=
  ∀ record, ∃ events,
    m'.outcome (s, record) = ((m.outcome s).1, (m.outcome s).2, record ++ events) ∧
    workOf events ≤ w

theorem costs_ofResult (r : Result α) (s : σ) :
    (ofResult r).Costs (ofResult r : Run (σ × List (Event β)) α) s 0 := by
  intro record
  exact ⟨[], by simp, Work.le_refl 0⟩

theorem costs_pure (a : α) (s : σ) :
    (pure a : Run σ α).Costs (pure a : Run (σ × List (Event β)) α) s 0 :=
  costs_ofResult (.ok a) s

namespace Costs

theorem mono (h : m.Costs m' s v) (hvw : v ≤ w) : m.Costs m' s w := by
  intro record
  obtain ⟨events, ho, hv⟩ := h record
  exact ⟨events, ho, Work.le_trans hv hvw⟩

/-- A failure that becomes a result costs the same. -/
theorem attempt (h : m.Costs m' s w) : m.attempt.Costs m'.attempt s w := by
  intro record
  obtain ⟨events, ho, hw⟩ := h record
  exact ⟨events, by rw [outcome_attempt, outcome_attempt, ho], hw⟩

/-- A sequence costs what its parts cost; the second part is only run if the first returns. -/
theorem bind {f : α → Run σ γ} {f' : α → Run (σ × List (Event β)) γ} (h : m.Costs m' s v)
    (hf : ∀ a t, m.Returns s a t → (f a).Costs (f' a) t w) :
    (m >>= f).Costs (m' >>= f') s (v + w) := by
  intro record
  obtain ⟨events, ho, hv⟩ := h record
  rcases hm : m.outcome s with ⟨e | a, t⟩ <;> rw [hm] at ho
  · refine ⟨events, by rw [outcome_bind, ho, outcome_bind, hm], ?_⟩
    simpa using Work.add_le_add hv (Work.zero_le w)
  · obtain ⟨more, ho', hw⟩ := hf a t hm (record ++ events)
    refine ⟨events ++ more, ?_, ?_⟩
    · rw [outcome_bind, ho, outcome_bind, hm]
      simpa using ho'
    · rw [workOf_append]
      exact Work.add_le_add hv hw

/-- A result that is changed afterwards costs nothing more. -/
theorem bind_pure {f : α → γ} (h : m.Costs m' s w) :
    (m >>= fun a => pure (f a)).Costs (m' >>= fun a => pure (f a)) s w := by
  simpa using h.bind fun a t _ => costs_pure (f a) t

end Costs

/-- Computing a result first costs nothing. -/
theorem costs_ofResult_bind {r : Result α} {f : α → Run σ γ}
    {f' : α → Run (σ × List (Event β)) γ} (hf : ∀ a, r = .ok a → (f a).Costs (f' a) s w) :
    (ofResult r >>= f).Costs (ofResult r >>= f') s w := by
  rw [← Work.zero_add (v := w)]
  refine (costs_ofResult r s).bind fun a t ha => ?_
  obtain ⟨hr, rfl⟩ := returns_ofResult.1 ha
  exact hf a hr

end Run

/-- A recorded question costs its own work, answered or not. -/
theorem Query.costs_recorded {α : Type} (q : Query σ α) (event : Except Failure α → Event β)
    (s : σ) {w : Work} (h : ∀ answer, (event answer).work = w) :
    (Service.ask q).Costs (Service.ask (q.recorded event)) s w := by
  intro record
  refine ⟨[event (q.answer s).1], rfl, ?_⟩
  rw [workOf, h, workOf_nil, Work.add_zero]
  exact Work.le_refl w

namespace Service

variable (S : Service σ β) (b : β) (address : Address) (s : σ)

theorem costs_block : S.block.Costs S.recorded.block s 0 :=
  Query.costs_recorded _ _ s fun _ => rfl

theorem costs_read (slot : UInt256) :
    (S.read b address slot).Costs (S.recorded.read b address slot) s (.ofReads 1) :=
  Query.costs_recorded _ _ s fun _ => rfl

theorem costs_prove (slots : List UInt256) :
    (S.prove b address slots).Costs (S.recorded.prove b address slots) s ⟨0, 1, slots.length⟩ :=
  Query.costs_recorded _ _ s fun _ => rfl

end Service

/-! ## Reading several slots -/

section

variable {read : UInt256 → Run σ Word} {read' : UInt256 → Run (σ × List (Event β)) Word}
  (hread : ∀ slot s, (read slot).Costs (read' slot) s (.ofReads 1))

include hread

theorem costs_readInTurn (slots : List UInt256) (s : σ) :
    (readInTurn read slots).Costs (readInTurn read' slots) s (.ofReads slots.length) := by
  induction slots generalizing s with
  | nil => exact Run.costs_pure [] s
  | cons slot slots ih =>
    rw [List.length_cons, Nat.add_comm, ← Work.ofReads_add]
    exact (hread slot s).bind fun word t _ => (ih t).bind_pure

namespace ReadWindow

/-- Whatever read finishes next, and whatever came of it, one more read is done. -/
theorem costs_complete (schedule : Schedule) (count : Nat) (w : ReadWindow) (s : σ) :
    (complete read schedule count w).Costs (complete read' schedule count w) s
      (.ofReads count) := by
  induction count generalizing w s with
  | zero => exact Run.costs_pure _ s
  | succ count ih =>
    simp only [complete]
    split
    · exact (Run.costs_pure _ s).mono (Work.zero_le _)
    · next slot _ _ =>
      rw [Nat.add_comm, ← Work.ofReads_add]
      exact (hread slot s).attempt.bind fun outcome t _ =>
        Run.costs_ofResult_bind fun w' _ => ih w' t

/-- Reading several slots at a time reads each of them at most once, in whatever order the reads
finish. -/
theorem costs_read (schedule : Schedule) (slots : List UInt256) (s : σ) :
    (ReadWindow.read read schedule slots).Costs (ReadWindow.read read' schedule slots) s
      (.ofReads slots.length) :=
  costs_complete hread schedule slots.length (start slots) s

end ReadWindow

end

/-! ## Values -/

namespace StoredValue

variable {S : Service σ β} {config : Config} {b : β} {address : Address} {base : BaseSlot}
  {v : StoredValue} {s s' : σ}

/-- The bytes are read once, as in a first asking that no failure cuts short. -/
theorem costs_fetch (S : Service σ β) (b : β) (v : StoredValue) (schedule : ReadWindow.Schedule)
    (s : σ) :
    (v.fetch S b schedule).Costs (v.fetch S.recorded b schedule) s
      (.ofReads (v.firstReads false)) := by
  cases ha : v.access with
  | word =>
    simp only [fetch, firstReads, ha]
    exact (S.costs_read b v.address s v.base).bind_pure
  | inline value =>
    simp only [fetch, firstReads, ha]
    exact Run.costs_pure value s
  | span length =>
    simp only [fetch, firstReads, ha]
    have hread : ∀ slot t, (S.read b v.address slot).Costs (S.recorded.read b v.address slot) t
        (.ofReads 1) := fun slot t => S.costs_read b v.address t slot
    by_cases hp : v.parallelReads
    · simp only [hp, if_true]
      exact (ReadWindow.costs_read hread schedule v.data s).bind_pure
    · simp only [hp, Bool.false_eq_true, if_false]
      exact (costs_readInTurn hread v.data s).bind_pure

theorem costs_value (hv : v.outcome = none) (s : σ) :
    Run.Costs (ExceptT.lift (v.value S b)) (ExceptT.lift (v.value S.recorded b)) s
      (.ofReads (v.firstReads false)) := by
  rw [lift_value hv, lift_value hv]
  exact (costs_fetch S b v ReadWindow.oldestFirst s).attempt.bind_pure

theorem costs_resolve (S : Service σ β) (config : Config) (b : β) (address : Address)
    (base : BaseSlot) (s : σ) :
    (resolve S config b address base).Costs (resolve S.recorded config b address base) s
      (.ofReads base.isDynamic.toNat) := by
  rw [resolve, resolve]
  by_cases hd : base.isDynamic
  · rw [if_pos hd, if_pos hd, hd]
    rw [← Work.add_zero (v := .ofReads _)]
    exact (S.costs_read b address s base.slot).bind fun word t _ =>
      (Run.costs_ofResult _ t).bind_pure
  · rw [if_neg hd, if_neg hd]
    exact (Run.costs_pure _ s).mono (Work.zero_le _)

/-- A value takes one read for its base slot, and one for each piece of 32 bytes that a value
may have. -/
theorem reads_le_of_resolve (h : (resolve S config b address base).Returns s v s') :
    base.isDynamic.toNat + v.firstReads false ≤ 1 + Bytes.pieces 32 config.maxValueLength := by
  rcases returns_resolve.1 h with ⟨hd, rfl, -⟩ | ⟨hd, word, length, -, hw, rfl⟩ <;> rw [hd]
  · simp [ofFixed, firstReads]
  · cases length with
    | short value => simp [ofLength, firstReads]
    | long length data =>
      simpa [ofLength, firstReads] using LengthWord.length_slots_le_of_long hw

/-- Only a long value has data slots, and each of them is read. -/
theorem length_data_le_of_resolve (h : (resolve S config b address base).Returns s v s') :
    v.data.length ≤ v.firstReads false := by
  rcases returns_resolve.1 h with ⟨-, rfl, -⟩ | ⟨-, word, length, -, -, rfl⟩
  · simp [ofFixed]
  · cases length <;> simp [ofLength, firstReads]

end StoredValue

/-! ## Requests -/

/-- A command takes at most that many slots: the base slot and the data slots of a longest value. -/
def Config.maxSlots (config : Config) : Nat := 1 + Bytes.pieces 32 config.maxValueLength

/-- The limit for the work of one target. -/
def Config.maxWork (config : Config) : Work :=
  ⟨config.maxCommands * config.maxSlots, 1, config.maxCommands * config.maxSlots⟩

theorem ReadAs.length_slots_le {config : Config} {base : BaseSlot} {words : List Word}
    {r : Resolved} (h : ReadAs config.maxValueLength base words r) :
    r.slots.length ≤ config.maxSlots := by
  cases h with
  | fixed hd word => simp [Config.maxSlots]
  | short hd hw => simp [Config.maxSlots]
  | long hd hw hl =>
    rw [List.length_cons, Nat.add_comm]
    exact Nat.add_le_add_left (LengthWord.length_slots_le_of_long hw) 1

theorem length_slotsOf_le {config : Config} {constants values : List Bytes}
    {commands : List Command} {words rest : List Word} {rs : List Resolved}
    (h : replay config.maxValueLength constants values commands words = some (rs, rest)) :
    (slotsOf rs).length ≤ commands.length * config.maxSlots := by
  induction commands generalizing values words rs with
  | nil =>
    obtain ⟨rfl, -⟩ : rs = [] ∧ rest = words := by simpa [replay, eq_comm] using h
    simp
  | cons command commands ih =>
    obtain ⟨base, used, r, later, more, -, -, hr, hm, rfl⟩ := replay_cons_eq_some_iff.1 h
    rw [slotsOf_cons, List.length_append, List.length_cons, Nat.succ_mul, Nat.add_comm]
    exact Nat.add_le_add (ih hm) hr.length_slots_le

namespace Gateway

variable {g : Gateway σ β}

theorem costs_resolveCommand (b : β) (address : Address) (tables : Tables) (command : Command)
    (s : σ) :
    (g.resolveCommand b address tables command).Costs
      (g.recorded.resolveCommand b address tables command) s (.ofReads g.config.maxSlots) := by
  refine Run.costs_ofResult_bind fun base _ => ?_
  have hbase : base.isDynamic.toNat ≤ g.config.maxSlots :=
    le_trans (Bool.toNat_le _) (Nat.le_add_right 1 _)
  rw [← Nat.add_sub_of_le hbase, ← Work.ofReads_add]
  refine (StoredValue.costs_resolve g.service g.config b address base s).bind fun v t hv => ?_
  have hreads := Nat.le_sub_of_add_le' (StoredValue.reads_le_of_resolve hv)
  refine Run.Costs.mono ?_ (Work.ofReads_le hreads)
  rw [← Work.add_zero (v := .ofReads _)]
  refine (StoredValue.costs_value (StoredValue.outcome_eq_none hv) t).bind fun asked t _ => ?_
  exact (Run.costs_ofResult _ t).bind_pure

theorem costs_resolveCommands (b : β) (address : Address) (constants values : List Bytes)
    (commands : List Command) (s : σ) :
    (g.resolveCommands b address constants values commands).Costs
      (g.recorded.resolveCommands b address constants values commands) s
      (.ofReads (commands.length * g.config.maxSlots)) := by
  induction commands generalizing values s with
  | nil => exact (Run.costs_pure _ s).mono (Work.zero_le _)
  | cons command commands ih =>
    rw [List.length_cons, Nat.succ_mul, Nat.add_comm, ← Work.ofReads_add]
    exact (costs_resolveCommand b address _ command s).bind fun first t _ => (ih _ t).bind_pure

/-- A target with too many commands costs nothing, and any other one no more than its commands may
cost, and a proof of their slots. -/
theorem costs_proveTarget (address : Address) (commands : List Command)
    (constants values : List Bytes) (s : σ) :
    (g.proveTarget address commands constants values).Costs
      (g.recorded.proveTarget address commands constants values) s g.config.maxWork := by
  have hconfig : g.recorded.config = g.config := rfl
  rw [proveTarget, proveTarget, hconfig]
  by_cases hc : g.config.maxCommands < commands.length
  · rw [if_pos hc, if_pos hc]
    exact (Run.costs_ofResult (.error _) s).mono (Work.zero_le _)
  · rw [if_neg hc, if_neg hc]
    have hcount : commands.length * g.config.maxSlots ≤ g.config.maxCommands * g.config.maxSlots :=
      Nat.mul_le_mul_right _ (by omega)
    have hsum : g.config.maxWork = 0 + (.ofReads (g.config.maxCommands * g.config.maxSlots) +
        (⟨0, 1, g.config.maxCommands * g.config.maxSlots⟩ + 0)) := by
      ext <;> simp [Config.maxWork, Work.ofReads]
    rw [hsum]
    refine (g.service.costs_block s).bind fun b t _ => ?_
    have hreads := costs_resolveCommands (g := g) b address constants values commands t
    refine (hreads.mono (Work.ofReads_le hcount)).bind fun resolved t' hr => ?_
    -- The proof is for the slots that the commands returned.
    obtain ⟨rs, words, -, hv, hslots, -⟩ := returns_resolveCommands.1 hr
    have hproof := g.service.costs_prove b address t' resolved.1
    have hlength : resolved.1.length ≤ g.config.maxCommands * g.config.maxSlots := by
      rw [hslots]
      exact le_trans (length_slotsOf_le hv) hcount
    refine (hproof.mono (by simp [Work.le_def, hlength])).bind fun proof t'' _ => ?_
    exact Run.costs_ofResult_bind fun _ _ => (Run.costs_ofResult _ t'').bind_pure

theorem costs_prove (address : Address) (commands : List Command) (constants : List Bytes)
    (s : σ) :
    (g.prove address commands constants).Costs (g.recorded.prove address commands constants) s
      g.config.maxWork :=
  (costs_proveTarget address commands constants [] s).bind_pure

theorem costs_proveRequests (values : List Bytes) (requests : List TargetRequest) (s : σ) :
    (g.proveRequests values requests).Costs (g.recorded.proveRequests values requests) s
      (g.config.maxWork.times requests.length) := by
  induction requests generalizing values s with
  | nil => exact (Run.costs_pure [] s).mono (Work.zero_le _)
  | cons request requests ih =>
    rw [List.length_cons, Work.times_succ]
    refine Run.costs_ofResult_bind fun target _ => ?_
    refine (costs_proveTarget target request.commands request.constants values s).bind
      fun proven t _ => ?_
    exact (ih _ t).bind_pure

/-- While the commands of a target are resolved, from `s` on, so many reads have begun: the ones for
the commands in front, which are recorded, the one of the next base slot if its value has a dynamic
length, and the ones that a window for that value has begun. -/
inductive Begun (g : Gateway σ β) (b : β) (address : Address) (constants values : List Bytes)
    (s : σ) : List Command → Nat → Prop
  | window {front rest : List Command} {command : Command} {slots : List UInt256}
    {values' : List Bytes} {record : List (Event β)} {base : BaseSlot} {v : StoredValue}
    {w : ReadWindow} {t t' t'' : σ}
    (hfront : (g.recorded.resolveCommands b address constants values front).Returns (s, [])
      (slots, values') (t, record))
    (hbase : Tables.derive ⟨constants, values'⟩ command = .ok base)
    (hvalue : (StoredValue.resolve g.service g.config b address base).Returns t v t')
    (hsteps : ReadWindow.Steps (g.service.read b v.address) (.start v.data, t') (w, t'')) :
    Begun g b address constants values s (front ++ command :: rest)
      ((workOf record).reads + base.isDynamic.toNat + w.begun)

/-- No more reads begin than the commands may take. -/
theorem Begun.le {b : β} {address : Address} {constants values : List Bytes} {s : σ}
    {commands : List Command} {count : Nat}
    (h : g.Begun b address constants values s commands count) :
    count ≤ commands.length * g.config.maxSlots := by
  cases h with
  | @window front rest command slots values' record base v w t t' t'' hfront hbase hvalue hsteps =>
    obtain ⟨events, houtcome, hwork⟩ := costs_resolveCommands b address constants values front s []
    obtain rfl : record = events := by
      have hrecord := congrArg (fun outcome => outcome.2.2) (hfront.symm.trans houtcome)
      simpa using hrecord
    have hrecorded : (workOf record).reads ≤ front.length * g.config.maxSlots := hwork.1
    have hnext : base.isDynamic.toNat + w.begun ≤ g.config.maxSlots := by
      have hdata := StoredValue.length_data_le_of_resolve hvalue
      have hbegun := le_trans (ReadWindow.begun_le hsteps) hdata
      exact le_trans (Nat.add_le_add_left hbegun _) (StoredValue.reads_le_of_resolve hvalue)
    calc (workOf record).reads + base.isDynamic.toNat + w.begun
        ≤ front.length * g.config.maxSlots + g.config.maxSlots := by omega
      _ = (front.length + 1) * g.config.maxSlots := (Nat.succ_mul _ _).symm
      _ ≤ (front ++ command :: rest).length * g.config.maxSlots :=
          Nat.mul_le_mul_right _ (by simp)

/-- **The work of a request is limited.** Whatever a service answers, and also if the request fails:
the questions that are asked about one target are at most one read per slot that the limits allow,
and one for the proof of no more slots; for several targets they are as many times that. Recording
them changes nothing else. No more reads than that begin for a target, at any time and in whatever
order they finish, so the limit also holds for reads that begin and are dropped after a failure. -/
theorem work_le_maxWork (g : Gateway σ β) (s : σ) :
    (∀ address commands constants, ∃ record,
      (g.recorded.prove address commands constants).outcome (s, []) =
        (((g.prove address commands constants).outcome s).1,
          ((g.prove address commands constants).outcome s).2, record) ∧
      workOf record ≤ g.config.maxWork) ∧
    (∀ requests, ∃ record,
      (g.recorded.proveAll requests).outcome (s, []) =
        (((g.proveAll requests).outcome s).1, ((g.proveAll requests).outcome s).2, record) ∧
      workOf record ≤ g.config.maxWork.times requests.length) ∧
    (∀ b address constants values commands count, commands.length ≤ g.config.maxCommands →
      g.Begun b address constants values s commands count → count ≤ g.config.maxWork.reads) := by
  refine ⟨?target, ?targets, ?begun⟩
  case target =>
    intro address commands constants
    exact costs_prove address commands constants s []
  case targets =>
    intro requests
    exact costs_proveRequests [] requests s []
  case begun =>
    intro b address constants values commands count hc h
    exact le_trans h.le (Nat.mul_le_mul_right _ hc)

/-- A service that knows a length word, and nothing else. -/
def lengthOnly : Service Unit Unit where
  provableBlock := pure ()
  storageAt _ _ slot := if slot = 0 then pure (longWord 33) else throw "unknown slot"
  proofs _ _ _ := throw "no proofs"
  encodeProof _ _ := .error (.encoding "no proofs")

/-- Two data slots are read at a time. The first read fails, and the second one is dropped before it
is in the record; both are within the limit. -/
theorem work_le_maxWork_lengthOnly :
    let g : Gateway Unit Unit := ⟨lengthOnly, {}⟩
    (workOf ((g.recorded.prove .zero [.ofByte 1 0] [[]]).outcome ((), [])).2.2).reads = 2 ∧
    g.Begun () .zero [[]] [] () [.ofByte 1 0] 3 ∧ 3 ≤ g.config.maxWork.reads := by
  intro g
  have hresolve : (StoredValue.resolve g.service g.config () .zero ⟨0, true⟩).Returns ()
      (.ofLength {} .zero 0 (.long 33 (dataSlots 0 2))) () :=
    StoredValue.returns_resolve.2 (.inr ⟨rfl, longWord 33, _, rfl, rfl, rfl⟩)
  have hsteps : ReadWindow.Steps (lengthOnly.read () .zero) (.start (dataSlots 0 2), ())
      (⟨[], (dataSlots 0 2).map (·, none), []⟩, ()) := ReadWindow.steps_fill _ _ _
  have hfront : (g.recorded.resolveCommands () .zero [[]] [] []).Returns ((), []) ([], [])
      ((), []) := rfl
  have hbegun : g.Begun () .zero [[]] [] () ([] ++ .ofByte 1 0 :: []) 3 :=
    .window hfront rfl hresolve hsteps
  refine ⟨?_, hbegun, (work_le_maxWork g ()).2.2 _ _ _ _ _ _ (by decide) hbegun⟩
  decide +kernel

end Gateway

end StorageGateway
