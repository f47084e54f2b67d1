import Mathlib.Data.List.Forall2
import StorageGateway.Service

/-!
# Runs and their outcomes

A computation over a service is run from a state: it returns a result or fails with an error, and
leaves a state either way. A sequence of two computations returns when the first one returns and the
second one then does, and fails when either of them fails. Proofs about a gateway take its
computations apart with these laws, one question to the service at a time.

## Main definitions

* `Run.outcome` — the result of a run, and the state it ends in.
* `Run.Returns`, `Run.Fails` — the two ways a run can end.
* `Run.attempt` — a computation with its failure as part of the result.

## Main statements

* `Except.bind_eq_ok_iff`, `Except.bind_eq_error_iff` — a sequence of results.
* `Except.mapM_eq_ok_iff`, `Except.mapM_eq_error_iff` — the results of a list.
* `Run.returns_bind`, `Run.fails_bind` — a sequence of computations.
-/

namespace StorageGateway

/-! ## Results -/

namespace Except

variable {ε α β : Type}

theorem bind_eq_ok_iff {x : Except ε α} {f : α → Except ε β} {b : β} :
    x >>= f = .ok b ↔ ∃ a, x = .ok a ∧ f a = .ok b := by
  cases x <;> simp [bind, Except.bind]

theorem bind_eq_error_iff {x : Except ε α} {f : α → Except ε β} {e : ε} :
    x >>= f = .error e ↔ x = .error e ∨ ∃ a, x = .ok a ∧ f a = .error e := by
  cases x <;> simp [bind, Except.bind]

@[simp] theorem mapError_ok {ε' : Type} (g : ε → ε') (a : α) :
    Except.mapError g (.ok a) = .ok a := rfl

@[simp] theorem mapError_error {ε' : Type} (g : ε → ε') (e : ε) :
    Except.mapError g (.error e : Except ε α) = .error (g e) := rfl

theorem mapError_eq_ok_iff {ε' : Type} {g : ε → ε'} {x : Except ε α} {a : α} :
    x.mapError g = .ok a ↔ x = .ok a := by
  cases x <;> simp

theorem map_eq_ok_iff {f : α → β} {x : Except ε α} {b : β} :
    x.map f = .ok b ↔ ∃ a, x = .ok a ∧ f a = b := by
  cases x <;> simp [Except.map]

theorem map_eq_error_iff {f : α → β} {x : Except ε α} {e : ε} :
    x.map f = .error e ↔ x = .error e := by
  cases x <;> simp [Except.map]

theorem mapError_eq_error_iff {ε' : Type} {g : ε → ε'} {x : Except ε α} {e : ε'} :
    x.mapError g = .error e ↔ ∃ e', x = .error e' ∧ g e' = e := by
  cases x <;> simp

/-! ### Several results -/

variable {f : α → Except ε β} {as : List α}

/-- A list of results is one result if none of them is an error. -/
theorem mapM_eq_ok_iff {bs : List β} :
    as.mapM f = .ok bs ↔ List.Forall₂ (fun a b => f a = .ok b) as bs := by
  induction as generalizing bs with
  | nil =>
    rw [List.mapM_nil, List.forall₂_nil_left_iff]
    exact ⟨fun h => (Except.ok.inj h).symm, fun h => congrArg Except.ok h.symm⟩
  | cons a as ih =>
    simp only [List.mapM_cons, bind_eq_ok_iff, List.forall₂_cons_left_iff, ih]
    constructor
    · intro h
      obtain ⟨b, hb, rest, hr, h⟩ := h
      exact ⟨b, rest, hb, hr, (Except.ok.inj h).symm⟩
    · intro h
      obtain ⟨b, rest, hb, hr, rfl⟩ := h
      exact ⟨b, hb, rest, hr, rfl⟩

/-- Otherwise it is the first of the errors. -/
theorem mapM_eq_error_iff {e : ε} :
    as.mapM f = .error e ↔ ∃ done a rest, as = done ++ a :: rest ∧
      (∀ a' ∈ done, ∃ b, f a' = .ok b) ∧ f a = .error e := by
  induction as with
  | nil => simp [pure, Except.pure]
  | cons a as ih =>
    simp only [List.mapM_cons, bind_eq_error_iff, ih]
    constructor
    · intro h
      rcases h with ha | ⟨b, hb, ⟨done, a', rest, rfl, hdone, ha'⟩ | ⟨bs, -, h⟩⟩
      · exact ⟨[], a, as, rfl, by simp, ha⟩
      · exact ⟨a :: done, a', rest, rfl, List.forall_mem_cons.2 ⟨⟨b, hb⟩, hdone⟩, ha'⟩
      · cases h
    · intro h
      obtain ⟨_ | ⟨a', done⟩, failed, rest, hsplit, hdone, hf⟩ := h
      · cases hsplit
        exact .inl hf
      · cases hsplit
        obtain ⟨⟨b, hb⟩, hdone⟩ := List.forall_mem_cons.1 hdone
        exact .inr ⟨b, hb, .inl ⟨done, failed, rest, rfl, hdone, hf⟩⟩

theorem exists_of_mapM_eq_error {e : ε} (h : as.mapM f = .error e) : ∃ a ∈ as, f a = .error e := by
  obtain ⟨done, a, rest, rfl, -, ha⟩ := mapM_eq_error_iff.1 h
  exact ⟨a, by simp, ha⟩

end Except

/-! ## Runs -/

namespace Run

variable {σ α β : Type}

/-- What a run from a state gives, and the state it ends in. -/
def outcome (m : Run σ α) (s : σ) : Result α × σ := (m.run.run s).run

/-- A run from `s` that gives `a` and ends in `s'`. -/
def Returns (m : Run σ α) (s : σ) (a : α) (s' : σ) : Prop := m.outcome s = (.ok a, s')

/-- A run from `s` that fails with `e` and ends in `s'`. -/
def Fails (m : Run σ α) (s : σ) (e : Error) (s' : σ) : Prop := m.outcome s = (.error e, s')

@[simp] theorem outcome_pure (a : α) (s : σ) : (pure a : Run σ α).outcome s = (.ok a, s) := rfl

@[simp] theorem outcome_throw (e : Error) (s : σ) :
    (throw e : Run σ α).outcome s = (.error e, s) := rfl

@[simp] theorem outcome_ofResult (r : Result α) (s : σ) :
    (ofResult r : Run σ α).outcome s = (r, s) := rfl

@[simp] theorem outcome_lift (m : StateM σ α) (s : σ) :
    outcome (ExceptT.lift m) s = (.ok (m.run s).run.1, (m.run s).run.2) := rfl

/-- The same computation, with its failure as part of the result. -/
abbrev attempt (m : Run σ α) : Run σ (Result α) := ExceptT.mk (Except.ok <$> m.run)

theorem outcome_attempt (m : Run σ α) (s : σ) :
    (attempt m).outcome s = (.ok (m.outcome s).1, (m.outcome s).2) := rfl

theorem outcome_bind (m : Run σ α) (f : α → Run σ β) (s : σ) :
    (m >>= f).outcome s =
      match m.outcome s with
      | (.ok a, s') => (f a).outcome s'
      | (.error e, s') => (.error e, s') := by
  have h : (m >>= f).outcome s = (ExceptT.bindCont f (m s).1 (m s).2 : Result β × σ) := rfl
  rw [h]
  change _ = match m s with
    | (.ok a, s') => (f a).outcome s'
    | (.error e, s') => (.error e, s')
  rcases m s with ⟨_ | a, s'⟩ <;> rfl

/-- Changing the result of a computation leaves the state as it is. -/
theorem state_bind_pure (m : Run σ α) (f : α → β) (s : σ) :
    ((m >>= fun a => pure (f a)).outcome s).2 = (m.outcome s).2 := by
  rw [outcome_bind]
  rcases m.outcome s with ⟨_ | _, _⟩ <;> rfl

/-- A computation that starts with a result that is an error does nothing else. -/
theorem error_bind (e : Error) (f : α → Run σ β) : ofResult (.error e) >>= f = throw e := rfl

/-! ### Runs that return -/

@[simp] theorem returns_pure {a b : α} {s s' : σ} :
    (pure a : Run σ α).Returns s b s' ↔ a = b ∧ s = s' := by
  simp [Returns]

@[simp] theorem returns_throw {e : Error} {a : α} {s s' : σ} :
    (throw e : Run σ α).Returns s a s' ↔ False := by
  simp [Returns]

@[simp] theorem returns_ofResult {r : Result α} {a : α} {s s' : σ} :
    (ofResult r : Run σ α).Returns s a s' ↔ r = .ok a ∧ s = s' := by
  simp [Returns]

/-- A sequence returns what the second computation returns after the first one. -/
theorem returns_bind {m : Run σ α} {f : α → Run σ β} {s s'' : σ} {b : β} :
    (m >>= f).Returns s b s'' ↔ ∃ a s', m.Returns s a s' ∧ (f a).Returns s' b s'' := by
  simp only [Returns, outcome_bind]
  rcases h : m.outcome s with ⟨_ | a, s'⟩
  · simp
  · simp only [Prod.mk.injEq, Except.ok.injEq]
    constructor
    · intro hf
      exact ⟨a, s', ⟨rfl, rfl⟩, hf⟩
    · intro h
      obtain ⟨_, _, ⟨rfl, rfl⟩, hf⟩ := h
      exact hf

/-! ### Runs that fail -/

@[simp] theorem fails_ofResult {r : Result α} {e : Error} {s s' : σ} :
    (ofResult r : Run σ α).Fails s e s' ↔ r = .error e ∧ s = s' := by
  simp [Fails]

/-- A sequence fails in its first computation, or in the second one after the first. -/
theorem fails_bind {m : Run σ α} {f : α → Run σ β} {s s'' : σ} {e : Error} :
    (m >>= f).Fails s e s'' ↔
      m.Fails s e s'' ∨ ∃ a s', m.Returns s a s' ∧ (f a).Fails s' e s'' := by
  simp only [Returns, Fails, outcome_bind]
  rcases h : m.outcome s with ⟨_ | a, s'⟩
  · simp
  · simp only [Prod.mk.injEq, Except.ok.injEq, reduceCtorEq, false_and, false_or]
    constructor
    · intro hf
      exact ⟨a, s', ⟨rfl, rfl⟩, hf⟩
    · intro h
      obtain ⟨_, _, ⟨rfl, rfl⟩, hf⟩ := h
      exact hf

/-- A computation whose result is changed afterwards fails where it fails itself. -/
theorem fails_bind_pure {m : Run σ α} {f : α → β} {s s' : σ} {e : Error} :
    (m >>= fun a => pure (f a)).Fails s e s' ↔ m.Fails s e s' := by
  rw [fails_bind]
  constructor
  · intro h
    rcases h with h | ⟨a, t, -, h⟩
    · exact h
    · cases h
  · exact .inl

/-- Two runs that start with the same result go on from it, if one of them returns. -/
theorem exists_of_fails_of_returns {σ' γ : Type} {r : Result α} {f : α → Run σ β}
    {f' : α → Run σ' γ} {s₁ s₁' : σ} {s₂ s₂' : σ'} {e : Error} {c : γ}
    (h₁ : (ofResult r >>= f).Fails s₁ e s₁') (h₂ : (ofResult r >>= f').Returns s₂ c s₂') :
    ∃ a, (f a).Fails s₁ e s₁' ∧ (f' a).Returns s₂ c s₂' := by
  obtain ⟨a, t₂, hr, h₂⟩ := returns_bind.1 h₂
  obtain ⟨rfl, rfl⟩ := returns_ofResult.1 hr
  rcases fails_bind.1 h₁ with hf | ⟨b, t₁, hb, h₁⟩
  · cases (fails_ofResult.1 hf).1
  · obtain ⟨hab, rfl⟩ := returns_ofResult.1 hb
    cases hab
    exact ⟨a, h₁, h₂⟩

end Run

/-! ## Questions -/

/-- What a collaborator answers, and the state it is left in. -/
def Query.answer {σ α : Type} (q : Query σ α) (s : σ) : Except Failure α × σ := (q.run.run s).run

namespace Query

variable {σ α β : Type} {q : Query σ α} {f : α → Query σ β} {s s' : σ}

theorem answer_bind (q : Query σ α) (f : α → Query σ β) (s : σ) :
    (q >>= f).answer s =
      match q.answer s with
      | (.ok a, s') => (f a).answer s'
      | (.error e, s') => (.error e, s') := by
  have h : (q >>= f).answer s = (ExceptT.bindCont f (q s).1 (q s).2 : Except Failure β × σ) := rfl
  rw [h]
  change _ = match q s with
    | (.ok a, s') => (f a).answer s'
    | (.error e, s') => (.error e, s')
  rcases q s with ⟨_ | a, s'⟩ <;> rfl

/-- A question goes on from the answer to its first part. -/
theorem answer_bind_of_ok {a : α} (h : q.answer s = (.ok a, s')) :
    (q >>= f).answer s = (f a).answer s' := by
  rw [answer_bind, h]

theorem answer_bind_of_error {e : Failure} (h : q.answer s = (.error e, s')) :
    (q >>= f).answer s = (.error e, s') := by
  rw [answer_bind, h]

/-- A sequence of questions is answered if both of its parts are. -/
theorem answer_bind_eq_ok_iff {b : β} {s'' : σ} :
    (q >>= f).answer s = (.ok b, s'') ↔
      ∃ a s', q.answer s = (.ok a, s') ∧ (f a).answer s' = (.ok b, s'') := by
  rw [answer_bind]
  rcases q.answer s with ⟨e | a, t⟩
  · simp
  · simp only [Prod.mk.injEq, Except.ok.injEq]
    constructor
    · intro h
      exact ⟨a, t, ⟨rfl, rfl⟩, h⟩
    · intro h
      obtain ⟨_, _, ⟨rfl, rfl⟩, h⟩ := h
      exact h

end Query

namespace Service

variable {σ α : Type} {q : Query σ α} {s s' : σ}

theorem outcome_ask : (ask q).outcome s = ((q.answer s).1.mapError .io, (q.answer s).2) := rfl

theorem returns_ask {a : α} : (ask q).Returns s a s' ↔ q.answer s = (.ok a, s') := by
  rw [Run.Returns, outcome_ask]
  rcases q.answer s with ⟨_ | b, t⟩ <;> simp

/-- The failure of a collaborator is the error of the computation. -/
theorem fails_ask {e : Error} :
    (ask q).Fails s e s' ↔ ∃ failure, e = .io failure ∧ q.answer s = (.error failure, s') := by
  rw [Run.Fails, outcome_ask]
  rcases q.answer s with ⟨f | b, t⟩
  · simp only [Except.mapError_error, Prod.mk.injEq, Except.error.injEq]
    constructor
    · intro h
      exact ⟨f, h.1.symm, rfl, h.2⟩
    · intro h
      obtain ⟨_, rfl, rfl, ht⟩ := h
      exact ⟨rfl, ht⟩
  · simp

end Service

end StorageGateway
