import StorageGateway.Proofs.Effects
import StorageGateway.Proofs.References

/-!
# Nothing depends on what comes later

A gateway works through commands and through requests in order. What it finds for the first ones
does not depend on those behind them: a longer list that is answered has the answer to its front at
its front, and a front that fails makes any longer list fail, for the same reason and with the same
effects. There are two exceptions, at the ends of a call. Too many commands are refused before
anything else, so a longer list can fail for that reason although its front fails for another. And
a proof is checked after everything else, so the check of a proof that lacks a slot tells of more
slots for a longer list.

## Main statements

* `resolution_append_eq_ok_iff` — commands resolve up to some point and then from there on.
* `Gateway.returns_proveRequests_append`, `fails_proveRequests_append` — requests.
* `SimulatedChain.prove_of_append` — commands and requests.
-/

namespace StorageGateway

@[simp] theorem slotsOf_append (front back : List Resolved) :
    slotsOf (front ++ back) = slotsOf front ++ slotsOf back :=
  List.flatMap_append

/-- Commands resolve if the first ones do, and the others do after them. -/
theorem resolution_append_eq_ok_iff {max : Nat} {constants values : List Bytes}
    {word : UInt256 → Word} {front back : List Command} {rs : List Resolved} :
    (resolution max constants word values (front ++ back)).2 = .ok rs ↔
      ∃ first more, (resolution max constants word values front).2 = .ok first ∧
        (resolution max constants word (values ++ valuesOf first) back).2 = .ok more ∧
        rs = first ++ more := by
  induction front generalizing values rs with
  | nil => simp [resolution, eq_comm]
  | cons command front ih =>
    simp only [List.cons_append, resolution_cons_eq_ok_iff, ih]
    constructor
    · intro h
      obtain ⟨base, r, _, hb, hr, ⟨first, more, hfirst, hmore, rfl⟩, rfl⟩ := h
      rw [List.append_assoc] at hmore
      exact ⟨r :: first, more, ⟨base, r, first, hb, hr, hfirst, rfl⟩, hmore, rfl⟩
    · intro h
      obtain ⟨_, more, ⟨base, r, first, hb, hr, hfirst, rfl⟩, hmore, rfl⟩ := h
      rw [valuesOf_cons, ← List.singleton_append, ← List.append_assoc] at hmore
      exact ⟨base, r, first ++ more, hb, hr, ⟨first, more, hfirst, hmore, rfl⟩, rfl⟩

/-! ## Requests -/

namespace Gateway

variable {σ β : Type} {g : Gateway σ β} {values : List Bytes} {s s' : σ} {e : Error}
  {front back : List TargetRequest} {blobs : List Bytes}

theorem Proven.length_eq {values' : List Bytes} (h : g.Proven values s front blobs values' s') :
    blobs.length = front.length := by
  induction h with
  | nil => rfl
  | cons _ _ _ ih => rw [List.length_cons, ih, List.length_cons]

/-- Requests are answered if the first ones are, and the others are after them. -/
theorem returns_proveRequests_append :
    (g.proveRequests values (front ++ back)).Returns s blobs s' ↔
      ∃ first more values' t, blobs = first ++ more ∧ g.Proven values s front first values' t ∧
        (g.proveRequests values' back).Returns t more s' := by
  induction front generalizing values s blobs with
  | nil =>
    constructor
    · intro h
      exact ⟨[], blobs, values, s, rfl, .nil values s, h⟩
    · intro h
      obtain ⟨_, more, _, _, rfl, hfront, h⟩ := h
      cases hfront
      exact h
  | cons request front ih =>
    rw [List.cons_append, returns_proveRequests_cons]
    constructor
    · intro h
      obtain ⟨target, blob, values₁, s₁, _, ht, hp, hrest, rfl⟩ := h
      obtain ⟨first, more, values', t, rfl, hfront, hback⟩ := ih.1 hrest
      exact ⟨blob :: first, more, values', t, rfl, .cons ht hp hfront, hback⟩
    · intro h
      obtain ⟨_, more, values', t, rfl, hfront, hback⟩ := h
      cases hfront with
      | cons ht hp hfront =>
        exact ⟨_, _, _, _, _, ht, hp, ih.2 ⟨_, more, values', t, rfl, hfront, hback⟩, rfl⟩

/-- Requests fail if one of the first ones does, or one of the others does after them. -/
theorem fails_proveRequests_append :
    (g.proveRequests values (front ++ back)).Fails s e s' ↔
      (g.proveRequests values front).Fails s e s' ∨
        ∃ first values' t, g.Proven values s front first values' t ∧
          (g.proveRequests values' back).Fails t e s' := by
  induction front generalizing values s with
  | nil =>
    constructor
    · intro h
      exact .inr ⟨[], values, s, .nil values s, h⟩
    · intro h
      rcases h with h | ⟨_, _, _, hfront, h⟩
      · cases h
      · cases hfront
        exact h
  | cons request front ih =>
    rw [List.cons_append, fails_proveRequests_cons, fails_proveRequests_cons]
    constructor
    · intro h
      rcases h with h | ⟨target, ht, h | ⟨blob, values₁, s₁, hp, h⟩⟩
      · exact .inl (.inl h)
      · exact .inl (.inr ⟨target, ht, .inl h⟩)
      · rcases ih.1 h with h | ⟨first, values', t, hfront, h⟩
        · exact .inl (.inr ⟨target, ht, .inr ⟨blob, values₁, s₁, hp, h⟩⟩)
        · exact .inr ⟨blob :: first, values', t, .cons ht hp hfront, h⟩
    · intro h
      rcases h with (h | ⟨target, ht, h | ⟨blob, values₁, s₁, hp, h⟩⟩) | ⟨_, values', t, hfront, h⟩
      · exact .inl h
      · exact .inr ⟨target, ht, .inl h⟩
      · exact .inr ⟨target, ht, .inr ⟨blob, values₁, s₁, hp, ih.2 (.inl h)⟩⟩
      · cases hfront with
        | cons ht hp hfront =>
          exact .inr ⟨_, ht, .inr ⟨_, _, _, hp, ih.2 (.inr ⟨_, values', t, hfront, h⟩)⟩⟩

end Gateway

/-! ## Commands -/

namespace SimulatedChain

variable {config : Config} {c c' : SimulatedChain} {max : Nat} {address : Address}
  {constants values : List Bytes} {front back : List Command} {rs : List Resolved} {blob : Bytes}
  {e : Error}

theorem Resolves.exists_front (h : c.Resolves max address constants values (front ++ back) rs) :
    ∃ first more, rs = first ++ more ∧ c.Resolves max address constants values front first := by
  obtain ⟨first, more, hfirst, -, rfl⟩ := resolution_append_eq_ok_iff.1 h.resolution_eq
  exact ⟨first, more, rfl, h.answers.imp_left fun hnil => (List.append_eq_nil_iff.1 hnil).1, hfirst⟩

/-- A call that is answered has resolved its commands, and gives the proof of their slots. -/
theorem exists_resolves_of_prove
    (h : ((gateway config).prove address front constants).Returns c blob c') :
    ∃ rs, c.Resolves config.maxValueLength address constants [] front rs ∧
      front.length ≤ config.maxCommands ∧ (front = [] ∨ c.dropProof = false) ∧
      blob = encodeProof c.number (c.stateProof address (slotsOf rs)) ∧
      c'.lastSlots = slotsOf rs := by
  obtain ⟨values, h⟩ := Gateway.returns_prove.1 h
  obtain ⟨hc, rs, hr, -, hf, hd, hblob, rfl⟩ := returns_proveTarget_iff.1 h
  have hnil := (slotsOf_eq_nil_iff_of_replay hr).1
  exact ⟨rs, ⟨hf.imp_left hnil, resolution_eq_ok_iff_replay.2 hr⟩, hc, hd.imp_left hnil, hblob, rfl⟩

/-- A call that fails on a chain that leaves no proof out has too many commands, or one of them gets
stuck. -/
theorem tooMany_or_stuck_of_prove (hd : c.dropProof = false)
    (h : ((gateway config).prove address front constants).Fails c e c') :
    config.maxCommands < front.length ∨
      ∃ done failed rest rs n e, front = done ++ failed :: rest ∧
        c.Resolves config.maxValueLength address constants [] done rs ∧
        c.Stuck config.maxValueLength address ⟨constants, valuesOf rs⟩ failed n e := by
  by_cases hc : config.maxCommands < front.length
  · exact .inl hc
  · rcases exists_resolves_or_stuck c config.maxValueLength address constants [] front with
      ⟨rs, hrs⟩ | hstuck
    · have hreturns := returns_prove_of_resolves (Nat.not_lt.1 hc) hrs (.inr hd)
      cases h.symm.trans hreturns
    · exact .inr hstuck

/-- The proofs of the first slots come first in the proof of all slots, with the same account. -/
theorem nodes_stateProof_isPrefix {slots more : List UInt256}
    (hd : slots ++ more = [] ∨ c.dropProof = false) :
    (c.stateProof address slots).nodes.storage <+:
        (c.stateProof address (slots ++ more)).nodes.storage ∧
      (c.stateProof address slots).nodes.account =
        (c.stateProof address (slots ++ more)).nodes.account := by
  have hfirst : slots = [] ∨ c.dropProof = false :=
    hd.imp_left fun hnil => (List.append_eq_nil_iff.1 hnil).1
  refine ⟨?_, rfl⟩
  rw [StateProof.nodes, StateProof.nodes, storageProofs_stateProof hfirst,
    storageProofs_stateProof hd, List.map_append, List.map_append]
  exact List.prefix_append _ _

theorem decodeProof?_of_length_lt {number : BitVec 64} {proof : StateProof}
    (h : (encodeProof number proof).length < 2 ^ 60) :
    decodeProof? (encodeProof number proof) = .ok (some (number, proof.nodes)) :=
  decodeProof?_encodeProof (Nat.lt_trans h (by decide))

/-- A call that is answered is answered for its first commands alone, with the first of its slots
and of its storage proofs. -/
theorem exists_returns_prove_front
    (h : ((gateway config).prove address (front ++ back) constants).Returns c blob c') :
    ∃ short c₁, ((gateway config).prove address front constants).Returns c short c₁ ∧
      c₁.lastSlots <+: c'.lastSlots ∧
      (short.length < 2 ^ 60 → blob.length < 2 ^ 60 → ∃ nodes₁ nodes,
        decodeProof? short = .ok (some (c.number, nodes₁)) ∧
        decodeProof? blob = .ok (some (c.number, nodes)) ∧
        nodes₁.storage <+: nodes.storage ∧ nodes₁.account = nodes.account) := by
  obtain ⟨rs, hrs, hc, hd, hblob, hslots⟩ := exists_resolves_of_prove h
  obtain ⟨first, more, rfl, hfirst⟩ := hrs.exists_front
  have hcount := Nat.le_trans (List.prefix_append front back).length_le hc
  have hkept : front = [] ∨ c.dropProof = false :=
    hd.imp_left fun hnil => (List.append_eq_nil_iff.1 hnil).1
  refine ⟨_, _, returns_prove_of_resolves hcount hfirst hkept, ?_, ?_⟩
  · rw [hslots, slotsOf_append]
    exact List.prefix_append _ _
  · intro hshort hlong
    have hdrop : slotsOf first ++ slotsOf more = [] ∨ c.dropProof = false := by
      rw [← slotsOf_append]
      exact hd.imp_left hrs.slots_eq_nil_iff.2
    rw [hblob, slotsOf_append] at hlong ⊢
    exact ⟨_, _, decodeProof?_of_length_lt hshort, decodeProof?_of_length_lt hlong,
      nodes_stateProof_isPrefix hdrop⟩

/-- If a call fails for its first commands alone, it fails. -/
theorem exists_fails_prove_append
    (h : ((gateway config).prove address front constants).Fails c e c') (back : List Command) :
    ∃ e' c'', ((gateway config).prove address (front ++ back) constants).Fails c e' c'' := by
  rcases hall : ((gateway config).prove address (front ++ back) constants).outcome c with
    ⟨e' | blob, c''⟩
  · exact ⟨e', c'', hall⟩
  · -- Otherwise the first commands alone would be answered too.
    obtain ⟨short, c₁, hfront, -⟩ := exists_returns_prove_front hall
    cases h.symm.trans hfront

/-- A command that gets stuck ends the call, whatever follows it. -/
theorem fails_prove_append (hc : (front ++ back).length ≤ config.maxCommands)
    (hd : c.dropProof = false)
    (h : ((gateway config).prove address front constants).Fails c e c') :
    ((gateway config).prove address (front ++ back) constants).Fails c e c' := by
  have hcount := Nat.le_trans (List.prefix_append front back).length_le hc
  rcases tooMany_or_stuck_of_prove hd h with hmany | ⟨done, failed, rest, rs, n, e₁, hfront, hdone,
    hstuck⟩
  · omega
  · have hfails := fails_prove_of_stuck hfront hcount hdone hstuck
    obtain ⟨he, rfl⟩ := Prod.mk.inj (h.symm.trans hfails)
    obtain rfl := Except.error.inj he
    have hsplit : front ++ back = done ++ failed :: (rest ++ back) := by
      rw [hfront, List.append_assoc, List.cons_append]
    exact fails_prove_of_stuck hsplit hc hdone hstuck

/-! ## Calls -/

/-- **No value depends on what comes later.** A call that is answered is answered for its first
commands alone: the slots, the storage proofs and the account are those at the front of the longer
call. If the first commands alone fail, so does the longer call; and if that has not too many
commands, and the chain leaves no proof out, then with the same error and the same effects. A batch
whose first requests fail does so too, with the same error and the same effects, and a batch that is
answered starts with the answers to its first requests alone. -/
theorem prove_of_append (config : Config) (c : SimulatedChain) :
    (∀ (address : Address) (constants : List Bytes) (front back : List Command),
      let call := fun commands => (gateway config).prove address commands constants
      (∀ blob c', (call (front ++ back)).Returns c blob c' →
        ∃ short c₁, (call front).Returns c short c₁ ∧ c₁.lastSlots <+: c'.lastSlots ∧
          (short.length < 2 ^ 60 → blob.length < 2 ^ 60 → ∃ nodes₁ nodes,
            decodeProof? short = .ok (some (c.number, nodes₁)) ∧
            decodeProof? blob = .ok (some (c.number, nodes)) ∧
            nodes₁.storage <+: nodes.storage ∧ nodes₁.account = nodes.account)) ∧
      (∀ e c', (call front).Fails c e c' →
        (∃ e' c'', (call (front ++ back)).Fails c e' c'') ∧
        ((front ++ back).length ≤ config.maxCommands → c.dropProof = false →
          (call (front ++ back)).Fails c e c'))) ∧
    ∀ front back : List TargetRequest,
      (∀ e c', ((gateway config).proveAll front).Fails c e c' →
        ((gateway config).proveAll (front ++ back)).Fails c e c') ∧
      (∀ blobs c', ((gateway config).proveAll (front ++ back)).Returns c blobs c' →
        front.length ≤ blobs.length ∧
        ∃ c₁, ((gateway config).proveAll front).Returns c (blobs.take front.length) c₁) := by
  refine ⟨?commands, ?requests⟩
  case commands =>
    intro address constants front back call
    refine ⟨fun blob c' h => exists_returns_prove_front h, ?_⟩
    intro e c' h
    exact ⟨exists_fails_prove_append h back, fun hc hd => fails_prove_append hc hd h⟩
  case requests =>
    intro front back
    refine ⟨fun e c' h => Gateway.fails_proveRequests_append.2 (.inl h), ?_⟩
    intro blobs c' h
    obtain ⟨first, more, values', t, rfl, hfront, -⟩ := Gateway.returns_proveRequests_append.1 h
    have hlen := hfront.length_eq
    refine ⟨by simp [hlen], t, ?_⟩
    rw [← hlen, List.take_left]
    exact Gateway.returns_proveRequests_iff_proven.2 ⟨values', hfront⟩

/-- The slots of a value of 33 bytes come first among those of a call that reads it and then its
length word; and a command that halts at once fails as well with that call behind it. -/
theorem prove_of_append_uniform :
    let c := uniform (longWord 33)
    let long := 0 :: dataSlots 0 2
    let halt := Command.ofByte 0 Instruction.haltByte
    let e := Error.malformedCommand "command halts before its seed instruction"
    (∃ short c₁ nodes₁ nodes,
      ((gateway {}).prove contract [.ofByte 1 0] [[]]).Returns c short c₁ ∧
      c₁.lastSlots <+: long ++ [0] ∧
      decodeProof? short = .ok (some (1, nodes₁)) ∧
      decodeProof? (encodeProof 1 (c.stateProof contract (long ++ [0]))) = .ok (some (1, nodes)) ∧
      nodes₁.storage <+: nodes.storage ∧ nodes₁.account = nodes.account) ∧
    ((gateway {}).prove contract [halt, .ofByte 1 0] [[]]).Fails c e { c with blocks := 1 } ∧
    ((gateway {}).proveAll
      [⟨contract, [halt], [[]], 0⟩, ⟨contract, [.ofByte 1 0], [[]], 1⟩]).Fails c e
        { c with blocks := 1 } := by
  have hlong : (uniform (longWord 33)).Resolves 1048576 contract [[]] [] [.ofByte 1 0]
      [⟨0 :: dataSlots 0 2, ((longWord 33).toList ++ (longWord 33).toList).take 33⟩] :=
    ⟨.inr rfl, resolution_eq_ok_iff_replay.2 rfl⟩
  have hboth : (uniform (longWord 33)).Resolves 1048576 contract [[]] [] [.ofByte 1 0, .ofByte 0 0]
      [⟨0 :: dataSlots 0 2, ((longWord 33).toList ++ (longWord 33).toList).take 33⟩,
        ⟨[0], (longWord 33).toList⟩] :=
    ⟨.inr rfl, resolution_eq_ok_iff_replay.2 rfl⟩
  have hhalt : ((gateway {}).proveTarget contract [.ofByte 0 Instruction.haltByte] [[]] []).Fails
      (uniform (longWord 33)) (.malformedCommand "command halts before its seed instruction")
      { uniform (longWord 33) with blocks := 1 } :=
    Gateway.fails_proveTarget (by decide) (returns_block.2 ⟨rfl, rfl⟩)
      (Gateway.fails_resolveCommands rfl)
  intro c long halt e
  obtain ⟨hcalls, hbatches⟩ := prove_of_append {} c
  refine ⟨?_, ?_, ?_⟩
  · obtain ⟨hreturns, -⟩ := hcalls contract [[]] [.ofByte 1 0] [.ofByte 0 0]
    obtain ⟨short, c₁, hfront, hslots, hnodes⟩ :=
      hreturns _ _ (returns_prove_of_resolves (by decide) hboth (.inr rfl))
    have hshort := Except.ok.inj (Prod.mk.inj (hfront.symm.trans
      (returns_prove_of_resolves (by decide) hlong (.inr rfl)))).1
    obtain ⟨nodes₁, nodes, h₁, h⟩ := hnodes (by rw [hshort]; decide +kernel) (by decide +kernel)
    exact ⟨short, c₁, nodes₁, nodes, hfront, hslots, h₁, h⟩
  · exact ((hcalls contract [[]] [halt] [.ofByte 1 0]).2 _ _ (Run.fails_bind_pure.2 hhalt)).2
      (by decide) rfl
  · have hfirst : ((gateway {}).proveAll [⟨contract, [halt], [[]], 0⟩]).Fails c e
        { c with blocks := 1 } :=
      Gateway.fails_proveRequests_cons.2 (.inr ⟨contract, rfl, .inl hhalt⟩)
    exact (hbatches _ [⟨contract, [.ofByte 1 0], [[]], 1⟩]).1 _ _ hfirst

end SimulatedChain

end StorageGateway
