import StorageGateway.Proofs.Batch
import StorageGateway.Proofs.Calls

/-!
# Targets that stand for an address

A target of at most 256 stands for the address in the first value of the call. The values of a call
only grow at their end, so once there is a first value it stays, and every such target means the
same address throughout the call. It may therefore be replaced by that address or by any other such
number, request by request, and nothing about the call changes; not even where the address is itself
a number of at most 256.

## Main definitions

* `TargetRequest.IsReference` — the target is such a number.
* `TargetRequest.Substitutes` — a request in place of another one.
* `Gateway.Proven` — a run of requests, with the values before and after it.

## Main statements

* `resolveTarget_eq_ok_iff` — what a target means.
* `Gateway.Proven.substitute` — a run of requests is one of their substitutes.
* `Gateway.proveAll_of_substitutes` — references are plain substitution.
-/

namespace StorageGateway

/-- The target stands for the address in the first value. -/
def TargetRequest.IsReference (request : TargetRequest) : Prop :=
  request.target.toNat ≤ maxTargetReference

instance : DecidablePred TargetRequest.IsReference := fun request =>
  inferInstanceAs (Decidable (request.target.toNat ≤ maxTargetReference))

/-- A request that may stand in place of another one, if references mean address `a`: it has the
same commands and constants, and the same target, or for a reference the address or another
reference. -/
structure TargetRequest.Substitutes (a : Address) (request other : TargetRequest) : Prop where
  commands_eq : other.commands = request.commands
  constants_eq : other.constants = request.constants
  target : other.target = request.target ∨
    (request.IsReference ∧ (other.target = a ∨ other.IsReference))

/-! ## What a target means -/

section

variable {target a b : Address} {values values' : List Bytes}

/-- A reference means the address in the first value. -/
theorem resolveTarget_eq_ok_iff_of_reference (h : target.toNat ≤ maxTargetReference) :
    resolveTarget target values = .ok a ↔ values.head? = some a.toWord.toList := by
  rw [resolveTarget, if_neg (Nat.not_lt.2 h)]
  constructor
  · intro ha
    cases hw : values.head?.bind (FixedBytes.ofList? 32) with
    | none =>
      rw [hw] at ha
      cases ha
    | some word =>
      rw [hw] at ha
      dsimp only at ha
      split at ha
      · next hzeros =>
        cases ha
        obtain ⟨first, hfirst, hword⟩ := Option.bind_eq_some_iff.1 hw
        rw [hfirst, Address.toWord_ofWord hzeros, FixedBytes.toList_of_ofList? hword]
      · cases ha
  · intro ha
    have hzeros : (a.toWord.toList.take 12).all (· == 0) = true := Address.valid_toWord a
    simp [ha, hzeros]

/-- While there is a first value, all references mean the same. -/
theorem resolveTarget_congr (h : target.toNat ≤ maxTargetReference)
    (hfirst : values.head? = some a.toWord.toList) (hb : resolveTarget target values = .ok b) :
    b = a := by
  have hsame := (resolveTarget_eq_ok_iff_of_reference h).1 hb
  rw [hfirst, Option.some.injEq] at hsame
  rw [← Address.ofWord_toWord a, FixedBytes.ext hsame, Address.ofWord_toWord]

/-- The address in the first value means itself, be it a reference or not. -/
theorem resolveTarget_self (hfirst : values.head? = some a.toWord.toList) :
    resolveTarget a values = .ok a := by
  by_cases ha : maxTargetReference < a.toNat
  · rw [resolveTarget, if_pos ha]
  · exact (resolveTarget_eq_ok_iff_of_reference (Nat.not_lt.1 ha)).2 hfirst

end

/-- A substitute means the same address. -/
theorem TargetRequest.Substitutes.resolveTarget_eq {request other : TargetRequest}
    {a target : Address} {values : List Bytes} (h : Substitutes a request other)
    (hfirst : request.IsReference → values.head? = some a.toWord.toList)
    (ht : resolveTarget request.target values = .ok target) :
    resolveTarget other.target values = .ok target := by
  rcases h.target with heq | ⟨href, hother⟩
  · rw [heq, ht]
  · obtain rfl := resolveTarget_congr href (hfirst href) ht
    rcases hother with rfl | hother
    · exact resolveTarget_self (hfirst href)
    · exact (resolveTarget_eq_ok_iff_of_reference hother).2 (hfirst href)

/-! ## Runs of requests -/

namespace Gateway

variable {σ β : Type} {g : Gateway σ β}

/-- Requests that are all proven: the values and the state before them, the proofs, and the values
and the state after them. -/
inductive Proven (g : Gateway σ β) :
    List Bytes → σ → List TargetRequest → List Bytes → List Bytes → σ → Prop
  | nil (values : List Bytes) (s : σ) : Proven g values s [] [] values s
  | cons {values values' values'' : List Bytes} {s t s' : σ} {request : TargetRequest}
    {requests : List TargetRequest} {target : Address} {blob : Bytes} {blobs : List Bytes}
    (meaning : resolveTarget request.target values = .ok target)
    (first : (g.proveTarget target request.commands request.constants values).Returns s
      (blob, values') t)
    (rest : Proven g values' t requests blobs values'' s') :
    Proven g values s (request :: requests) (blob :: blobs) values'' s'

variable {values values' : List Bytes} {s s' : σ} {requests others : List TargetRequest}
  {blobs : List Bytes} {a : Address}

/-- Requests are answered where they are proven. -/
theorem returns_proveRequests_iff_proven :
    (g.proveRequests values requests).Returns s blobs s' ↔
      ∃ values', g.Proven values s requests blobs values' s' := by
  induction requests generalizing values s blobs with
  | nil =>
    rw [proveRequests, Run.returns_pure]
    constructor
    · intro h
      obtain ⟨rfl, rfl⟩ := h
      exact ⟨values, .nil values s⟩
    · intro h
      obtain ⟨_, h⟩ := h
      cases h
      exact ⟨rfl, rfl⟩
  | cons request requests ih =>
    rw [returns_proveRequests_cons]
    constructor
    · intro h
      obtain ⟨target, blob, _, t, more, ht, hp, hr, rfl⟩ := h
      obtain ⟨values', hmore⟩ := ih.1 hr
      exact ⟨values', .cons ht hp hmore⟩
    · intro h
      obtain ⟨values', h⟩ := h
      cases h with
      | cons meaning first rest =>
        exact ⟨_, _, _, _, _, meaning, first, ih.2 ⟨values', rest⟩, rfl⟩

/-- Values are only added at the end. -/
theorem isPrefix_of_proveTarget {target : Address} {commands : List Command}
    {constants : List Bytes} {blob : Bytes}
    (h : (g.proveTarget target commands constants values).Returns s (blob, values') s') :
    values <+: values' := by
  obtain ⟨-, _, _, rs, _, _, _, -, -, -, rfl, -⟩ := returns_proveTarget.1 h
  exact List.prefix_append values _

namespace Proven

theorem isPrefix (h : g.Proven values s requests blobs values' s') : values <+: values' := by
  induction h with
  | nil values s => exact List.prefix_refl values
  | cons meaning first rest ih => exact (isPrefix_of_proveTarget first).trans ih

/-- If a request refers to the first value, that is the word of an address. -/
theorem exists_address (h : g.Proven values s requests blobs values' s')
    (href : ∃ request ∈ requests, request.IsReference) :
    ∃ a : Address, values'.head? = some a.toWord.toList := by
  induction h with
  | nil => simp at href
  | @cons _ _ _ _ _ _ request requests target _ _ meaning first rest ih =>
    by_cases hfirst : request.IsReference
    · have hhead := (resolveTarget_eq_ok_iff_of_reference hfirst).1 meaning
      obtain ⟨more, rfl⟩ := (isPrefix_of_proveTarget first).trans rest.isPrefix
      exact ⟨target, by simp [hhead]⟩
    · refine ih ?_
      obtain ⟨r, hr, href⟩ := href
      rcases List.mem_cons.1 hr with rfl | hr
      · exact absurd href hfirst
      · exact ⟨r, hr, href⟩

/-- A run of requests is also one of their substitutes. -/
theorem substitute (h : g.Proven values s requests blobs values' s')
    (hfirst : (∃ request ∈ requests, request.IsReference) →
      values'.head? = some a.toWord.toList)
    (hothers : List.Forall₂ (TargetRequest.Substitutes a) requests others) :
    g.Proven values s others blobs values' s' := by
  induction h generalizing others with
  | nil =>
    cases hothers
    exact .nil _ _
  | @cons values _ _ _ _ _ request requests target _ _ meaning first rest ih =>
    cases hothers with
    | @cons _ other _ others hsub hothers =>
      have hrest := ih (fun ⟨r, hr, href⟩ => hfirst ⟨r, List.mem_cons_of_mem _ hr, href⟩) hothers
      have hhead : request.IsReference → values.head? = some a.toWord.toList := by
        intro href
        -- The first value that the request found is still the first one at the end.
        have hall := hfirst ⟨request, List.mem_cons_self, href⟩
        have hown := (resolveTarget_eq_ok_iff_of_reference href).1 meaning
        obtain ⟨more, rfl⟩ := (isPrefix_of_proveTarget first).trans rest.isPrefix
        rw [← hall]
        simp [hown]
      have hmeaning := hsub.resolveTarget_eq hhead meaning
      rw [← hsub.commands_eq, ← hsub.constants_eq] at first
      exact .cons hmeaning first hrest

end Proven

/-- **References are plain substitution.** If a batch is answered and some target is a reference,
the first value is twelve zero bytes and an address. And then every batch in which, for any of the
references, the address stands or another reference, is answered with the same proofs, from the same
state to the same state; the numbers of the requests do not matter. -/
theorem proveAll_of_substitutes (h : (g.proveAll requests).Returns s blobs s') :
    ∃ values, g.Proven [] s requests blobs values s' ∧
      ((∃ request ∈ requests, request.IsReference) →
        ∃ a : Address, values.head? = some (List.replicate 12 0 ++ a.toList)) ∧
      ∀ (a : Address) (others : List TargetRequest),
        ((∃ request ∈ requests, request.IsReference) →
          values.head? = some (List.replicate 12 0 ++ a.toList)) →
        List.Forall₂ (TargetRequest.Substitutes a) requests others →
        (g.proveAll others).Returns s blobs s' := by
  obtain ⟨values, hproven⟩ := returns_proveRequests_iff_proven.1 h
  refine ⟨values, hproven, hproven.exists_address, ?_⟩
  intro a others hfirst hothers
  exact returns_proveRequests_iff_proven.2 ⟨values, hproven.substitute hfirst hothers⟩

end Gateway

namespace SimulatedChain

/-- A request for the word at slot zero, and one for a target that stands for the address in it. -/
def readThenRefer (target : Address) (index : UInt256) : List TargetRequest :=
  [⟨contract, [.ofByte 0 0], [[]], 0⟩, ⟨target, [], [], index⟩]

theorem exists_returns_readThenRefer (target : Address) (index : UInt256)
    (h : resolveTarget target [Word.zero.toList] = .ok .zero) :
    ∃ blobs c', ((gateway {}).proveAll (readThenRefer target index)).Returns {} blobs c' := by
  have hread : ∃ blob c', ((gateway {}).proveTarget contract [.ofByte 0 0] [[]] []).Returns {}
      (blob, [Word.zero.toList]) c' :=
    ⟨_, _, returns_proveTarget_iff.2 ⟨by decide, [⟨[0], Word.zero.toList⟩], rfl, rfl, .inr rfl,
      .inr rfl, rfl, rfl⟩⟩
  obtain ⟨blob, c₁, hread⟩ := hread
  have hrefer : ∃ blob c', ((gateway {}).proveTarget .zero [] [] [Word.zero.toList]).Returns c₁
      (blob, [Word.zero.toList]) c' :=
    ⟨_, _, returns_proveTarget_iff.2 ⟨by decide, [], rfl, rfl, .inl rfl, .inl rfl, rfl, rfl⟩⟩
  obtain ⟨blob', c₂, hrefer⟩ := hrefer
  have hproven : (gateway {}).Proven [] {} (readThenRefer target index) [blob, blob']
      [Word.zero.toList] c₂ := .cons rfl hread (.cons h hrefer (.nil _ _))
  exact ⟨_, _, Gateway.returns_proveRequests_iff_proven.2 ⟨_, hproven⟩⟩

/-- The first value holds the address zero, for which target 7 stands and which stands for
itself. -/
theorem proveAll_of_substitutes_zero :
    ∃ blobs c',
      ((gateway {}).proveAll (readThenRefer ⟨List.replicate 19 0 ++ [7], rfl⟩ 0)).Returns {}
        blobs c' ∧
      ((gateway {}).proveAll (readThenRefer .zero 9)).Returns {} blobs c' := by
  obtain ⟨blobs, c', h⟩ := exists_returns_readThenRefer ⟨List.replicate 19 0 ++ [7], rfl⟩ 0 rfl
  obtain ⟨values, -, hfirst, hothers⟩ := Gateway.proveAll_of_substitutes h
  obtain ⟨a, ha⟩ := hfirst ⟨_, List.mem_cons_of_mem _ List.mem_cons_self, by decide⟩
  refine ⟨blobs, c', h, hothers a _ (fun _ => ha) (.cons ?_ (.cons ?_ .nil))⟩
  · exact ⟨rfl, rfl, .inl rfl⟩
  · exact ⟨rfl, rfl, .inr ⟨by decide, .inr (by decide)⟩⟩

end SimulatedChain

end StorageGateway
