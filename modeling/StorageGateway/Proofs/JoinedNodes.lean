import StorageGateway.Proofs.RlpExact
import StorageGateway.StateProof

/-!
# Joined nodes have one form

In the joined layout every node list is one byte string, the RLP list of its nodes. A byte string is
split only if it is that encoding from its first byte to its last one. So the joined layout carries
the same nodes as the raw one, and nobody can cut bytes off joined nodes, put some behind them or
write them in another form.

## Main definitions

* `NodeLists.Fits` and `JoinedNodes.Fits` — node lists, raw or joined, with lengths that can be
  written.

## Main statements

* `Rlp.strings_isPrefix_iff` — no encoded list is the front of another one.
* `JoinedNodes.split_eq_ok_iff` — which joined nodes are split, and into what.
* `JoinedNodes.exists_split_iff`, `exists_rlp_of_not_isList` — which are split at all, and how the
  others fail.
* `StateProof.split_join_exact` — both layouts carry the same nodes.
-/

namespace StorageGateway

/-! ## Lists of strings -/

namespace Rlp

variable {items items' : List Bytes}

theorem length_flatMap_le_strings (items : List Bytes) :
    (items.flatMap string).length ≤ (strings items).length := by
  rw [strings, list, List.length_append]
  omega

/-- No encoded list is the front of another one. -/
theorem strings_isPrefix_iff (hl : (items.flatMap string).length < limit64)
    (hl' : (items'.flatMap string).length < limit64) :
    strings items <+: strings items' ↔ items = items' := by
  constructor
  · intro h
    obtain ⟨rest, hrest⟩ := h
    have hfront := readStrings_eq_ok_iff.2 ⟨hl, hrest.symm⟩
    have hwhole := readStrings_eq_ok_iff.2 ⟨hl', (List.append_nil _).symm⟩
    rw [hfront, Except.ok.injEq, Prod.mk.injEq] at hwhole
    exact hwhole.1
  · intro h
    subst h
    exact List.prefix_rfl

end Rlp

/-! ## Lengths -/

/-- Node lists whose lengths can be written. -/
def NodeLists.Fits (n : NodeLists) : Prop :=
  ∀ nodes ∈ n.account :: n.storage, (nodes.flatMap Rlp.string).length < limit64

namespace JoinedNodes

variable {j : JoinedNodes} {n : NodeLists}

/-- Byte strings whose lengths can be written. -/
def Fits (j : JoinedNodes) : Prop :=
  j.account.length < limit64 ∧ ∀ s ∈ j.storage, s.length < limit64

theorem fits_of_join (h : n.join.Fits) : n.Fits := by
  have hlist : ∀ nodes, (Rlp.strings nodes).length < limit64 →
      (nodes.flatMap Rlp.string).length < limit64 :=
    fun nodes hl => Nat.lt_of_le_of_lt (Rlp.length_flatMap_le_strings nodes) hl
  refine List.forall_mem_cons.2 ⟨hlist _ h.1, ?_⟩
  intro nodes hnodes
  exact hlist _ (h.2 _ (List.mem_map_of_mem hnodes))

/-! ## Splitting -/

/-- A byte string is split if it is the list of the strings that it is split into. -/
theorem splitList_eq_ok_iff {input : Bytes} {nodes : List Bytes} :
    splitList input = .ok nodes ↔
      (nodes.flatMap Rlp.string).length < limit64 ∧ input = Rlp.strings nodes := by
  constructor
  · intro h
    obtain ⟨⟨items, rest⟩, hread, h⟩ := Except.bind_eq_ok_iff.1 h
    cases rest with
    | cons b bs => cases h
    | nil =>
      cases h
      simpa using Rlp.readStrings_eq_ok_iff.1 hread
  · intro h
    have hread : Rlp.readStrings input = .ok (nodes, []) :=
      Rlp.readStrings_eq_ok_iff.2 (by simpa using h)
    simp only [splitList, hread, bind, Except.bind]
    rfl

theorem mapM_splitList_eq_ok_iff {inputs : List Bytes} {lists : List (List Bytes)} :
    inputs.mapM splitList = .ok lists ↔
      (∀ nodes ∈ lists, (nodes.flatMap Rlp.string).length < limit64) ∧
        inputs = lists.map Rlp.strings := by
  simp only [Except.mapM_eq_ok_iff, splitList_eq_ok_iff]
  constructor
  · intro h
    induction h with
    | nil => exact ⟨nofun, rfl⟩
    | cons hfirst _ ih =>
      obtain ⟨hl, rfl⟩ := hfirst
      obtain ⟨hls, rfl⟩ := ih
      exact ⟨List.forall_mem_cons.2 ⟨hl, hls⟩, rfl⟩
  · intro h
    obtain ⟨hl, rfl⟩ := h
    rw [List.forall₂_map_left_iff, List.forall₂_same]
    exact fun nodes hnodes => ⟨hl nodes hnodes, rfl⟩

/-- Joined nodes are split exactly into the node lists that they are joined from. -/
theorem split_eq_ok_iff : j.split = .ok n ↔ n.Fits ∧ j = n.join := by
  obtain ⟨account, storage⟩ := j
  obtain ⟨nodes, lists⟩ := n
  simp only [split, Result.ofRlp, Except.bind_eq_ok_iff, Except.mapError_eq_ok_iff,
    splitList_eq_ok_iff, mapM_splitList_eq_ok_iff, NodeLists.Fits, NodeLists.join,
    List.forall_mem_cons, mk.injEq]
  constructor
  · intro h
    obtain ⟨_, ⟨haccount, rfl⟩, _, ⟨hstorage, rfl⟩, h⟩ := h
    cases h
    exact ⟨⟨haccount, hstorage⟩, rfl, rfl⟩
  · intro h
    obtain ⟨⟨haccount, hstorage⟩, rfl, rfl⟩ := h
    exact ⟨nodes, ⟨haccount, rfl⟩, lists, ⟨hstorage, rfl⟩, rfl⟩

/-- Node lists that were joined are split again. -/
theorem split_join (h : n.join.Fits) : n.join.split = .ok n :=
  split_eq_ok_iff.2 ⟨fits_of_join h, rfl⟩

/-- Joined nodes are the only ones that are split into their node lists. -/
theorem eq_join_of_split (h : j.split = .ok n) : j = n.join := (split_eq_ok_iff.1 h).2

/-! ## Refusals -/

/-- Whether a byte string is the encoding of a list of nodes. -/
def IsList (bs : Bytes) : Prop :=
  ∃ nodes : List Bytes, (nodes.flatMap Rlp.string).length < limit64 ∧ bs = Rlp.strings nodes

/-- The encoding of a list with something cut off, or put behind it, encodes no list. -/
theorem IsList.eq_of_isPrefix {front bs : Bytes} (hfront : IsList front) (hbs : IsList bs)
    (h : front <+: bs) : front = bs := by
  obtain ⟨nodes, hl, rfl⟩ := hfront
  obtain ⟨nodes', hl', rfl⟩ := hbs
  rw [(Rlp.strings_isPrefix_iff hl hl').1 h]

/-- Joined nodes are split if each byte string of them encodes a list. -/
theorem exists_split_iff :
    (∃ n, j.split = .ok n) ↔ ∀ bs ∈ j.account :: j.storage, IsList bs := by
  constructor
  · intro h
    obtain ⟨n, hsplit⟩ := h
    obtain ⟨hl, rfl⟩ := split_eq_ok_iff.1 hsplit
    have hlists : (n.join.account :: n.join.storage) = (n.account :: n.storage).map Rlp.strings :=
      rfl
    rw [hlists, List.forall_mem_map]
    exact fun nodes hnodes => ⟨nodes, hl nodes hnodes, rfl⟩
  · intro h
    have hread : ∀ bs ∈ j.account :: j.storage, ∃ nodes, splitList bs = .ok nodes := by
      intro bs hbs
      obtain ⟨nodes, hnodes⟩ := h bs hbs
      exact ⟨nodes, splitList_eq_ok_iff.2 hnodes⟩
    obtain ⟨⟨account, haccount⟩, hstorage⟩ := List.forall_mem_cons.1 hread
    cases hlists : j.storage.mapM splitList with
    | error e =>
      obtain ⟨bs, hbs, he⟩ := Except.exists_of_mapM_eq_error hlists
      obtain ⟨nodes, hnodes⟩ := hstorage bs hbs
      rw [hnodes] at he
      cases he
    | ok storage =>
      refine ⟨⟨account, storage⟩, ?_⟩
      simp only [split, haccount, hlists, Result.ofRlp, Except.mapError_ok]
      rfl

/-- Other joined nodes are refused for their RLP. -/
theorem exists_rlp_of_not_isList {bs : Bytes} (hbs : bs ∈ j.account :: j.storage)
    (h : ¬ IsList bs) : ∃ cause, j.split = .error (.rlp cause) := by
  have hrlp : ∀ {α : Type} {r : Except Rlp.Error α} {e : Error}, Result.ofRlp r = .error e →
      ∃ cause, e = .rlp cause := by
    intro α r e hr
    obtain ⟨cause, -, rfl⟩ := Except.mapError_eq_error_iff.1 hr
    exact ⟨cause, rfl⟩
  cases hsplit : j.split with
  | ok n => exact absurd (exists_split_iff.1 ⟨n, hsplit⟩ bs hbs) h
  | error e =>
    obtain ⟨cause, rfl⟩ : ∃ cause, e = .rlp cause := by
      rcases Except.bind_eq_error_iff.1 hsplit with h | ⟨account, -, hsplit⟩
      · exact hrlp h
      rcases Except.bind_eq_error_iff.1 hsplit with h | ⟨storage, -, hsplit⟩
      · exact hrlp h
      · cases hsplit
    exact ⟨cause, rfl⟩

end JoinedNodes

/-! ## Both layouts -/

namespace StateProof

/-- **The joined and the raw layout carry the same nodes, exactly.** The joined nodes of a state
proof are split into its raw nodes. Whatever is split is, byte string by byte string, the encoding
of the lists that come out. So joined nodes are refused, for their RLP, if one of their byte strings
encodes no list; in particular if it is a byte string of accepted nodes with bytes cut off or with
bytes put behind it. -/
theorem split_join_exact :
    (∀ p : StateProof, p.nodes.join.account.length < 2 ^ 60 →
      (∀ bs ∈ p.nodes.join.storage, bs.length < 2 ^ 60) →
      p.nodes.join.split = .ok ⟨p.accountNodes, p.storageProofs.map (·.nodes)⟩) ∧
    ∀ j : JoinedNodes,
      (∀ account storage, j.split = .ok ⟨account, storage⟩ →
        j.account = Rlp.strings account ∧ j.storage = storage.map Rlp.strings) ∧
      (∀ bs ∈ j.account :: j.storage, (∀ nodes, bs ≠ Rlp.strings nodes) →
        ∃ cause, j.split = .error (.rlp cause)) ∧
      ∀ n, j.split = .ok n → ∀ bs ∈ j.account :: j.storage, ∀ changed, changed ≠ bs →
        (changed <+: bs ∨ bs <+: changed) →
        ∀ k : JoinedNodes, changed ∈ k.account :: k.storage →
          ∃ cause, k.split = .error (.rlp cause) := by
  refine ⟨?_, fun j => ⟨?_, ?_, ?_⟩⟩
  · intro p haccount hstorage
    have hlimit : 2 ^ 60 < limit64 := by decide
    exact JoinedNodes.split_join
      ⟨Nat.lt_trans haccount hlimit, fun bs hbs => Nat.lt_trans (hstorage bs hbs) hlimit⟩
  · intro account storage h
    rw [JoinedNodes.eq_join_of_split h]
    exact ⟨rfl, rfl⟩
  · intro bs hbs h
    refine JoinedNodes.exists_rlp_of_not_isList hbs ?_
    intro hlist
    obtain ⟨nodes, -, hnodes⟩ := hlist
    exact h nodes hnodes
  · intro n hsplit bs hbs changed hne h k hchanged
    have hlist := JoinedNodes.exists_split_iff.1 ⟨n, hsplit⟩ bs hbs
    refine JoinedNodes.exists_rlp_of_not_isList hchanged ?_
    intro hlist'
    rcases h with h | h
    · exact hne (hlist'.eq_of_isPrefix hlist h)
    · exact hne (hlist.eq_of_isPrefix hlist' h).symm

/-- A proof with a list of two nodes, one of them empty, and with an empty list. -/
def shortLists : StateProof := ⟨[[1, 2], []], [⟨7, []⟩], .zero⟩

theorem split_join_exact_shortLists :
    shortLists.nodes.join.split = .ok ⟨[[1, 2], []], [[]]⟩ ∧
      (∃ cause, JoinedNodes.split ⟨shortLists.nodes.join.account ++ [0], [[0xc0]]⟩ =
        .error (.rlp cause)) ∧
      ∃ cause, JoinedNodes.split ⟨shortLists.nodes.join.account, [[]]⟩ = .error (.rlp cause) := by
  have hsplit : shortLists.nodes.join.split = .ok ⟨[[1, 2], []], [[]]⟩ :=
    split_join_exact.1 shortLists (by decide) (by decide)
  obtain ⟨-, -, hchanged⟩ := split_join_exact.2 shortLists.nodes.join
  refine ⟨hsplit, ?_, ?_⟩
  · exact hchanged _ hsplit shortLists.nodes.join.account (by decide) _ (by decide)
      (.inr (List.prefix_append _ _)) _ List.mem_cons_self
  · exact hchanged _ hsplit [0xc0] (by decide) [] (by decide) (.inl List.nil_prefix) _ (by simp)

end StateProof

end StorageGateway
