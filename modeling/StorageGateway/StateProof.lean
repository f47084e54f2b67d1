import StorageGateway.Abi.Codec
import StorageGateway.Error

/-!
# State proofs

A state proof holds the trie nodes from a state root to an account and, for each requested slot,
the trie nodes from the account's storage root to the slot. Verifiers take the nodes in one of two
layouts: raw, every node a byte string of its own, or joined, every node list RLP-encoded into one
byte string.

## Main definitions

* `StateProof` and `StateProof.check` — the proof, and whether it is for the requested slots.
* `NodeLists` — the raw layout, and `JoinedNodes` — the joined one.
* `NodeLists.join`, `JoinedNodes.split` — from one layout to the other.
-/

namespace StorageGateway

/-- The proof of one slot. -/
structure StorageProof where
  /-- The slot. -/
  key : UInt256
  /-- The trie nodes from the storage root down to the slot. -/
  nodes : List Bytes
deriving DecidableEq

/-- The proof of an account and of slots in its storage. -/
structure StateProof where
  /-- The trie nodes from the state root down to the account. -/
  accountNodes : List Bytes
  /-- One proof per requested slot, in the order of the request. -/
  storageProofs : List StorageProof
  /-- The root of the account's storage trie. -/
  storageRoot : Word
deriving DecidableEq

/-- The trie nodes of a state proof: the raw layout. -/
structure NodeLists where
  /-- The nodes down to the account. -/
  account : List Bytes
  /-- The nodes down to each slot. -/
  storage : List (List Bytes)
deriving DecidableEq

/-- The trie nodes of a state proof, each list RLP-encoded: the joined layout. -/
structure JoinedNodes where
  /-- The nodes down to the account. -/
  account : Bytes
  /-- The nodes down to each slot. -/
  storage : List Bytes
deriving DecidableEq

namespace StateProof

/-- The trie nodes of a proof. -/
def nodes (p : StateProof) : NodeLists := ⟨p.accountNodes, p.storageProofs.map (·.nodes)⟩

/-- The first storage proof whose key is not the slot asked for; `i` is the index of the first of
both lists. -/
def firstMismatch : (i : Nat) → List StorageProof → List UInt256 → Result Unit
  | i, p :: ps, slot :: slots =>
    if p.key = slot then firstMismatch (i + 1) ps slots
    else
      let found := Hex.quantity p.key.toNat
      let wanted := Hex.quantity slot.toNat
      .error (.inconsistentState s!"storage proof {i} is for slot {found}, expected {wanted}")
  | _, _, _ => .ok ()

/-- Checks that the storage proofs are for the given slots, in order. -/
def check (p : StateProof) (slots : List UInt256) : Result Unit :=
  if p.storageProofs.length = slots.length then firstMismatch 0 p.storageProofs slots
  else
    let received := p.storageProofs.length
    .error (.inconsistentState
      s!"requested {slots.length} slots, received {received} storage proofs")

/-- The check passes exactly for the keys of the storage proofs. -/
theorem check_eq_ok_iff {p : StateProof} {slots : List UInt256} :
    p.check slots = .ok () ↔ p.storageProofs.map (·.key) = slots := by
  have first : ∀ (i : Nat) (ps : List StorageProof) (slots : List UInt256),
      ps.length = slots.length → (firstMismatch i ps slots = .ok () ↔ ps.map (·.key) = slots) := by
    intro i ps
    induction ps generalizing i with
    | nil => intro slots h; cases slots <;> simp_all [firstMismatch]
    | cons q ps ih =>
      intro slots h
      cases slots with
      | nil => simp at h
      | cons slot slots =>
        simp only [List.length_cons, Nat.add_right_cancel_iff] at h
        by_cases hk : q.key = slot <;> simp [firstMismatch, hk, ih _ _ h]
  unfold check
  split
  · next h => exact first 0 _ _ h
  · next h =>
    refine ⟨fun h' => (by cases h'), fun h' => ?_⟩
    exact absurd (by rw [← h', List.length_map]) h

end StateProof

namespace NodeLists

/-- The joined layout of node lists. -/
def join (n : NodeLists) : JoinedNodes := ⟨Rlp.strings n.account, n.storage.map Rlp.strings⟩

/-- Node lists as they stand in call data. -/
def codec : Abi.Codec (List Bytes × List (List Bytes)) :=
  .tuple (.cons (.array .bytes) (.single (.array (.array .bytes))))

/-- The values that `codec` encodes. -/
def toTokens (n : NodeLists) : List Bytes × List (List Bytes) := (n.account, n.storage)

/-- Node lists from the values that `codec` encodes. -/
def ofTokens (t : List Bytes × List (List Bytes)) : NodeLists := ⟨t.1, t.2⟩

end NodeLists

namespace JoinedNodes

/-- The strings of an RLP list that is the whole input. -/
def splitList (input : Bytes) : Except Rlp.Error (List Bytes) := do
  let (nodes, rest) ← Rlp.readStrings input
  if rest.isEmpty then pure nodes else throw .unexpectedLength

/-- The node lists of a joined layout: the account's first, then those of the slots in order. -/
def split (j : JoinedNodes) : Result NodeLists := do
  let account ← Result.ofRlp (splitList j.account)
  let storage ← Result.ofRlp (j.storage.mapM splitList)
  pure ⟨account, storage⟩

/-- Joined nodes as they stand in call data. -/
def codec : Abi.Codec (Bytes × List Bytes) := .tuple (.cons .bytes (.single (.array .bytes)))

/-- The values that `codec` encodes. -/
def toTokens (j : JoinedNodes) : Bytes × List Bytes := (j.account, j.storage)

/-- Joined nodes from the values that `codec` encodes. -/
def ofTokens (t : Bytes × List Bytes) : JoinedNodes := ⟨t.1, t.2⟩

end JoinedNodes

end StorageGateway
