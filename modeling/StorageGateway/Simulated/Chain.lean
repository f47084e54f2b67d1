import StorageGateway.Gateway
import StorageGateway.Storage
import StorageGateway.Storage.Leaf

/-!
# A simulated chain

A chain of one block that answers from memory. It counts what it is asked for, and can be told to
fail reads or to leave out the last storage proof. The proof of a slot is a single leaf, so the
proven number can be read back from it.

## Main definitions

* `SimulatedChain` and `SimulatedChain.service`.
* `SimulatedChain.encodeProof`, `SimulatedChain.decodeProof?` — its layout of proofs.
* `SimulatedChain.provenValue` — the number that a storage proof proves.
-/

namespace StorageGateway

/-- A chain that answers from memory. -/
structure SimulatedChain where
  /-- The number of its block. -/
  number : BitVec 64 := 1
  /-- The words in storage. -/
  storage : Storage := .empty
  /-- How many reads were made, failed ones included. -/
  reads : Nat := 0
  /-- How many proofs were fetched. -/
  fetches : Nat := 0
  /-- How often the provable block was asked for. -/
  blocks : Nat := 0
  /-- The slots of the last proof. -/
  lastSlots : List UInt256 := []
  /-- The contract of the last proof. -/
  lastTarget : Option Address := none
  /-- Whether reads fail. -/
  failReads : Bool := false
  /-- Whether proofs lack their last storage proof. -/
  dropProof : Bool := false

namespace SimulatedChain

/-! ## What the chain answers -/

/-- The block to prove against. -/
def provableBlock : Query SimulatedChain (BitVec 64) := fun c =>
  (.ok c.number, { c with blocks := c.blocks + 1 })

/-- The word at a slot. -/
def storageAt (address : Address) (slot : UInt256) : Query SimulatedChain Word := fun c =>
  let answer :=
    if c.failReads then .error s!"storage read of slot {Hex.quantity slot.toNat} failed"
    else .ok (c.storage.word address slot)
  (answer, { c with reads := c.reads + 1 })

/-- The proof of one slot: its leaf. -/
def storageProof (c : SimulatedChain) (address : Address) (slot : UInt256) : StorageProof :=
  ⟨slot, [(StorageLeaf.ofWord slot (c.storage.word address slot)).encode]⟩

/-- The proof of slots. -/
def stateProof (c : SimulatedChain) (address : Address) (slots : List UInt256) : StateProof :=
  let all := slots.map (c.storageProof address)
  let proofs := if c.dropProof then all.dropLast else all
  { accountNodes := [Rlp.strings [(keccak256 address.toList).toList]]
    storageProofs := proofs
    storageRoot := keccak256 (proofs.flatMap fun p => p.nodes.flatten) }

/-- The proof of slots, recorded as the last one. -/
def proofs (address : Address) (slots : List UInt256) : Query SimulatedChain StateProof := fun c =>
  (.ok (c.stateProof address slots),
    { c with fetches := c.fetches + 1, lastSlots := slots, lastTarget := some address })

/-! ## The layout of proofs -/

/-- The two tuples of a proof: the block number and the trie nodes. -/
def layout : Abi.Fields (Word × List Bytes × List (List Bytes)) :=
  .cons (.tuple (.single .word)) (.single NodeLists.codec)

/-- The names of the tuples. -/
def layoutName : String := "(SimulatedWitnessData,StateTrieProof)"

/-- A proof of state at a block. -/
def encodeProof (number : BitVec 64) (p : StateProof) : Bytes :=
  layout.encode (UInt256.toWord (number.setWidth 256), p.nodes.toTokens)

/-- The block number and the trie nodes of a proof; `none` if the number has more than 64 bits. -/
def decodeProof? (data : Bytes) : Result (Option (BitVec 64 × NodeLists)) := do
  let (number, nodes) ← Result.ofAbi (layout.decode layoutName data)
  let number64 := BitVec.ofNat 64 number.toNat
  pure (if number64.toNat = number.toNat then some (number64, .ofTokens nodes) else none)

/-- The number that a storage proof proves: the value of the leaf that is its last node. -/
def provenValue (nodes : List Bytes) : Result UInt256 :=
  match nodes.getLast? with
  | none => .error (.encoding "empty proof")
  | some node => do
    let (leaf, _) ← Result.ofRlp (StorageLeaf.read node)
    let (n, _) ← Result.ofRlp (Rlp.readNumber 256 leaf.value)
    pure n

/-- The service that answers from a simulated chain. -/
def service : Service SimulatedChain (BitVec 64) where
  provableBlock := provableBlock
  storageAt _ := storageAt
  proofs _ := proofs
  encodeProof number p := .ok (encodeProof number p)

/-- The gateway over a simulated chain. -/
def gateway (config : Config) : Gateway SimulatedChain (BitVec 64) := ⟨service, config⟩

end SimulatedChain

end StorageGateway
