import StorageGateway.Json.Parser
import StorageGateway.Json.Reading
import StorageGateway.StateProof

/-!
# State proofs in JSON

State proofs as JSON objects, and the answer of a node to a request for one (EIP-1186), which
tells more about the account and can be cut down to a state proof.

## Main definitions

* `StateProof.toJson`, `StateProof.ofJson?` and `StateProof.parse?`.
* `ProofResponse`, with `toJson`, `ofJson?`, `parse?` and `stateProof`.
-/

namespace StorageGateway

/-- Byte strings, one text or array each. -/
def Json.bytesList? : Json → Option (List Bytes) := Json.list? Json.bytes?

namespace StorageProof

/-- The proof of a slot as a JSON object. -/
def toJson (p : StorageProof) : Json :=
  .obj [("key", .quantity p.key), ("proof", .bytesList p.nodes)]

/-- The fields of the proof of a slot. -/
def fields : List (String × Json.Shape) := [("key", .any), ("proof", .any)]

/-- The proof of a slot from a JSON object. -/
def ofJson? : Json → Option StorageProof :=
  Json.record? fields do
    let key ← Json.required (Json.quantity? 256)
    let nodes ← Json.required Json.bytesList?
    pure ⟨key, nodes⟩

end StorageProof

namespace StateProof

/-- A state proof as a JSON object. -/
def toJson (p : StateProof) : Json :=
  .obj
    [("stateTrieWitness", .bytesList p.accountNodes),
     ("storageProofs", .arr (p.storageProofs.map (·.toJson))),
     ("storageRoot", .fixed p.storageRoot)]

/-- The fields of a state proof. -/
def fields : List (String × Json.Shape) :=
  [("stateTrieWitness", .any), ("storageProofs", .list (.record StorageProof.fields)),
   ("storageRoot", .fixed 32)]

/-- A state proof from a JSON object. -/
def ofJson? : Json → Option StateProof :=
  Json.record? fields do
    let accountNodes ← Json.required Json.bytesList?
    let storageProofs ← Json.required (Json.list? StorageProof.ofJson?)
    let storageRoot ← Json.required (Json.fixed? 32)
    pure { accountNodes, storageProofs, storageRoot }

/-- A state proof from JSON text. -/
def parse? (text : String) : Option StateProof :=
  (Json.parseAs? (.record fields) text).bind ofJson?

end StateProof

/-! ## Answers of nodes -/

/-- What a node answers about one slot. -/
structure SlotResponse where
  /-- The slot. -/
  key : UInt256
  /-- The stored number. -/
  value : UInt256
  /-- The trie nodes from the storage root down to the slot. -/
  proof : List Bytes
deriving DecidableEq

/-- What a node answers to a request for a proof. -/
structure ProofResponse where
  /-- The account. -/
  address : Address
  /-- Its balance. -/
  balance : UInt256
  /-- The digest of its code. -/
  codeHash : Word
  /-- Its nonce. -/
  nonce : BitVec 64
  /-- The root of its storage trie. -/
  storageHash : Word
  /-- The trie nodes from the state root down to the account. -/
  accountProof : List Bytes
  /-- One entry per requested slot. -/
  storageProof : List SlotResponse
deriving DecidableEq

namespace SlotResponse

/-- An entry as a JSON object. -/
def toJson (r : SlotResponse) : Json :=
  .obj [("key", .quantity r.key), ("value", .quantity r.value), ("proof", .bytesList r.proof)]

/-- The fields of an entry. -/
def fields : List (String × Json.Shape) := [("key", .any), ("value", .any), ("proof", .any)]

/-- An entry from a JSON object. -/
def ofJson? : Json → Option SlotResponse :=
  Json.record? fields do
    let key ← Json.required (Json.quantity? 256)
    let value ← Json.required (Json.quantity? 256)
    let proof ← Json.required Json.bytesList?
    pure { key, value, proof }

end SlotResponse

namespace ProofResponse

/-- The part of an answer that proves state. -/
def stateProof (r : ProofResponse) : StateProof where
  accountNodes := r.accountProof
  storageProofs := r.storageProof.map fun entry => ⟨entry.key, entry.proof⟩
  storageRoot := r.storageHash

/-- An answer as a JSON object. -/
def toJson (r : ProofResponse) : Json :=
  .obj
    [("address", .fixed r.address), ("balance", .quantity r.balance),
     ("codeHash", .fixed r.codeHash), ("nonce", .quantity r.nonce),
     ("storageHash", .fixed r.storageHash), ("accountProof", .bytesList r.accountProof),
     ("storageProof", .arr (r.storageProof.map (·.toJson)))]

/-- The fields of an answer. -/
def fields : List (String × Json.Shape) :=
  [("address", .fixed 20), ("balance", .any), ("codeHash", .fixed 32), ("nonce", .any),
   ("storageHash", .fixed 32), ("accountProof", .any),
   ("storageProof", .list (.record SlotResponse.fields))]

/-- An answer from a JSON object. A missing address is the zero address. -/
def ofJson? : Json → Option ProofResponse :=
  Json.record? fields do
    let address ← Json.defaulted Address.zero (Json.fixed? 20)
    let balance ← Json.required (Json.quantity? 256)
    let codeHash ← Json.required (Json.fixed? 32)
    let nonce ← Json.required (Json.quantity? 64)
    let storageHash ← Json.required (Json.fixed? 32)
    let accountProof ← Json.required Json.bytesList?
    let storageProof ← Json.required (Json.list? SlotResponse.ofJson?)
    pure { address, balance, codeHash, nonce, storageHash, accountProof, storageProof }

/-- An answer from JSON text. -/
def parse? (text : String) : Option ProofResponse :=
  (Json.parseAs? (.record fields) text).bind ofJson?

end ProofResponse

end StorageGateway
