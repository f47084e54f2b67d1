import StorageGateway.BlockHeader.Json
import StorageGateway.OutputRoot
import StorageGateway.Service
import StorageGateway.StateProof.Json

/-!
# Reading a chain through its nodes

Nodes answer JSON-RPC requests: a method and an array of parameters. Three methods are enough for
a gateway: a header by block number or tag, the word at a slot, and the proof of an account with
slots.

## Main definitions

* `Client` — a way to send requests.
* `Client.header`, `Client.storageAt`, `Client.proofs` — the three methods.
* `Client.outputRoot` — what the output root of a block commits to.
-/

namespace StorageGateway

/-- A way to send requests to a node; `σ` is the state of the node. -/
structure Client (σ : Type) where
  /-- The result of a method for an array of parameters. -/
  request : String → Json → Query σ Json

/-- Which block is meant. -/
inductive BlockTag where
  /-- The last block. -/
  | latest
  /-- The last block that is final. -/
  | finalized
  /-- The block of a number. -/
  | number (n : BitVec 64)
deriving DecidableEq

namespace BlockTag

/-- A tag as a parameter. -/
def toJson : BlockTag → Json
  | latest => .str "latest"
  | finalized => .str "finalized"
  | number n => .quantity n

/-- A tag in a message. -/
def describe : BlockTag → String
  | latest => "Latest"
  | finalized => "Finalized"
  | number n => s!"Number({n.toNat})"

end BlockTag

namespace Client

variable {σ : Type}

/-- The failure of a method whose result cannot be read. -/
def invalidResponse (method : String) : Failure := s!"Invalid {method} response"

/-- Sends a request and reads its result. -/
def call {α : Type} (c : Client σ) (method : String) (params : List Json)
    (read : Json → Option α) : Query σ α := do
  let result ← c.request method (.arr params)
  match read result with
  | some a => pure a
  | none => throw (invalidResponse method)

/-- A value that may be `null`. -/
def nullable {α : Type} (read : Json → Option α) : Json → Option (Option α)
  | .null => some none
  | j => (read j).map some

/-- The header of a block, which has to exist. -/
def header (c : Client σ) (tag : BlockTag) : Query σ BlockHeader := do
  let found ← c.call "eth_getBlockByNumber" [tag.toJson, .bool false]
    (nullable BlockHeader.ofJson?)
  match found with
  | some h => pure h
  | none => throw s!"Block {tag.describe} not found"

/-- The word at a slot of a contract. -/
def storageAt (c : Client σ) (number : BitVec 64) (address : Address) (slot : UInt256) :
    Query σ Word :=
  c.call "eth_getStorageAt"
    [.fixed address, .fixed slot.toWord, (BlockTag.number number).toJson] (Json.fixed? 32)

/-- The proof of a contract and of slots in its storage. -/
def proofs (c : Client σ) (number : BitVec 64) (address : Address) (slots : List UInt256) :
    Query σ StateProof := do
  let response ← c.call "eth_getProof"
    [.fixed address, .arr (slots.map fun slot => .fixed slot.toWord),
     (BlockTag.number number).toJson] ProofResponse.ofJson?
  pure response.stateProof

/-- What the output root of a block commits to. -/
def outputRoot (c : Client σ) (number : BitVec 64) : Query σ OutputRoot := do
  let header ← c.header (.number number)
  let passer ← c.proofs number OutputRoot.messagePasser []
  pure
    { version := Word.zero
      stateRoot := header.stateRoot
      messagePasserStorageRoot := passer.storageRoot
      latestBlockhash := header.hash }

end Client

end StorageGateway
