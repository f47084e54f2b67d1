import StorageGateway.Json.Printer
import StorageGateway.Rpc
import StorageGateway.Storage

/-!
# Simulated nodes

A node that answers the three methods of a gateway from memory, and one that answers from a
script. Both record the requests that they get.

The words in storage are the same at every block, and the trie nodes of proofs are digests.

## Main definitions

* `SimulatedNode` and `SimulatedNode.client`.
* `ScriptedNode` and `ScriptedNode.client`.
-/

namespace StorageGateway

/-- A request as it is recorded: the method and its parameters. -/
abbrev RecordedCall := String × Json

/-- A node that answers from memory. -/
structure SimulatedNode where
  /-- The words in storage. -/
  storage : Storage := .empty
  /-- The headers by block number, the last one pushed first. -/
  headers : List (BitVec 64 × BlockHeader) := []
  /-- The requests so far, the last one first. -/
  calls : List RecordedCall := []
  /-- Whether requests fail. -/
  failRequests : Bool := false

namespace SimulatedNode

/-- Why a request has no result. -/
inductive Refusal where
  /-- The node fails all requests. -/
  | unreachable
  /-- The block tag is no text. -/
  | tagNotText (tag : Json)
  /-- The block tag has no digits. -/
  | tagEmpty
  /-- The block tag has something else than digits. -/
  | tagDigit
  /-- The block tag is a number of more than 64 bits. -/
  | tagOverflow
  /-- A parameter is missing or of the wrong form. -/
  | parameters
  /-- The method is unknown. -/
  | method (name : String)

/-- The wording of a refusal. -/
def Refusal.message : Refusal → Failure
  | unreachable => "connection refused"
  | tagNotText tag => "invalid block tag " ++ tag.sorted.compact
  | tagEmpty => "cannot parse integer from empty string"
  | tagDigit => "invalid digit found in string"
  | tagOverflow => "number too large to fit in target type"
  | parameters => "invalid parameters"
  | method name => s!"method {name} not supported"

/-! ## Blocks -/

/-- Stores a header for a block number. -/
def putHeader (node : SimulatedNode) (number : BitVec 64) (h : BlockHeader) : SimulatedNode :=
  { node with headers := (number, h) :: node.headers }

/-- The header of a new block. -/
def newHeader (number : BitVec 64) : BlockHeader :=
  { number
    stateRoot := keccak256 (BigEndian.encode 8 number.toNat)
    baseFeePerGas := some 7 }

/-- Adds a block. -/
def pushBlock (node : SimulatedNode) (number : BitVec 64) : SimulatedNode :=
  node.putHeader number (newHeader number)

/-- The header that was last stored for a block number. -/
def headerAt (node : SimulatedNode) (number : BitVec 64) : Option BlockHeader :=
  (node.headers.find? (·.1 = number)).map (·.2)

/-- The largest block number. -/
def lastNumber (node : SimulatedNode) : Option (BitVec 64) :=
  node.headers.foldl (fun last (n, _) => some (last.elim n fun m => if m < n then n else m)) none

/-! ## Block tags -/

/-- The characters after any number of leading marks. -/
def withoutMarks : List Char → List Char
  | '0' :: 'x' :: rest => withoutMarks rest
  | cs => cs

/-- The number that hexadecimal digits denote after `n`. -/
def hexNumber : (n : Nat) → List Char → Except Refusal (BitVec 64)
  | n, [] => .ok (BitVec.ofNat 64 n)
  | n, c :: cs =>
    match Hex.value? c with
    | none => .error .tagDigit
    | some d => if 16 * n + d < limit64 then hexNumber (16 * n + d) cs else .error .tagOverflow

/-- The number of a block tag: hexadecimal digits after a plus sign, if there is one. -/
def tagNumber (text : String) : Except Refusal (BitVec 64) :=
  match withoutMarks text.toList with
  | [] => .error .tagEmpty
  | ['+'] => .error .tagDigit
  | '+' :: cs => hexNumber 0 cs
  | cs => hexNumber 0 cs

/-- The block number that a tag means, if there is a block at all. -/
def blockNumber (node : SimulatedNode) : Json → Except Refusal (Option (BitVec 64))
  | .str text =>
    if text = "latest" ∨ text = "finalized" then .ok node.lastNumber
    else (tagNumber text).map some
  | tag => .error (.tagNotText tag)

/-! ## Methods -/

/-- The storage root that the node reports for an account. -/
def storageHash (address : Address) : Word := keccak256 (keccak256 address.toList).toList

/-- The trie node that the node reports for an account. -/
def accountNode (address : Address) : Bytes := (keccak256 address.toList).toList

/-- The trie node that the node reports for a slot. -/
def slotNode (slot : UInt256) : Bytes := (keccak256 slot.toWord.toList).toList

/-- What the node answers about slots of an account. -/
def proofResponse (node : SimulatedNode) (address : Address) (slots : List UInt256) :
    ProofResponse where
  address := address
  balance := 0
  codeHash := keccak256 []
  nonce := 1
  storageHash := storageHash address
  accountProof := [accountNode address]
  storageProof := slots.map fun slot =>
    { key := slot, value := (node.storage.word address slot).toUInt256, proof := [slotNode slot] }

/-- The parameter at an index; `null` where there is none. -/
def parameter (params : Json) (i : Nat) : Json :=
  match params with
  | .arr items => items.getD i .null
  | _ => .null

/-- A parameter, read. -/
def readParameter {α : Type} (read : Json → Option α) (params : Json) (i : Nat) :
    Except Refusal α :=
  match read (parameter params i) with
  | some a => .ok a
  | none => .error .parameters

/-- The result of a method. -/
def result (node : SimulatedNode) (method : String) (params : Json) : Except Refusal Json :=
  if node.failRequests then .error .unreachable
  else if method = "eth_getBlockByNumber" then do
    let number ← node.blockNumber (parameter params 0)
    pure ((number.bind node.headerAt).elim .null BlockHeader.toJson)
  else if method = "eth_getStorageAt" then do
    let address ← readParameter (Json.fixed? 20) params 0
    let slot ← readParameter (Json.quantity? 256) params 1
    pure (.fixed (node.storage.word address slot))
  else if method = "eth_getProof" then do
    let address ← readParameter (Json.fixed? 20) params 0
    let slots ← readParameter (Json.list? (Json.quantity? 256)) params 1
    pure (node.proofResponse address slots).toJson
  else .error (.method method)

/-- Records a request and answers it. -/
def request (method : String) (params : Json) :
    StateM SimulatedNode (Except Refusal Json) := fun node =>
  (node.result method params, { node with calls := (method, params) :: node.calls })

/-- The client of a simulated node. -/
def client : Client SimulatedNode where
  request method params := ExceptT.mk (Except.mapError Refusal.message <$> request method params)

end SimulatedNode

/-! ## Scripts -/

/-- A node that gives the answers of a script, one per request. -/
structure ScriptedNode where
  /-- The answers that are left. -/
  script : List (Except Failure Json)
  /-- The requests so far, the last one first. -/
  calls : List RecordedCall := []

namespace ScriptedNode

/-- What is said when the script has no answer left. -/
def exhausted : Failure := "script exhausted"

/-- The client of a scripted node. -/
def client : Client ScriptedNode where
  request method params := ExceptT.mk fun node =>
    (node.script.headD (.error exhausted),
      { script := node.script.tail, calls := (method, params) :: node.calls })

end ScriptedNode

end StorageGateway
