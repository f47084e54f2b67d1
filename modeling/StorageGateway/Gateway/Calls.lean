import StorageGateway.Abi.Codec
import StorageGateway.Gateway

/-!
# Calls

Requests arrive as call data of the function `getStorageSlots`, which has one form for a single
target and one for several. The first four bytes of call data tell the form; the arguments follow.
The answer is encoded as the return value of the same function.

## Main definitions

* `SingleCall` and `BatchCall` — the two forms, each with `encode` and `decode`.
* `SingleCall.encodeReturn`, `BatchCall.encodeReturn` — answers, with `decodeReturn` beside them.
* `Gateway.answer` — call data in, answer out.
-/

namespace StorageGateway

/-- The name of the function. -/
def callName : String := "getStorageSlots"

/-- The first four bytes of the call data of a function, for the function's signature. -/
def selectorOf (signature : String) : Bytes := (keccak256 (Bytes.ofText signature)).toList.take 4

/-- The arguments of call data that starts with the right selector. -/
def argumentsOf (selector data : Bytes) : Except Abi.Error Bytes :=
  if data.take 4 = selector then .ok (data.drop 4)
  else .error (.typeCheck callName (data.take 4))

/-- Words as they stand in call data. -/
def commandsCodec : Abi.Codec (List Command) := .array .word

/-! ## One target -/

/-- A call for one target. -/
structure SingleCall where
  /-- The contract. -/
  target : Address
  /-- One command per value. -/
  commands : List Command
  /-- The constants that the commands select from. -/
  constants : List Bytes
deriving DecidableEq

namespace SingleCall

/-- The types of the arguments. -/
def arguments : String := "(address,bytes32[],bytes[])"

/-- The selector of the form for one target. -/
def selector : Bytes := selectorOf (callName ++ arguments)

/-- The arguments as they stand in call data. -/
def fields : Abi.Fields (Word × List Command × List Bytes) :=
  .cons .address (.cons commandsCodec (.single (.array .bytes)))

/-- The call data of a call. -/
def encode (c : SingleCall) : Bytes :=
  selector ++ fields.encode (c.target.toWord, c.commands, c.constants)

/-- The call of call data. -/
def decode (data : Bytes) : Except Abi.Error SingleCall := do
  let data ← argumentsOf selector data
  let (target, commands, constants) ← fields.decode arguments data
  pure ⟨Address.ofWord target, commands, constants⟩

/-- The return value as it stands in an answer. -/
def returned : Abi.Fields Bytes := .single .bytes

/-- The answer that holds a proof. -/
def encodeReturn (proof : Bytes) : Bytes := returned.encode proof

/-- The proof that an answer holds. -/
def decodeReturn (data : Bytes) : Except Abi.Error Bytes := returned.decode "(bytes)" data

end SingleCall

/-! ## Several targets -/

/-- A call for several targets. -/
structure BatchCall where
  /-- What is asked about each target. -/
  requests : List TargetRequest
deriving DecidableEq

namespace BatchCall

/-- The types of the arguments, written out. -/
def signature : String := callName ++ "((address,bytes32[],bytes[],uint256)[])"

/-- The types of the arguments, by name. -/
def arguments : String := "(TargetRequest[])"

/-- The selector of the form for several targets. -/
def selector : Bytes := selectorOf signature

/-- The values of a request as they stand in call data. -/
abbrev Tokens := Word × List Command × List Bytes × Word

/-- The values of a request. -/
def toTokens (r : TargetRequest) : Tokens :=
  (r.target.toWord, r.commands, r.constants, r.operationIndex.toWord)

/-- A request from its values. -/
def ofTokens (t : Tokens) : TargetRequest :=
  ⟨Address.ofWord t.1, t.2.1, t.2.2.1, t.2.2.2.toUInt256⟩

/-- The arguments as they stand in call data. -/
def fields : Abi.Fields (List Tokens) :=
  .single (.array (.tuple
    (.cons .address (.cons commandsCodec (.cons (.array .bytes) (.single .word))))))

/-- The call data of a call. -/
def encode (c : BatchCall) : Bytes := selector ++ fields.encode (c.requests.map toTokens)

/-- The call of call data. -/
def decode (data : Bytes) : Except Abi.Error BatchCall := do
  let data ← argumentsOf selector data
  let requests ← fields.decode arguments data
  pure ⟨requests.map ofTokens⟩

/-- The return value as it stands in an answer. -/
def returned : Abi.Fields (List Bytes) := .single (.array .bytes)

/-- The answer that holds proofs. -/
def encodeReturn (proofs : List Bytes) : Bytes := returned.encode proofs

/-- The proofs that an answer holds. -/
def decodeReturn (data : Bytes) : Except Abi.Error (List Bytes) := returned.decode "(bytes[])" data

end BatchCall

/-! ## Answering -/

/-- Answers call data. -/
def Gateway.answer {σ β : Type} (g : Gateway σ β) (data : Bytes) : Run σ Bytes := do
  if data.length < 4 then throw (.unknownSelector data)
  if data.take 4 = SingleCall.selector then
    let call ← Run.ofResult (Result.ofAbi (SingleCall.decode data))
    let proof ← g.prove call.target call.commands call.constants
    pure (SingleCall.encodeReturn proof)
  else if data.take 4 = BatchCall.selector then
    let call ← Run.ofResult (Result.ofAbi (BatchCall.decode data))
    let proofs ← g.proveAll call.requests
    pure (BatchCall.encodeReturn proofs)
  else throw (.unknownSelector (data.take 4))

end StorageGateway
