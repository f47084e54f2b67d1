import StorageGateway.Rlp
import StorageGateway.Abi.Part

/-!
# Errors of a gateway

What can go wrong while slots are derived, values are read and proofs are encoded. A failure
anywhere in a request ends the whole request.

Two kinds of error tell a caller what to do next: an error of the chain state may go away with a
newer block, an error of the request itself will not.

## Main definitions

* `Error` — the causes, with `Error.message` for their wording.
* `Error.isChainState`, `Error.isMalformedRequest` — the two kinds.
-/

namespace StorageGateway

/-- What an external collaborator says when it fails. -/
abbrev Failure := String

/-- Why a request was not answered. -/
inductive Error where
  /-- The instruction at `position` has no known operation. -/
  | unrecognizedOpcode (opcode : UInt8) (position : Nat)
  /-- A constant is selected that is not in the table. -/
  | operandOutOfRange (index length : Nat)
  /-- A value is selected that is not resolved yet. -/
  | forwardBackreference (index available : Nat)
  /-- The command cannot be executed at all. -/
  | malformedCommand (reason : String)
  /-- The first selected entry has more bytes than a slot. -/
  | seedTooLarge (length : Nat)
  /-- The request has more commands than the gateway accepts. -/
  | tooManyCommands (count max : Nat)
  /-- The target stands for an earlier value that is no address. -/
  | invalidTargetReference (target : Address)
  /-- The call data is of no supported function. -/
  | unknownSelector (selector : Bytes)
  /-- The chain gave answers that do not fit together. -/
  | inconsistentState (reason : String)
  /-- The word at `slot` is no length word. -/
  | malformedValue (slot : UInt256) (reason : String)
  /-- The value at `slot` is longer than the gateway accepts. -/
  | valueTooLarge (slot length : UInt256) (max : Nat)
  /-- A proof does not fit into the verifier's layout. -/
  | encoding (reason : String)
  /-- Call data or proof data is not well encoded. -/
  | abi (cause : Abi.Error)
  /-- A node, a leaf or a header is not well encoded. -/
  | rlp (cause : Rlp.Error)
  /-- A collaborator failed. -/
  | io (failure : Failure)
  /-- The failure that the first reader of a value met, given to every reader of it. -/
  | memoized (cause : Error)
deriving DecidableEq

namespace Error

/-- The wording of an error. -/
def message : Error → String
  | unrecognizedOpcode opcode position =>
    s!"Unrecognized opcode 0x{Hex.digits [opcode]} at position {position}"
  | operandOutOfRange index length => s!"Constant operand {index} out of range ({length} constants)"
  | forwardBackreference index available =>
    s!"Backreference {index} is not resolved yet ({available} values available)"
  | malformedCommand reason => s!"Malformed command: {reason}"
  | seedTooLarge length => s!"Seed value of {length} bytes does not fit in a storage slot"
  | tooManyCommands count max => s!"Too many commands: {count} > {max}"
  | invalidTargetReference target => s!"Invalid target reference {target.checksummed}"
  | unknownSelector selector => s!"Unknown function selector 0x{Hex.digits selector}"
  | inconsistentState reason => s!"Inconsistent chain state: {reason}"
  | malformedValue slot reason => s!"Malformed dynamic value at slot {slot.toNat}: {reason}"
  | valueTooLarge slot length max =>
    s!"Dynamic value at slot {slot.toNat} is {length.toNat} bytes, limit is {max}"
  | encoding reason => s!"Encoding error: {reason}"
  | abi cause => cause.message
  | rlp cause => s!"RLP error: {cause.message}"
  | io failure => failure
  | memoized cause => cause.message

/-- Whether the chain state may have moved on since the block was selected; a newer block may
help. -/
def isChainState : Error → Bool
  | inconsistentState _ | malformedValue .. | valueTooLarge .. => true
  | memoized cause => cause.isChainState
  | _ => false

/-- Whether the request itself is at fault; asking again will not help. -/
def isMalformedRequest : Error → Bool
  | unrecognizedOpcode .. | operandOutOfRange .. | forwardBackreference .. | malformedCommand _
  | seedTooLarge _ | tooManyCommands .. | invalidTargetReference _ | unknownSelector _ | abi _ =>
    true
  | memoized cause => cause.isMalformedRequest
  | _ => false

end Error

/-- What can fail with an `Error`. -/
abbrev Result := Except Error

namespace Result

variable {α : Type}

/-- The outcome of reading call data or proof data. -/
def ofAbi : Except Abi.Error α → Result α := Except.mapError .abi

/-- The outcome of reading RLP. -/
def ofRlp : Except Rlp.Error α → Result α := Except.mapError .rlp

end Result

end StorageGateway
