import StorageGateway.Command
import StorageGateway.Error

/-!
# Slot derivation

Executing a command gives the base slot of the value it describes. The first instruction selects
the slot to start from; each further one selects a key and moves to the slot that a mapping based
at the current slot keeps for that key. A halt, or the end of the word, ends the command.

## Main definitions

* `Tables` — the constants and earlier values that instructions select from.
* `Tables.execute` — one instruction.
* `mappingSlot` — the slot of a key in a mapping.
* `Tables.derive` — the base slot of a command.
-/

namespace StorageGateway

/-- What the instructions of a command select from. -/
structure Tables where
  /-- The constants of the request. -/
  constants : List Bytes
  /-- The values resolved so far. -/
  values : List Bytes

/-- Where a value starts. -/
structure BaseSlot where
  /-- The slot. -/
  slot : UInt256
  /-- Whether the value there has a dynamic length. -/
  isDynamic : Bool
deriving DecidableEq

/-- The slot of `key` in a mapping based at `base`: the digest of the key and the base. -/
def mappingSlot (key : Bytes) (base : UInt256) : UInt256 :=
  (keccak256 (key ++ base.toWord.toList)).toUInt256

namespace Tables

/-- The entry that an instruction selects, or `none` for a halt. The position of the instruction
in the word is for the error only. -/
def execute (tables : Tables) (byte : UInt8) (position : Nat) : Result (Option Bytes) :=
  match Instruction.decode? byte with
  | none => .error (.unrecognizedOpcode (byte &&& opcodeMask) position)
  | some ⟨.constant, index⟩ =>
    match tables.constants[index]? with
    | some entry => .ok (some entry)
    | none => .error (.operandOutOfRange index tables.constants.length)
  | some ⟨.backref, index⟩ =>
    match tables.values[index]? with
    | some entry => .ok (some entry)
    | none => .error (.forwardBackreference index tables.values.length)
  | some ⟨.halt, _⟩ => .ok none

/-- The slot reached from `slot` by the keys that the remaining instructions select, the first of
them at `position`. -/
def follow (tables : Tables) : (position : Nat) → (slot : UInt256) → Bytes → Result UInt256
  | _, slot, [] => .ok slot
  | position, slot, byte :: bytes => do
    match ← tables.execute byte position with
    | none => .ok slot
    | some key => tables.follow (position + 1) (mappingSlot key slot) bytes

/-- The slot to start from: an entry of at most 32 bytes, read as a number. -/
def seed (tables : Tables) (byte : UInt8) : Result UInt256 := do
  match ← tables.execute byte 1 with
  | none => .error (.malformedCommand "command halts before its seed instruction")
  | some entry =>
    if entry.length ≤ 32 then .ok (BitVec.ofNat 256 (BigEndian.decode entry))
    else .error (.seedTooLarge entry.length)

/-- The base slot of the value that a command describes. -/
def derive (tables : Tables) (command : Command) : Result BaseSlot := do
  let slot ← tables.seed (command.instructions.headD Instruction.haltByte)
  let slot ← tables.follow 2 slot command.instructions.tail
  pure ⟨slot, command.isDynamic⟩

end Tables

end StorageGateway
