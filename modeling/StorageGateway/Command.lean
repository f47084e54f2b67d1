import StorageGateway.Slot

/-!
# Commands

A command is a word that describes where one value is stored: a byte of flags and up to 31
instructions. Each instruction has its operation in the top three bits and an operand in the low
five bits.

## Main definitions

* `Instruction.decode?`, `Instruction.encode` — an instruction and its byte.
* `Command` — the word, with `Command.flags`, `Command.isDynamic` and `Command.instructions`.
* `Command.assemble?` — a command from its flags and instructions.
-/

namespace StorageGateway

/-! ## Instructions -/

/-- What an instruction does. -/
inductive Opcode where
  /-- Select an entry of the constants table. -/
  | constant
  /-- Select a value resolved earlier. -/
  | backref
  /-- End the command. -/
  | halt
deriving DecidableEq, Repr

namespace Opcode

/-- The top three bits of an instruction, the others being zero. -/
def bits : Opcode → UInt8
  | constant => 0x00
  | backref => 0x20
  | halt => 0xe0

/-- The operation of a byte whose low five bits are zero. -/
def ofBits? (b : UInt8) : Option Opcode :=
  if b = 0x00 then some constant
  else if b = 0x20 then some backref
  else if b = 0xe0 then some halt
  else none

/-- The name of the operation. -/
def name : Opcode → String
  | constant => "CONSTANT"
  | backref => "BACKREF"
  | halt => "HALT"

end Opcode

/-- The bits of an instruction that hold its operation. -/
def opcodeMask : UInt8 := 0xe0

/-- The bits of an instruction that hold its operand. -/
def operandMask : UInt8 := 0x1f

/-- One step of a command. -/
structure Instruction where
  /-- What to do. -/
  opcode : Opcode
  /-- The index it is done with; only its low five bits are encoded. -/
  operand : Nat
deriving DecidableEq, Repr

namespace Instruction

/-- The byte of an instruction. -/
def encode (i : Instruction) : UInt8 := i.opcode.bits ||| (UInt8.ofNat i.operand &&& operandMask)

/-- The instruction of a byte, unless its top bits are no operation. -/
def decode? (b : UInt8) : Option Instruction :=
  (Opcode.ofBits? (b &&& opcodeMask)).map fun op => ⟨op, (b &&& operandMask).toNat⟩

/-- The byte that ends a command. -/
def haltByte : UInt8 := 0xff

end Instruction

/-! ## Commands -/

/-- A command is a word: its flags byte, then its instruction bytes. -/
abbrev Command := Word

namespace Command

/-- The most instructions that a command can hold. -/
def maxInstructions : Nat := 31

/-- The flag of a value of dynamic length. -/
def dynamicFlag : UInt8 := 0x01

/-- The flags byte. -/
def flags (c : Command) : UInt8 := c.toList.headD 0

/-- Whether the value has a dynamic length: bit 0 of the flags. -/
def isDynamic (c : Command) : Bool := c.flags &&& dynamicFlag != 0

/-- The instruction bytes, the ones after a halt included. -/
def instructions (c : Command) : Bytes := c.toList.drop 1

/-- A command from its flags and at most 31 instructions; halts fill the rest of the word. -/
def assemble? (flags : UInt8) (instructions : Bytes) : Option Command :=
  FixedBytes.ofList? 32 (flags :: instructions ++
    List.replicate (maxInstructions - instructions.length) Instruction.haltByte)

@[simp] theorem length_instructions (c : Command) : c.instructions.length = maxInstructions := by
  simp [instructions, maxInstructions]

/-- A command can be assembled exactly when its instructions fit. -/
theorem isSome_assemble?_iff {flags : UInt8} {is : Bytes} :
    (assemble? flags is).isSome ↔ is.length ≤ maxInstructions := by
  rw [assemble?, FixedBytes.isSome_ofList?_iff]
  simp [maxInstructions]
  omega

end Command

end StorageGateway
