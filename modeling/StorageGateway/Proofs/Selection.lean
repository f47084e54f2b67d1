import Mathlib.Tactic.MkIffOfInductiveProp
import StorageGateway.Command.Derivation
import StorageGateway.Proofs.Run

/-!
# What instructions select

An instruction ends the command, selects an entry of the tables or is at fault, and its bits alone
tell which: the top three bits are the operation, and the low five bits the index of the entry. This
is what executing an instruction comes to, and the instructions before the first halt are the ones
that are executed.

## Main definitions

* `Instruction.beforeHalt`, `Command.executed` — the instructions up to the first halt.
* `Tables.selected?` — the entry that an instruction selects.
* `Tables.Selects` — the entries that several instructions select.
* `Tables.Misses`, `Tables.MissesAt` — what is wrong with an instruction.

## Main statements

* `Command.executed_eq_takeWhile`, `Command.isDynamic_eq_testBit` — the bits of a command.
* `Command.executed_of_assemble?` — what an assembled command executes.
* `Tables.execute_eq_none_iff`, `Tables.execute_eq_some_iff`, `Tables.execute_eq_error_iff` — what
  an instruction does.
* `Tables.exists_selects_iff` — when all instructions select something.
-/

namespace StorageGateway

/-- The operation of an instruction byte, unless it is none. -/
def Instruction.opcode? (byte : UInt8) : Option Opcode := (decode? byte).map (·.opcode)

/-- The bytes before the first halt. -/
def Instruction.beforeHalt (bytes : Bytes) : Bytes :=
  bytes.takeWhile fun byte => opcode? byte != some .halt

/-- The instructions of a command up to its first halt, or all of them. -/
def Command.executed (c : Command) : Bytes := Instruction.beforeHalt c.instructions

/-! ## What is executed -/

namespace Instruction

variable {byte : UInt8} {bytes : Bytes}

theorem beforeHalt_of_halt (h : opcode? byte = some .halt) : beforeHalt (byte :: bytes) = [] :=
  List.takeWhile_cons_of_neg (by simp [h])

theorem beforeHalt_of_ne_halt (h : opcode? byte ≠ some .halt) :
    beforeHalt (byte :: bytes) = byte :: beforeHalt bytes :=
  List.takeWhile_cons_of_pos (by simpa using h)

theorem beforeHalt_append_replicate (bytes : Bytes) (count : Nat) :
    beforeHalt (bytes ++ List.replicate count haltByte) = beforeHalt bytes := by
  induction bytes with
  | nil =>
    cases count with
    | zero => rfl
    | succ count => exact beforeHalt_of_halt rfl
  | cons byte bytes ih =>
    rw [List.cons_append]
    by_cases hh : opcode? byte = some .halt
    · rw [beforeHalt_of_halt hh, beforeHalt_of_halt hh]
    · rw [beforeHalt_of_ne_halt hh, beforeHalt_of_ne_halt hh, ih]

end Instruction

theorem Command.exists_instructions_eq_cons (c : Command) :
    ∃ byte bytes, c.instructions = byte :: bytes :=
  List.exists_cons_of_length_pos (by simp [maxInstructions])

/-- The halts that fill a word are not executed. -/
theorem Command.executed_of_assemble? {flags : UInt8} {is : Bytes} {c : Command}
    (h : assemble? flags is = some c) :
    c.flags = flags ∧ c.executed = Instruction.beforeHalt is := by
  have hlist := FixedBytes.toList_of_ofList? h
  rw [executed, Command.flags, instructions, hlist]
  exact ⟨rfl, Instruction.beforeHalt_append_replicate is _⟩

/-! ## Bits -/

/-- The top three bits of a byte are one of three operations or none, and its low five bits are the
operand. -/
theorem Instruction.decode?_cases (byte : UInt8) :
    (byte &&& 0xe0 = 0x00 ∧ decode? byte = some ⟨.constant, (byte &&& 0x1f).toNat⟩) ∨
    (byte &&& 0xe0 = 0x20 ∧ decode? byte = some ⟨.backref, (byte &&& 0x1f).toNat⟩) ∨
    (byte &&& 0xe0 = 0xe0 ∧ decode? byte = some ⟨.halt, (byte &&& 0x1f).toNat⟩) ∨
    (byte &&& 0xe0 ≠ 0x00 ∧ byte &&& 0xe0 ≠ 0x20 ∧ byte &&& 0xe0 ≠ 0xe0 ∧ decode? byte = none) := by
  rw [decode?, opcodeMask, operandMask]
  generalize byte &&& 0xe0 = top
  by_cases hc : top = 0x00
  · exact .inl ⟨hc, by rw [hc]; rfl⟩
  by_cases hv : top = 0x20
  · exact .inr (.inl ⟨hv, by rw [hv]; rfl⟩)
  by_cases hh : top = 0xe0
  · exact .inr (.inr (.inl ⟨hh, by rw [hh]; rfl⟩))
  · exact .inr (.inr (.inr ⟨hc, hv, hh, by simp [Opcode.ofBits?, hc, hv, hh]⟩))

/-- A byte ends a command if its top three bits are set. -/
theorem Instruction.opcode?_eq_halt_iff {byte : UInt8} :
    opcode? byte = some .halt ↔ byte &&& 0xe0 = 0xe0 := by
  rw [opcode?]
  rcases decode?_cases byte with ⟨h, hd⟩ | ⟨h, hd⟩ | ⟨h, hd⟩ | ⟨-, -, h, hd⟩ <;> simp [h, hd]

theorem Command.executed_eq_takeWhile (c : Command) :
    c.executed = c.instructions.takeWhile fun byte => byte &&& 0xe0 != 0xe0 := by
  rw [executed, Instruction.beforeHalt]
  congr 1
  funext byte
  rw [Bool.eq_iff_iff, bne_iff_ne, bne_iff_ne, Ne, Ne, Instruction.opcode?_eq_halt_iff]

/-- The flag of a dynamic value is the lowest bit of the first byte. -/
theorem Command.isDynamic_eq_testBit (c : Command) : c.isDynamic = c.flags.toNat.testBit 0 := by
  have hbit : (c.flags &&& dynamicFlag).toNat = c.flags.toNat % 2 := by
    rw [UInt8.toNat_and]
    exact Nat.and_one_is_mod _
  rw [isDynamic, Nat.testBit_zero, Bool.eq_iff_iff, bne_iff_ne, decide_eq_true_iff, Ne,
    ← UInt8.toNat_inj, hbit, UInt8.toNat_zero]
  omega

/-! ## Entries and faults -/

namespace Tables

/-- The entry that an instruction selects: the top three bits choose the table, and the low five
bits the entry. -/
def selected? (t : Tables) (byte : UInt8) : Option Bytes :=
  if byte &&& 0xe0 = 0x00 then t.constants[(byte &&& 0x1f).toNat]?
  else if byte &&& 0xe0 = 0x20 then t.values[(byte &&& 0x1f).toNat]?
  else none

/-- The instructions select these entries, one each. -/
def Selects (t : Tables) (program : Bytes) (entries : List Bytes) : Prop :=
  List.Forall₂ (fun byte entry => t.selected? byte = some entry) program entries

/-- What is wrong with an instruction at a position of the word that neither ends the command nor
selects an entry. -/
@[mk_iff]
inductive Misses (t : Tables) (byte : UInt8) (position : Nat) : Error → Prop where
  /-- The top three bits are no operation. -/
  | operation (hc : byte &&& 0xe0 ≠ 0x00) (hv : byte &&& 0xe0 ≠ 0x20) (hh : byte &&& 0xe0 ≠ 0xe0) :
      Misses t byte position (.unrecognizedOpcode (byte &&& 0xe0) position)
  /-- There are not so many constants. -/
  | constant (hop : byte &&& 0xe0 = 0x00) (hlen : t.constants.length ≤ (byte &&& 0x1f).toNat) :
      Misses t byte position (.operandOutOfRange (byte &&& 0x1f).toNat t.constants.length)
  /-- There are not so many values yet. -/
  | value (hop : byte &&& 0xe0 = 0x20) (hlen : t.values.length ≤ (byte &&& 0x1f).toNat) :
      Misses t byte position (.forwardBackreference (byte &&& 0x1f).toNat t.values.length)

/-- What is wrong with the instruction at an index, the first of them being at `position` in the
word. -/
def MissesAt (t : Tables) (position : Nat) (program : Bytes) (index : Nat) (e : Error) : Prop :=
  ∃ byte, program[index]? = some byte ∧ t.Misses byte (position + index) e

variable {t : Tables} {byte : UInt8} {bytes program : Bytes} {entries : List Bytes}
  {position index : Nat} {e : Error}

/-! ## One instruction -/

theorem selected?_eq_some_iff {entry : Bytes} :
    t.selected? byte = some entry ↔
      (byte &&& 0xe0 = 0x00 ∧ t.constants[(byte &&& 0x1f).toNat]? = some entry) ∨
      (byte &&& 0xe0 = 0x20 ∧ t.values[(byte &&& 0x1f).toNat]? = some entry) := by
  rw [selected?]
  by_cases hc : byte &&& 0xe0 = 0x00
  · simp [hc]
  · by_cases hv : byte &&& 0xe0 = 0x20 <;> simp [hc, hv]

theorem exists_selected?_iff :
    (∃ entry, t.selected? byte = some entry) ↔
      (byte &&& 0xe0 = 0x00 ∧ (byte &&& 0x1f).toNat < t.constants.length) ∨
      (byte &&& 0xe0 = 0x20 ∧ (byte &&& 0x1f).toNat < t.values.length) := by
  simp [selected?_eq_some_iff, exists_or, ← Option.isSome_iff_exists]

/-- A halt selects nothing. -/
theorem execute_eq_none_iff :
    t.execute byte position = .ok none ↔ Instruction.opcode? byte = some .halt := by
  rw [execute, Instruction.opcode?_eq_halt_iff]
  rcases Instruction.decode?_cases byte with ⟨h, hd⟩ | ⟨h, hd⟩ | ⟨h, hd⟩ | ⟨-, -, h, hd⟩
  · generalize (byte &&& 0x1f).toNat = index at hd ⊢
    cases hx : t.constants[index]? <;> simp [h, hd, hx]
  · generalize (byte &&& 0x1f).toNat = index at hd ⊢
    cases hx : t.values[index]? <;> simp [h, hd, hx]
  · simp [h, hd]
  · simp [h, hd]

theorem execute_eq_some_iff {entry : Bytes} :
    t.execute byte position = .ok (some entry) ↔ t.selected? byte = some entry := by
  rw [execute, selected?]
  rcases Instruction.decode?_cases byte with ⟨h, hd⟩ | ⟨h, hd⟩ | ⟨h, hd⟩ | ⟨hc, hv, -, hd⟩
  · generalize (byte &&& 0x1f).toNat = index at hd ⊢
    cases hx : t.constants[index]? <;> simp [h, hd, hx]
  · generalize (byte &&& 0x1f).toNat = index at hd ⊢
    cases hx : t.values[index]? <;> simp [h, hd, hx]
  · simp [h, hd]
  · simp [hc, hv, hd]

theorem execute_eq_error_iff :
    t.execute byte position = .error e ↔ t.Misses byte position e := by
  rw [execute, misses_iff]
  rcases Instruction.decode?_cases byte with ⟨h, hd⟩ | ⟨h, hd⟩ | ⟨h, hd⟩ | ⟨hc, hv, hh, hd⟩
  · generalize (byte &&& 0x1f).toNat = index at hd ⊢
    rcases Nat.lt_or_ge index t.constants.length with hi | hi
    · simp [h, hd, hi, Nat.not_le.2 hi]
    · simp [h, hd, hi, eq_comm]
  · generalize (byte &&& 0x1f).toNat = index at hd ⊢
    rcases Nat.lt_or_ge index t.values.length with hi | hi
    · simp [h, hd, hi, Nat.not_le.2 hi]
    · simp [h, hd, hi, eq_comm]
  · simp [h, hd]
  · simp [hc, hv, hh, hd, opcodeMask, eq_comm]

/-- An instruction ends the command, selects an entry, or is at fault. -/
theorem execute_cases (t : Tables) (byte : UInt8) (position : Nat) :
    (Instruction.opcode? byte = some .halt ∧ t.execute byte position = .ok none) ∨
    (Instruction.opcode? byte ≠ some .halt ∧
      ((∃ entry, t.selected? byte = some entry ∧ t.execute byte position = .ok (some entry)) ∨
      (t.selected? byte = none ∧ ∃ e, t.execute byte position = .error e))) := by
  have hhalt : Instruction.opcode? byte = some .halt ↔ t.execute byte position = .ok none :=
    execute_eq_none_iff.symm
  have hselected : ∀ entry,
      t.selected? byte = some entry ↔ t.execute byte position = .ok (some entry) :=
    fun _ => execute_eq_some_iff.symm
  rw [Option.eq_none_iff_forall_ne_some]
  simp only [hhalt, hselected, Ne]
  rcases t.execute byte position with e | _ | entry <;> simp

/-- An instruction that selects an entry is no halt. -/
theorem ne_halt_of_selected? {entry : Bytes} (h : t.selected? byte = some entry) :
    Instruction.opcode? byte ≠ some .halt := by
  intro hh
  have hnone : t.execute byte 0 = .ok none := execute_eq_none_iff.2 hh
  rw [execute_eq_some_iff.2 h] at hnone
  cases hnone

/-- An instruction that selects an entry is not at fault. -/
theorem not_misses_of_selected? {entry : Bytes} (h : t.selected? byte = some entry) :
    ¬ t.Misses byte position e := by
  rw [← execute_eq_error_iff, execute_eq_some_iff.2 h]
  intro he
  cases he

/-- An instruction is at fault in one way at most. -/
theorem misses_iff_eq {e₀ : Error} (h : t.execute byte position = .error e₀) :
    t.Misses byte position e ↔ e = e₀ := by
  rw [← execute_eq_error_iff, h, Except.error.injEq, eq_comm]

/-! ## Several instructions -/

@[simp] theorem selects_nil_iff : t.Selects [] entries ↔ entries = [] :=
  List.forall₂_nil_left_iff

theorem selects_cons_iff :
    t.Selects (byte :: bytes) entries ↔
      ∃ entry rest, t.selected? byte = some entry ∧ t.Selects bytes rest ∧
        entries = entry :: rest := by
  rw [Selects, List.forall₂_cons_left_iff]
  rfl

theorem missesAt_zero_iff :
    t.MissesAt position (byte :: bytes) 0 e ↔ t.Misses byte position e := by
  simp [MissesAt]

theorem missesAt_succ_iff :
    t.MissesAt position (byte :: bytes) (index + 1) e ↔
      t.MissesAt (position + 1) bytes index e := by
  rw [MissesAt, MissesAt, List.getElem?_cons_succ, Nat.add_right_comm, ← Nat.add_assoc]

theorem not_missesAt_nil : ¬ t.MissesAt position [] index e := by
  simp [MissesAt]

theorem exists_selects_iff :
    (∃ entries, t.Selects program entries) ↔
      ∀ byte ∈ program, ∃ entry, t.selected? byte = some entry := by
  induction program with
  | nil => simp
  | cons byte program ih =>
    rw [List.forall_mem_cons, ← ih]
    simp only [selects_cons_iff]
    constructor
    · intro h
      obtain ⟨_, entry, rest, hentry, hrest, rfl⟩ := h
      exact ⟨⟨entry, hentry⟩, rest, hrest⟩
    · intro h
      obtain ⟨⟨entry, hentry⟩, rest, hrest⟩ := h
      exact ⟨_, entry, rest, hentry, hrest, rfl⟩

end Tables

end StorageGateway
