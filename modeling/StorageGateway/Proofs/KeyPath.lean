import StorageGateway.Proofs.Selection

/-!
# Key paths

What a command derives can be said without executing it. If each instruction before the first halt
selects an entry, the first entry is the slot to start from and the others are the keys of nested
mappings; otherwise the derivation fails with the fault that comes first.

## Main definitions

* `KeyPath` — the entries that lead to a slot, and `KeyPath.slot`.
* `Tables.FaultAt` — what is wrong with a program at an index.
* `Leftmost` — the fault that comes first.

## Main statements

* `Tables.seed_eq_ok_iff`, `Tables.seed_eq_error_iff` — the first instruction.
* `Tables.follow_eq_ok_iff`, `Tables.follow_eq_error_iff` — the instructions after the first one.
* `Tables.derive_eq_ok_iff`, `Tables.derive_eq_error_iff` — slots and errors of a command.
* `Tables.denotation_of_derive` — a derivation is what its instructions say.
-/

namespace StorageGateway

/-! ## Paths -/

/-- A way to a slot: the entry to start from, and the keys to follow from there. -/
structure KeyPath where
  /-- The slot to start from, in at most 32 bytes. -/
  seed : Bytes
  /-- One key per mapping, the outermost mapping first. -/
  keys : List Bytes
deriving DecidableEq

namespace KeyPath

/-- The seed and the keys. -/
def entries (p : KeyPath) : List Bytes := p.seed :: p.keys

/-- The slot to start from. -/
def start (p : KeyPath) : UInt256 := BitVec.ofNat 256 (BigEndian.decode p.seed)

/-- The slot that the keys lead to from `slot`. -/
def follow (slot : UInt256) (keys : List Bytes) : UInt256 :=
  keys.foldl (fun slot key => mappingSlot key slot) slot

/-- The slot at the end of the path. -/
def slot (p : KeyPath) : UInt256 := follow p.start p.keys

theorem slot_eq_foldl (p : KeyPath) :
    p.slot = p.keys.foldl (fun slot key => (keccak256 (key ++ slot.toWord.toList)).toUInt256)
      (BitVec.ofNat 256 (BigEndian.decode p.seed)) := rfl

@[simp] theorem follow_nil (slot : UInt256) : follow slot [] = slot := rfl

@[simp] theorem follow_cons (slot : UInt256) (key : Bytes) (keys : List Bytes) :
    follow slot (key :: keys) = follow (mappingSlot key slot) keys := rfl

end KeyPath

/-! ## Faults -/

/-- What is wrong with a program at an index. -/
inductive Tables.FaultAt (t : Tables) (program : Bytes) : (index : Nat) → Error → Prop where
  /-- There is no instruction to start from. -/
  | empty (h : program = []) :
      FaultAt t program 0 (.malformedCommand "command halts before its seed instruction")
  /-- The instruction is at fault. The first one comes after the byte of flags. -/
  | instruction {index : Nat} {e : Error} (h : t.MissesAt 1 program index e) :
      FaultAt t program index e
  /-- The first entry has more bytes than a slot. -/
  | seed {byte : UInt8} {entry : Bytes} (hb : program[0]? = some byte)
      (he : t.selected? byte = some entry) (hl : 32 < entry.length) :
      FaultAt t program 0 (.seedTooLarge entry.length)

/-- An error at the first index that has one. -/
def Leftmost (faults : Nat → Error → Prop) (e : Error) : Prop :=
  ∃ i, faults i e ∧ ∀ j < i, ∀ e', ¬ faults j e'

section

variable {faults : Nat → Error → Prop} {e e₀ : Error}

/-- What is wrong at the very first index comes before everything else. -/
theorem leftmost_iff_eq (h : ∀ e, faults 0 e ↔ e = e₀) : Leftmost faults e ↔ e = e₀ := by
  constructor
  · intro hl
    obtain ⟨i, hi, hbefore⟩ := hl
    rcases Nat.eq_zero_or_pos i with rfl | hpos
    · exact (h e).1 hi
    · exact absurd ((h e₀).2 rfl) (hbefore 0 hpos e₀)
  · intro he
    exact ⟨0, (h e).2 he, fun j hj => absurd hj (Nat.not_lt_zero j)⟩

/-- If nothing is wrong at the first index, the others decide. -/
theorem leftmost_iff_succ (h : ∀ e, ¬ faults 0 e) :
    Leftmost faults e ↔ Leftmost (fun i e => faults (i + 1) e) e := by
  constructor
  · intro hl
    obtain ⟨i, hi, hbefore⟩ := hl
    cases i with
    | zero => exact absurd hi (h e)
    | succ i => exact ⟨i, hi, fun j hj => hbefore (j + 1) (Nat.succ_lt_succ hj)⟩
  · intro hl
    obtain ⟨i, hi, hbefore⟩ := hl
    refine ⟨i + 1, hi, ?_⟩
    intro j hj
    cases j with
    | zero => exact h
    | succ j => exact hbefore j (Nat.lt_of_succ_lt_succ hj)

end

/-! ## Keys -/

namespace Tables

variable {t : Tables} {byte : UInt8} {bytes program : Bytes} {position index : Nat} {e : Error}

section

variable {slot : UInt256}

theorem follow_of_none (hx : t.execute byte position = .ok none) :
    t.follow position slot (byte :: bytes) = .ok slot := by
  rw [follow, hx]
  rfl

theorem follow_of_some {key : Bytes} (hx : t.execute byte position = .ok (some key)) :
    t.follow position slot (byte :: bytes) =
      t.follow (position + 1) (mappingSlot key slot) bytes := by
  rw [follow, hx]
  rfl

theorem follow_of_error (hx : t.execute byte position = .error e) :
    t.follow position slot (byte :: bytes) = .error e := by
  rw [follow, hx]
  rfl

end

/-- The instructions up to the halt lead to the slot of the keys that they select. -/
theorem follow_eq_ok_iff {slot slot' : UInt256} :
    t.follow position slot bytes = .ok slot' ↔
      ∃ keys, t.Selects (Instruction.beforeHalt bytes) keys ∧ slot' = KeyPath.follow slot keys := by
  induction bytes generalizing position slot with
  | nil => simp [follow, Instruction.beforeHalt, eq_comm]
  | cons byte bytes ih =>
    rcases t.execute_cases byte position with ⟨hh, hx⟩ | ⟨hh, ⟨key, hkey, hx⟩ | ⟨hkey, e, hx⟩⟩
    · simp [follow_of_none hx, Instruction.beforeHalt_of_halt hh, eq_comm]
    · simp [follow_of_some hx, Instruction.beforeHalt_of_ne_halt hh, ih, selects_cons_iff, hkey]
    · simp [follow_of_error hx, Instruction.beforeHalt_of_ne_halt hh, selects_cons_iff, hkey]

/-- They fail with the first of them that is at fault. -/
theorem follow_eq_error_iff {slot : UInt256} :
    t.follow position slot bytes = .error e ↔
      Leftmost (t.MissesAt position (Instruction.beforeHalt bytes)) e := by
  -- for every position, because errors name the position in the word and indices start from 0
  induction bytes generalizing position slot with
  | nil => simp [follow, Instruction.beforeHalt, Leftmost, not_missesAt_nil]
  | cons byte bytes ih =>
    rcases t.execute_cases byte position with ⟨hh, hx⟩ | ⟨hh, ⟨key, hkey, hx⟩ | ⟨-, e₀, hx⟩⟩
    · simp [follow_of_none hx, Instruction.beforeHalt_of_halt hh, Leftmost, not_missesAt_nil]
    · have hzero : ∀ e, ¬ t.MissesAt position (byte :: Instruction.beforeHalt bytes) 0 e :=
        fun e => missesAt_zero_iff.not.2 (not_misses_of_selected? hkey)
      rw [follow_of_some hx, ih, Instruction.beforeHalt_of_ne_halt hh, leftmost_iff_succ hzero]
      simp only [missesAt_succ_iff]
    · rw [follow_of_error hx, Instruction.beforeHalt_of_ne_halt hh,
        leftmost_iff_eq fun e => missesAt_zero_iff.trans (misses_iff_eq hx), Except.error.injEq,
        eq_comm]

/-! ## Seeds -/

theorem faultAt_succ_iff :
    t.FaultAt (byte :: program) (index + 1) e ↔ t.MissesAt 2 program index e := by
  rw [← missesAt_succ_iff]
  constructor
  · intro h
    cases h with
    | instruction h => exact h
  · exact .instruction

theorem faultAt_nil_iff :
    t.FaultAt [] 0 e ↔ e = .malformedCommand "command halts before its seed instruction" := by
  constructor
  · intro h
    cases h with
    | empty => rfl
    | instruction h => exact absurd h not_missesAt_nil
    | seed hb => cases hb
  · intro h
    rw [h]
    exact .empty rfl

theorem faultAt_zero_iff :
    t.FaultAt (byte :: program) 0 e ↔ t.Misses byte 1 e ∨
      ∃ entry, t.selected? byte = some entry ∧ 32 < entry.length ∧
        e = .seedTooLarge entry.length := by
  constructor
  · intro h
    cases h with
    | empty h => cases h
    | instruction h => exact .inl (missesAt_zero_iff.1 h)
    | seed hb he hl =>
      cases hb
      exact .inr ⟨_, he, hl, rfl⟩
  · intro h
    rcases h with h | ⟨entry, he, hl, rfl⟩
    · exact .instruction (missesAt_zero_iff.2 h)
    · exact .seed rfl he hl

theorem seed_eq_ok_iff {slot : UInt256} :
    t.seed byte = .ok slot ↔ ∃ entry, t.selected? byte = some entry ∧ entry.length ≤ 32 ∧
      slot = BitVec.ofNat 256 (BigEndian.decode entry) := by
  rw [seed, Except.bind_eq_ok_iff]
  constructor
  · intro h
    obtain ⟨_ | entry, hx, h⟩ := h
    · cases h
    · dsimp only at h
      split at h
      · exact ⟨entry, execute_eq_some_iff.1 hx, ‹_›, (Except.ok.inj h).symm⟩
      · cases h
  · intro h
    obtain ⟨entry, hentry, hl, rfl⟩ := h
    exact ⟨some entry, execute_eq_some_iff.2 hentry, if_pos hl⟩

/-- The first instruction fails with what is wrong at the start of the program. -/
theorem seed_eq_error_iff :
    t.seed byte = .error e ↔ t.FaultAt (Instruction.beforeHalt (byte :: bytes)) 0 e := by
  rw [seed, Except.bind_eq_error_iff, execute_eq_error_iff]
  by_cases hh : Instruction.opcode? byte = some .halt
  · have hx : t.execute byte 1 = .ok none := execute_eq_none_iff.2 hh
    rw [Instruction.beforeHalt_of_halt hh, faultAt_nil_iff, ← execute_eq_error_iff, hx]
    simp [eq_comm]
  · rw [Instruction.beforeHalt_of_ne_halt hh, faultAt_zero_iff]
    refine or_congr_right ?_
    constructor
    · intro h
      obtain ⟨_ | entry, hx, h⟩ := h
      · exact absurd (execute_eq_none_iff.1 hx) hh
      · dsimp only at h
        split at h
        · cases h
        · exact ⟨entry, execute_eq_some_iff.1 hx, Nat.lt_of_not_le ‹_›, (Except.error.inj h).symm⟩
    · intro h
      obtain ⟨entry, hentry, hl, rfl⟩ := h
      exact ⟨some entry, execute_eq_some_iff.2 hentry, if_neg (Nat.not_le.2 hl)⟩

/-! ## Commands -/

/-- A command leads to a slot if its instructions select a path to it. -/
theorem derive_eq_ok_iff {c : Command} {base : BaseSlot} :
    t.derive c = .ok base ↔
      ∃ path : KeyPath, t.Selects c.executed path.entries ∧ path.seed.length ≤ 32 ∧
        base = ⟨path.slot, c.isDynamic⟩ := by
  obtain ⟨byte, bytes, hi⟩ := c.exists_instructions_eq_cons
  rw [derive, Command.executed, hi, List.headD_cons, List.tail_cons]
  constructor
  · intro h
    obtain ⟨slot, hseed, h⟩ := Except.bind_eq_ok_iff.1 h
    obtain ⟨slot', hfollow, h⟩ := Except.bind_eq_ok_iff.1 h
    obtain ⟨seed, hfirst, hl, rfl⟩ := seed_eq_ok_iff.1 hseed
    obtain ⟨keys, hkeys, rfl⟩ := follow_eq_ok_iff.1 hfollow
    rw [Instruction.beforeHalt_of_ne_halt (ne_halt_of_selected? hfirst)]
    exact ⟨⟨seed, keys⟩, .cons hfirst hkeys, hl, (Except.ok.inj h).symm⟩
  · intro h
    obtain ⟨⟨seed, keys⟩, hselects, hl, rfl⟩ := h
    by_cases hh : Instruction.opcode? byte = some .halt
    · rw [Instruction.beforeHalt_of_halt hh] at hselects
      cases hselects
    · rw [Instruction.beforeHalt_of_ne_halt hh] at hselects
      cases hselects with
      | cons hfirst hkeys =>
        exact Except.bind_eq_ok_iff.2 ⟨_, seed_eq_ok_iff.2 ⟨seed, hfirst, hl, rfl⟩,
          Except.bind_eq_ok_iff.2 ⟨_, follow_eq_ok_iff.2 ⟨keys, hkeys, rfl⟩, rfl⟩⟩

/-- It fails with the fault that comes first. -/
theorem derive_eq_error_iff {c : Command} :
    t.derive c = .error e ↔ Leftmost (t.FaultAt c.executed) e := by
  obtain ⟨byte, bytes, hi⟩ := c.exists_instructions_eq_cons
  rw [derive, Command.executed, hi, List.headD_cons, List.tail_cons]
  -- the first instruction fails at index 0, or all faults are behind it
  cases hs : t.seed byte with
  | error e₀ =>
    have hzero : ∀ e, t.FaultAt (Instruction.beforeHalt (byte :: bytes)) 0 e ↔ e = e₀ := by
      intro e
      rw [← seed_eq_error_iff, hs, Except.error.injEq, eq_comm]
    rw [leftmost_iff_eq hzero]
    simp [bind, Except.bind, eq_comm]
  | ok slot =>
    have hzero : ∀ e, ¬ t.FaultAt (Instruction.beforeHalt (byte :: bytes)) 0 e := by
      intro e he
      rw [← seed_eq_error_iff, hs] at he
      cases he
    obtain ⟨entry, hentry, -, -⟩ := seed_eq_ok_iff.1 hs
    have hfollow : t.follow 2 slot bytes = .error e ↔
        Leftmost (t.MissesAt 2 (Instruction.beforeHalt bytes)) e := follow_eq_error_iff
    rw [leftmost_iff_succ hzero, Instruction.beforeHalt_of_ne_halt (ne_halt_of_selected? hentry)]
    simp only [faultAt_succ_iff, ← hfollow]
    change (t.follow 2 slot bytes >>= fun slot => pure (BaseSlot.mk slot c.isDynamic)) = _ ↔ _
    rw [Except.bind_eq_error_iff, or_iff_left]
    intro h
    obtain ⟨slot', -, h⟩ := h
    cases h

/-! ## The denotation -/

/-- When a command leads to a slot. -/
theorem exists_derive_eq_ok_iff {c : Command} :
    (∃ base, t.derive c = .ok base) ↔
      c.executed ≠ [] ∧ (∀ byte ∈ c.executed, ∃ entry, t.selected? byte = some entry) ∧
        ∀ byte seed, c.executed.head? = some byte → t.selected? byte = some seed →
          seed.length ≤ 32 := by
  simp only [derive_eq_ok_iff]
  constructor
  · intro h
    obtain ⟨base, path, hselects, hl, -⟩ := h
    refine ⟨?_, exists_selects_iff.1 ⟨_, hselects⟩, ?_⟩
    · intro hnil
      rw [hnil, selects_nil_iff] at hselects
      cases hselects
    · intro byte seed hbyte hseed
      obtain ⟨rest, hexec⟩ := List.head?_eq_some_iff.1 hbyte
      rw [hexec] at hselects
      obtain ⟨first, keys, hfirst, -, hentries⟩ := selects_cons_iff.1 hselects
      cases hentries
      rw [hseed, Option.some.injEq] at hfirst
      rwa [hfirst]
  · intro h
    obtain ⟨hne, hall, hl⟩ := h
    obtain ⟨byte, rest, hexec⟩ := List.exists_cons_of_ne_nil hne
    obtain ⟨entries, hselects⟩ := exists_selects_iff.2 hall
    rw [hexec] at hselects hl ⊢
    obtain ⟨seed, keys, hseed, hkeys, -⟩ := selects_cons_iff.1 hselects
    exact ⟨_, ⟨seed, keys⟩, .cons hseed hkeys, hl byte seed rfl hseed, rfl⟩

/-- **A derivation is what its instructions say.** The bytes before the first halt, a byte with the
top three bits set, lead to a slot if there is one, if each of them selects a constant or a value
that is there, and if the first entry fits in a slot. The slot is then the one that the other
entries lead to as keys of nested mappings, and the value is dynamic if the lowest bit of the word's
first byte is set. Otherwise the derivation fails with the leftmost fault. -/
theorem denotation_of_derive (t : Tables) (c : Command) :
    (c.executed = c.instructions.takeWhile fun byte => byte &&& 0xe0 != 0xe0) ∧
    ((∃ base, t.derive c = .ok base) ↔
      c.executed ≠ [] ∧
      (∀ byte ∈ c.executed,
        (byte &&& 0xe0 = 0x00 ∧ (byte &&& 0x1f).toNat < t.constants.length) ∨
        (byte &&& 0xe0 = 0x20 ∧ (byte &&& 0x1f).toNat < t.values.length)) ∧
      ∀ byte seed, c.executed.head? = some byte → t.selected? byte = some seed →
        seed.length ≤ 32) ∧
    (∀ base, t.derive c = .ok base ↔
      ∃ path : KeyPath, t.Selects c.executed path.entries ∧ path.seed.length ≤ 32 ∧
        base.slot = path.keys.foldl
          (fun slot key => (keccak256 (key ++ slot.toWord.toList)).toUInt256)
          (BitVec.ofNat 256 (BigEndian.decode path.seed)) ∧
        base.isDynamic = c.flags.toNat.testBit 0) ∧
    ∀ e, t.derive c = .error e ↔ Leftmost (t.FaultAt c.executed) e := by
  refine ⟨c.executed_eq_takeWhile, ?_, ?_, fun e => derive_eq_error_iff⟩
  · rw [exists_derive_eq_ok_iff]
    simp only [exists_selected?_iff]
  · intro base
    obtain ⟨slot, isDynamic⟩ := base
    simp only [derive_eq_ok_iff, BaseSlot.mk.injEq, ← c.isDynamic_eq_testBit, KeyPath.slot_eq_foldl]

/-- A first entry that is too long comes before an instruction that is no operation. -/
example : derive ⟨[List.replicate 33 1], []⟩ ⟨0 :: 0 :: 0x41 :: List.replicate 29 0, rfl⟩ =
    .error (.seedTooLarge 33) := rfl

end Tables

end StorageGateway
