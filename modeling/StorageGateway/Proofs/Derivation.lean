import StorageGateway.Proofs.KeyPath

/-!
# What a derivation depends on

A derivation depends on the instructions before the first halt and on what they select, and on
nothing else. Whether an instruction selects anything, and whether it fails, depends on the
constants and on how many values there are, not on the values. So two executions of a command over
the same constants and equally many values fail together, with one exception: a value that is the
seed of a slot may be too long in one of them. A command that leads to a slot leads to the same slot
when there are more entries after the ones that it selects from. The errors of a command are five,
and nothing else in a request has them.

## Main definitions

* `Tables.Alike` — the same constants and equally many values.
* `Tables.Extends` — further constants and values after the ones there are.
* `Command.ofByte` — a command of one instruction.
* `Error.isDerivation` — the errors of a derivation.

## Main statements

* `Tables.derive_congr` — instructions that do the same derive the same.
* `Tables.Alike.seedTooLarge` — the only error that the values decide.
* `Tables.Extends.derive` — a slot stays derived when the tables grow.
* `Tables.derivation_of_executed` — two commands that execute the same instructions.
* `Tables.isDerivation_of_derive` — a derivation fails with these errors and no others.
-/

namespace StorageGateway

/-- A command of a flags byte and one instruction. -/
def Command.ofByte (flags byte : UInt8) : Command :=
  ⟨flags :: byte :: List.replicate 30 Instruction.haltByte, rfl⟩

/-- Whether an error is one of a command that leads to no slot. -/
def Error.isDerivation : Error → Bool
  | unrecognizedOpcode .. | operandOutOfRange .. | forwardBackreference .. | malformedCommand _
  | seedTooLarge _ => true
  | _ => false

namespace Tables

variable {t₁ t₂ : Tables} {byte : UInt8} {entry : Bytes} {e : Error}

/-! ## Tables that agree on what is executed -/

theorem selected?_congr (hx : ∀ position, t₁.execute byte position = t₂.execute byte position) :
    t₁.selected? byte = t₂.selected? byte := by
  ext entry
  rw [← execute_eq_some_iff, hx 0, execute_eq_some_iff]

section

variable {program : Bytes}
  (hx : ∀ byte ∈ program, ∀ position, t₁.execute byte position = t₂.execute byte position)

include hx

theorem selects_congr {entries : List Bytes} :
    t₁.Selects program entries ↔ t₂.Selects program entries := by
  induction program generalizing entries with
  | nil => rw [selects_nil_iff, selects_nil_iff]
  | cons byte program ih =>
    obtain ⟨hbyte, hprogram⟩ := List.forall_mem_cons.1 hx
    simp only [selects_cons_iff, selected?_congr hbyte, ih hprogram]

theorem FaultAt.congr {index : Nat} (h : t₁.FaultAt program index e) :
    t₂.FaultAt program index e := by
  cases h with
  | empty hnil => exact .empty hnil
  | instruction hmiss =>
    obtain ⟨byte, hbyte, hmiss⟩ := hmiss
    rw [← execute_eq_error_iff, hx byte (List.mem_of_getElem? hbyte), execute_eq_error_iff] at hmiss
    exact .instruction ⟨byte, hbyte, hmiss⟩
  | seed hbyte hentry hlong =>
    rw [selected?_congr (hx _ (List.mem_of_getElem? hbyte))] at hentry
    exact .seed hbyte hentry hlong

end

/-- Commands with the same flag and the same instructions have the same outcome on tables that these
instructions treat alike. -/
theorem derive_congr {c₁ c₂ : Command} (hd : c₁.isDynamic = c₂.isDynamic)
    (he : c₁.executed = c₂.executed)
    (hx : ∀ byte ∈ c₁.executed, ∀ position, t₁.execute byte position = t₂.execute byte position) :
    t₁.derive c₁ = t₂.derive c₂ := by
  have hx' : ∀ byte ∈ c₁.executed, ∀ position,
      t₂.execute byte position = t₁.execute byte position :=
    fun byte hb position => (hx byte hb position).symm
  have hf : t₁.FaultAt c₁.executed = t₂.FaultAt c₁.executed := by
    funext index e
    exact propext ⟨FaultAt.congr hx, FaultAt.congr hx'⟩
  cases h : t₁.derive c₁ with
  | ok base =>
    obtain ⟨path, hselects, hl, rfl⟩ := derive_eq_ok_iff.1 h
    rw [selects_congr hx, he] at hselects
    exact (derive_eq_ok_iff.2 ⟨path, hselects, hl, by rw [hd]⟩).symm
  | error e =>
    rw [derive_eq_error_iff, hf, he, ← derive_eq_error_iff] at h
    exact h.symm

/-! ## Alike tables -/

/-- The same constants and equally many values. -/
structure Alike (t₁ t₂ : Tables) : Prop where
  constants_eq : t₁.constants = t₂.constants
  length_values_eq : t₁.values.length = t₂.values.length

namespace Alike

theorem exists_selected?_iff (h : Alike t₁ t₂) :
    (∃ entry, t₁.selected? byte = some entry) ↔ ∃ entry, t₂.selected? byte = some entry := by
  rw [Tables.exists_selected?_iff, Tables.exists_selected?_iff, h.constants_eq,
    h.length_values_eq]

/-- A constant is selected on both sides. -/
theorem selected?_or_mem (h : Alike t₁ t₂) (hs : t₁.selected? byte = some entry) :
    t₂.selected? byte = some entry ∨ entry ∈ t₁.values := by
  rcases selected?_eq_some_iff.1 hs with ⟨hop, hs⟩ | ⟨-, hs⟩
  · rw [h.constants_eq] at hs
    exact .inl (selected?_eq_some_iff.2 (.inl ⟨hop, hs⟩))
  · exact .inr (List.mem_of_getElem? hs)

/-- The only error that values decide: if a command fails on some values and not on others, a value
that is longer than a slot is its seed. -/
theorem seedTooLarge (h : Alike t₁ t₂) {command : Command} {base : BaseSlot}
    (h₁ : t₁.derive command = .error e) (h₂ : t₂.derive command = .ok base) :
    ∃ value ∈ t₁.values, 32 < value.length ∧ e = .seedTooLarge value.length := by
  obtain ⟨hne, hall, hseed⟩ := exists_derive_eq_ok_iff.1 ⟨base, h₂⟩
  obtain ⟨index, hfault, -⟩ := derive_eq_error_iff.1 h₁
  cases hfault with
  | empty hnil => exact absurd hnil hne
  | instruction hmiss =>
    obtain ⟨byte, hbyte, hmiss⟩ := hmiss
    obtain ⟨entry, hentry⟩ := h.exists_selected?_iff.2 (hall byte (List.mem_of_getElem? hbyte))
    exact absurd hmiss (not_misses_of_selected? hentry)
  | seed hbyte hentry hlong =>
    rcases h.selected?_or_mem hentry with hsame | hmem
    · have hshort := hseed _ _ (List.head?_eq_getElem? ▸ hbyte) hsame
      exact absurd hshort (Nat.not_le.2 hlong)
    · exact ⟨_, hmem, hlong, rfl⟩

end Alike

/-! ## Larger tables -/

/-- The first tables have the first of the constants and of the values of the second ones. -/
structure Extends (t₁ t₂ : Tables) : Prop where
  constants_prefix : t₁.constants <+: t₂.constants
  values_prefix : t₁.values <+: t₂.values

namespace Extends

/-- An entry of a list is an entry of every longer one. -/
theorem getElem?_of_isPrefix {xs ys : List Bytes} {i : Nat} (h : xs <+: ys)
    (hi : xs[i]? = some entry) : ys[i]? = some entry := by
  obtain ⟨hlt, rfl⟩ := List.getElem?_eq_some_iff.1 hi
  exact List.prefix_iff_getElem?.1 h i hlt

/-- What an instruction selects, it still selects from larger tables. -/
theorem selected? (h : Extends t₁ t₂) (hs : t₁.selected? byte = some entry) :
    t₂.selected? byte = some entry := by
  refine selected?_eq_some_iff.2 ((selected?_eq_some_iff.1 hs).imp ?_ ?_)
  · exact And.imp_right (getElem?_of_isPrefix h.constants_prefix)
  · exact And.imp_right (getElem?_of_isPrefix h.values_prefix)

/-- The slot of a command stays the same when the tables grow. -/
theorem derive (h : Extends t₁ t₂) {command : Command} {base : BaseSlot}
    (hd : t₁.derive command = .ok base) : t₂.derive command = .ok base := by
  obtain ⟨path, hselects, hl, rfl⟩ := derive_eq_ok_iff.1 hd
  exact derive_eq_ok_iff.2 ⟨path, hselects.imp fun _ _ => h.selected?, hl, rfl⟩

end Extends

/-! ## Commands that execute the same instructions -/

/-- **A derivation depends only on what is executed.** Two commands with the same flag and the same
instructions before the first halt have the same outcome on all tables; a slot of the one is the
slot of the other also when the tables grow. So an assembled command derives what its instructions
say up to their first halt. -/
theorem derivation_of_executed :
    (∀ c₁ c₂ : Command, c₁.flags.toNat.testBit 0 = c₂.flags.toNat.testBit 0 →
      c₁.executed = c₂.executed →
      (∀ t : Tables, t.derive c₁ = t.derive c₂) ∧
      ∀ (constants values constants' values' : List Bytes) (base : BaseSlot),
        derive ⟨constants, values⟩ c₁ = .ok base →
          derive ⟨constants ++ constants', values ++ values'⟩ c₂ = .ok base) ∧
    ∀ (flags : UInt8) (is : Bytes), is.length ≤ 31 → ∃ c, Command.assemble? flags is = some c ∧
      ∀ t : Tables,
        (∀ base, t.derive c = .ok base ↔
          ∃ path : KeyPath, t.Selects (Instruction.beforeHalt is) path.entries ∧
            path.seed.length ≤ 32 ∧ base = ⟨path.slot, flags.toNat.testBit 0⟩) ∧
        ∀ e, t.derive c = .error e ↔ Leftmost (t.FaultAt (Instruction.beforeHalt is)) e := by
  constructor
  · intro c₁ c₂ hflag he
    rw [← c₁.isDynamic_eq_testBit, ← c₂.isDynamic_eq_testBit] at hflag
    refine ⟨fun t => derive_congr hflag he fun _ _ _ => rfl, ?_⟩
    intro constants values constants' values' base h
    have hextends : Extends ⟨constants, values⟩ ⟨constants ++ constants', values ++ values'⟩ :=
      ⟨List.prefix_append _ _, List.prefix_append _ _⟩
    rw [← derive_congr hflag he fun _ _ _ => rfl]
    exact hextends.derive h
  · intro flags is hl
    obtain ⟨c, hc⟩ := Option.isSome_iff_exists.1 (Command.isSome_assemble?_iff.2 hl)
    obtain ⟨hflags, he⟩ := Command.executed_of_assemble? hc
    refine ⟨c, hc, ?_⟩
    intro t
    rw [← hflags, ← he, ← c.isDynamic_eq_testBit]
    exact ⟨fun base => derive_eq_ok_iff, fun e => derive_eq_error_iff⟩

theorem derivation_of_executed_otherHalt :
    derive ⟨[[7]], []⟩ ⟨[0, 0] ++ List.replicate 30 0xff, rfl⟩ = .ok ⟨7, false⟩ ∧
    derive ⟨[[7], [8]], [[9]]⟩ ⟨[2, 0, 0xe0, 0x41] ++ List.replicate 28 0x20, rfl⟩ =
      .ok ⟨7, false⟩ ∧
    ∃ c, Command.assemble? 1 [0, 0xe0, 0x41] = some c ∧
      derive ⟨[[7]], []⟩ c = .ok ⟨KeyPath.slot ⟨[7], []⟩, true⟩ := by
  obtain ⟨hsame, hassemble⟩ := derivation_of_executed
  have hhalted : derive ⟨[[7]], []⟩ ⟨[0, 0] ++ List.replicate 30 0xff, rfl⟩ = .ok ⟨7, false⟩ := rfl
  obtain ⟨c, hc, hderive⟩ := hassemble 1 [0, 0xe0, 0x41] (by decide)
  refine ⟨hhalted, (hsame _ _ rfl rfl).2 [[7]] [] [[8]] [[9]] ⟨7, false⟩ hhalted, c, hc, ?_⟩
  exact ((hderive _).1 _).2 ⟨⟨[7], []⟩, .cons rfl .nil, by decide, rfl⟩

/-! ## Errors -/

/-- A command that leads to no slot has an error of its own. -/
theorem isDerivation_of_derive {t : Tables} {command : Command} (h : t.derive command = .error e) :
    e.isDerivation = true := by
  obtain ⟨index, hfault, -⟩ := derive_eq_error_iff.1 h
  cases hfault with
  | empty => rfl
  | seed => rfl
  | instruction hmiss =>
    obtain ⟨byte, -, hmiss⟩ := hmiss
    cases hmiss <;> rfl

/-! ## Commands of one instruction -/

theorem derive_ofByte (t : Tables) (flags byte : UInt8) :
    t.derive (Command.ofByte flags byte) =
      (t.seed byte).map fun slot => ⟨slot, (Command.ofByte flags byte).isDynamic⟩ := by
  have hinstructions : (Command.ofByte flags byte).instructions =
      byte :: List.replicate 30 Instruction.haltByte := rfl
  have hfollow : ∀ slot, t.follow 2 slot (List.replicate 30 Instruction.haltByte) = .ok slot := by
    intro slot
    rfl
  rw [derive, hinstructions]
  simp only [List.headD_cons, List.tail_cons, hfollow]
  cases t.seed byte <;> rfl

/-- The first constant is empty, and so stands for slot zero. -/
theorem seed_constant (constants values : List Bytes) :
    seed ⟨[] :: constants, values⟩ 0 = .ok 0 := rfl

/-- The first value is the seed if it fits in a slot. -/
theorem seed_backref (constants values : List Bytes) (value : Bytes) :
    seed ⟨constants, value :: values⟩ 0x20 =
      if value.length ≤ 32 then .ok (BitVec.ofNat 256 (BigEndian.decode value))
      else .error (.seedTooLarge value.length) := rfl

end Tables

end StorageGateway
