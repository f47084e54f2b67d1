import Mathlib.Data.List.Nodup
import StorageGateway.Proofs.Finality
import StorageGateway.Proofs.Resolution
import StorageGateway.Simulated.Change

/-!
# Byte strings in storage

A byte string that was written at a base slot is read back from there. The writer puts a length word
into the base slot and cuts a long value into words for its data slots; the reader tells the length
from the base slot and joins the words again. In between, anything may be written elsewhere: only
the words at the slots of the value matter. A long value overwrites its own length if its base slot
is one of its data slots, and only then.

## Main definitions

* `valueSlots` — the slots of a byte string, for its base slot and its length.
* `StorageWrite.slots` — the slots that are written.

## Main statements

* `StorageWrite.word_applyAll` — other words stay.
* `Storage.words_writeDynamic` — the words at the slots of a value are the ones that were written.
* `readAs_dynamicWrites` — these words are read as the value.
* `SimulatedChain.resolve_of_writeDynamic` — reading undoes writing.
-/

namespace StorageGateway

/-! ## Cutting and joining -/

namespace Bytes

variable {width count : Nat} {bs : Bytes}

@[simp] theorem chunksUpTo_nil : chunksUpTo width count [] = [] := by
  cases count <;> rfl

theorem chunksUpTo_succ (h : bs ≠ []) :
    chunksUpTo width (count + 1) bs = bs.take width :: chunksUpTo width count (bs.drop width) := by
  cases bs with
  | nil => exact absurd rfl h
  | cons b bs => rfl

/-- Every piece is cut off if there is at least one byte for the last one. -/
theorem length_chunksUpTo (h : width * count < bs.length + width) :
    (chunksUpTo width count bs).length = count := by
  induction count generalizing bs with
  | zero => rfl
  | succ count ih =>
    rw [Nat.mul_succ] at h
    have hne : bs ≠ [] := List.ne_nil_of_length_pos (by omega)
    have hrest : width * count < (bs.drop width).length + width := by
      rw [List.length_drop]
      omega
    rw [chunksUpTo_succ hne, List.length_cons, ih hrest]

/-- Pieces that are padded to whole words and joined again give the bytes back, followed by the
padding. -/
theorem take_flatMap_chunksUpTo (h : bs.length ≤ width * count) :
    (((chunksUpTo width count bs).map (FixedBytes.padded width)).flatMap (·.toList)).take
      bs.length = bs := by
  induction count generalizing bs with
  | zero =>
    have hnil : bs = [] := List.length_eq_zero_iff.1 (by omega)
    simp [hnil]
  | succ count ih =>
    rw [Nat.mul_succ] at h
    by_cases hne : bs = []
    · simp [hne]
    have hlength : (bs.drop width).length ≤ width * count := by
      rw [List.length_drop]
      omega
    have hrest := ih hlength
    rw [chunksUpTo_succ hne, List.map_cons, List.flatMap_cons]
    by_cases hw : width ≤ bs.length
    · have hfirst : (FixedBytes.padded width (bs.take width)).toList = bs.take width := by
        simp [FixedBytes.padded, hw]
      rw [hfirst, List.take_append, List.length_take, Nat.min_eq_left hw, ← List.length_drop, hrest,
        List.take_take, Nat.min_eq_right hw, List.take_append_drop]
    · have hdrop : bs.drop width = [] := List.drop_eq_nil_of_le (by omega)
      have htake : bs.take width = bs := List.take_of_length_le (by omega)
      have hle : bs.length ≤ width := by omega
      simp [hdrop, htake, FixedBytes.padded, List.take_take, hle]

end Bytes

/-- The words of a value are as many as the pieces that cover its bytes. -/
theorem length_dataWords (value : Bytes) :
    (dataWords value).length = Bytes.pieces 32 value.length := by
  rw [dataWords, List.length_map, Bytes.chunks]
  apply Bytes.length_chunksUpTo
  unfold Bytes.pieces
  omega

/-- The words of a value start with its bytes. -/
theorem take_dataWords (value : Bytes) :
    ((dataWords value).flatMap (·.toList)).take value.length = value := by
  apply Bytes.take_flatMap_chunksUpTo
  unfold Bytes.pieces
  omega

/-! ## Length words -/

section

variable {value : Bytes} {word : Word}

theorem shortWord?_eq_none_iff : shortWord? value = none ↔ 32 ≤ value.length := by
  have hlimit : value.length ≤ LengthWord.shortLimit ↔ ¬ 32 ≤ value.length := by
    unfold LengthWord.shortLimit
    omega
  by_cases h : 32 ≤ value.length <;> simp [shortWord?, hlimit, h]

theorem length_of_shortWord?_some (h : shortWord? value = some word) : value.length < 32 := by
  by_contra hn
  rw [shortWord?_eq_none_iff.2 (by omega)] at h
  cases h

/-- The word of a short value tells the value. -/
theorem LengthWord.ofWord_of_shortWord? (slot : UInt256) (max : Nat)
    (h : shortWord? value = some word) : LengthWord.ofWord slot word max = .ok (.short value) := by
  have hl := length_of_shortWord?_some h
  have hlimit : value.length ≤ shortLimit := by
    unfold shortLimit
    omega
  have hword : word.toList =
      (FixedBytes.padded 31 value).toList ++ [UInt8.ofNat (2 * value.length)] := by
    rw [shortWord?, if_pos hlimit, Option.some.injEq] at h
    rw [← h]
  have hlast : (word.toList.getLastD 0).toNat = 2 * value.length := by
    rw [hword, List.getLastD_concat, UInt8.toNat_ofNat']
    omega
  have hvalue : word.toList.take value.length = value := by
    rw [hword, List.take_append_of_le_length (by simp; omega)]
    simp [FixedBytes.padded, List.take_take, Nat.le_of_lt_succ hl]
  have heven : word.toNat % 2 = 0 := by
    have hnumber := Word.toNat_getLastD word
    omega
  have hhalf : 2 * value.length / 2 = value.length := by omega
  rw [ofWord_of_even_le slot heven (by omega), hlast, hhalf, hvalue]

end

/-! ## The slots of a value -/

/-- The slots of a byte string: the base slot, and for a long one also a slot for every 32 bytes,
from the digest of the 32 bytes of the base slot on, modulo `2 ^ 256`. -/
def valueSlots (slot : UInt256) (length : Nat) : List UInt256 :=
  if length < 32 then [slot]
  else slot :: (List.range ((length + 31) / 32)).map fun i =>
    BitVec.ofNat 256 ((keccak256 slot.toWord.toList).toNat + i)

theorem valueSlots_of_short (slot : UInt256) {length : Nat} (h : length < 32) :
    valueSlots slot length = [slot] :=
  if_pos h

theorem valueSlots_of_long (slot : UInt256) {length : Nat} (h : 32 ≤ length) :
    valueSlots slot length = slot :: dataSlots slot (Bytes.pieces 32 length) := by
  rw [valueSlots, if_neg (by omega), dataSlots_eq]
  rfl

/-- The slots that are written. -/
def StorageWrite.slots : StorageWrite → List UInt256
  | .word _ slot _ => [slot]
  | .bytes _ slot value => valueSlots slot value.length

theorem dynamicWrites_of_short (slot : UInt256) {value : Bytes} {word : Word}
    (h : shortWord? value = some word) : dynamicWrites slot value = [(slot, word)] := by
  simp only [dynamicWrites, h]

theorem dynamicWrites_of_long (slot : UInt256) {value : Bytes} (h : shortWord? value = none) :
    dynamicWrites slot value = (slot, longWord value.length) ::
      (dataSlots slot (Bytes.pieces 32 value.length)).zip (dataWords value) := by
  simp only [dynamicWrites, h, length_dataWords]

/-- A value is written to its slots. -/
theorem map_fst_dynamicWrites (slot : UInt256) (value : Bytes) :
    (dynamicWrites slot value).map Prod.fst = valueSlots slot value.length := by
  cases h : shortWord? value with
  | some word =>
    rw [dynamicWrites_of_short slot h, valueSlots_of_short slot (length_of_shortWord?_some h)]
    rfl
  | none =>
    have hl := shortWord?_eq_none_iff.1 h
    have hzip : (dataSlots slot (Bytes.pieces 32 value.length)).length ≤
        (dataWords value).length := by
      rw [length_dataSlots, length_dataWords]
    rw [dynamicWrites_of_long slot h, valueSlots_of_long slot (by omega), List.map_cons,
      List.map_fst_zip hzip]

/-- Data slots that are no more than all slots do not overlap. -/
theorem nodup_dataSlots (slot : UInt256) {count : Nat} (h : count ≤ 2 ^ 256) :
    (dataSlots slot count).Nodup := by
  refine List.Nodup.map_on ?_ List.nodup_range
  intro i hi j hj hij
  have hi := List.mem_range.1 hi
  have hj := List.mem_range.1 hj
  have heq := congrArg BitVec.toNat ((BitVec.add_right_inj _).1 hij)
  rw [BitVec.toNat_ofNat, BitVec.toNat_ofNat] at heq
  rwa [Nat.mod_eq_of_lt (by omega), Nat.mod_eq_of_lt (by omega)] at heq

/-- The slots of a value do not overlap unless the base slot is one of the data slots. -/
theorem nodup_valueSlots {slot : UInt256} {length : Nat} (hl : length < limit64)
    (hs : 32 ≤ length → ∀ i < (length + 31) / 32,
      slot ≠ BitVec.ofNat 256 ((keccak256 slot.toWord.toList).toNat + i)) :
    (valueSlots slot length).Nodup := by
  by_cases h : length < 32
  · simp [valueSlots_of_short slot h]
  · have hcount : Bytes.pieces 32 length ≤ 2 ^ 256 := by
      unfold Bytes.pieces
      unfold limit64 at hl
      omega
    have hlong : 32 ≤ length := by omega
    have hbase : slot ∉ dataSlots slot (Bytes.pieces 32 length) := by
      rw [dataSlots_eq, List.mem_map]
      rintro ⟨i, hi, heq⟩
      exact hs hlong i (List.mem_range.1 hi) heq.symm
    rw [valueSlots_of_long slot hlong]
    exact List.nodup_cons.2 ⟨hbase, nodup_dataSlots slot hcount⟩

/-! ## Writing -/

namespace Storage

variable {s : Storage} {address a : Address} {n : UInt256} {writes : List (UInt256 × Word)}

theorem writeAll_cons (write : UInt256 × Word) :
    s.writeAll address (write :: writes) =
      (s.write address write.1 write.2).writeAll address writes := rfl

/-- Words that are not written stay. -/
theorem word_writeAll_of_notMem (h : a = address → n ∉ writes.map Prod.fst) :
    (s.writeAll address writes).word a n = s.word a n := by
  induction writes generalizing s with
  | nil => rfl
  | cons write writes ih =>
    have hrest : a = address → n ∉ writes.map Prod.fst := by
      intro ha hn
      exact h ha (List.mem_cons_of_mem _ hn)
    have hfirst : ¬ (n = write.1 ∧ a = address) := by
      rintro ⟨rfl, ha⟩
      exact h ha List.mem_cons_self
    rw [writeAll_cons, ih hrest, word_write, if_neg hfirst]

/-- Words that are written once are found afterwards. -/
theorem word_writeAll_of_mem (h : (writes.map Prod.fst).Nodup) {write : UInt256 × Word}
    (hw : write ∈ writes) : (s.writeAll address writes).word address write.1 = write.2 := by
  induction writes generalizing s with
  | nil => cases hw
  | cons first writes ih =>
    obtain ⟨hfirst, hrest⟩ := List.nodup_cons.1 h
    rw [writeAll_cons]
    rcases List.mem_cons.1 hw with rfl | hw
    · rw [word_writeAll_of_notMem fun _ => hfirst, word_write, if_pos ⟨rfl, rfl⟩]
    · exact ih hrest hw

/-- Words at the slots of a value that was written, unless the slots overlap. -/
theorem words_writeDynamic {slot : UInt256} {value : Bytes}
    (h : (valueSlots slot value.length).Nodup) :
    (valueSlots slot value.length).map ((s.writeDynamic address slot value).word address) =
      (dynamicWrites slot value).map Prod.snd := by
  rw [← map_fst_dynamicWrites] at h ⊢
  rw [List.map_map]
  refine List.map_congr_left ?_
  intro write hw
  exact word_writeAll_of_mem h hw

end Storage

namespace StorageWrite

variable {s : Storage} {a : Address} {n : UInt256}

theorem word_apply {write : StorageWrite} (h : write.address = a → n ∉ write.slots) :
    (write.apply s).word a n = s.word a n := by
  cases write with
  | word address slot word =>
    have hn : ¬ (n = slot ∧ a = address) := by
      rintro ⟨rfl, rfl⟩
      exact h rfl (List.mem_singleton.2 rfl)
    rw [apply, Storage.word_write, if_neg hn]
  | bytes address slot value =>
    refine Storage.word_writeAll_of_notMem ?_
    rintro rfl
    rw [map_fst_dynamicWrites]
    exact h rfl

/-- Words that no write is for stay. -/
theorem word_applyAll {writes : List StorageWrite}
    (h : ∀ write ∈ writes, write.address = a → n ∉ write.slots) :
    (applyAll writes s).word a n = s.word a n := by
  induction writes generalizing s with
  | nil => rfl
  | cons write writes ih =>
    have hrest := ih (s := write.apply s) fun w hw => h w (List.mem_cons_of_mem _ hw)
    rw [word_apply (h write List.mem_cons_self)] at hrest
    exact hrest

end StorageWrite

/-! ## Reading what was written -/

/-- The words that are written for a value are read as the value, unless it is above the limit. -/
theorem readAs_dynamicWrites {max : Nat} (slot : UInt256) {value : Bytes}
    (hl : value.length < limit64) (hm : value.length < 32 ∨ value.length ≤ max) :
    ReadAs max ⟨slot, true⟩ ((dynamicWrites slot value).map Prod.snd)
      ⟨valueSlots slot value.length, value⟩ := by
  have hd : (⟨slot, true⟩ : BaseSlot).isDynamic = true := rfl
  cases h : shortWord? value with
  | some word =>
    rw [dynamicWrites_of_short slot h, valueSlots_of_short slot (length_of_shortWord?_some h)]
    exact .short hd (LengthWord.ofWord_of_shortWord? slot max h)
  | none =>
    have hlong := shortWord?_eq_none_iff.1 h
    have hm : value.length ≤ max := by omega
    have hdata : (dataWords value).length =
        (dataSlots slot (Bytes.pieces 32 value.length)).length := by
      rw [length_dataSlots, length_dataWords]
    have hw := LengthWord.ofWord_longWord slot hl hm
    rw [dynamicWrites_of_long slot h, valueSlots_of_long slot (by omega), List.map_cons,
      List.map_snd_zip (Nat.le_of_eq hdata)]
    generalize longWord value.length = word at hw ⊢
    have hread : ReadAs max ⟨slot, true⟩ (word :: dataWords value)
        ⟨slot :: dataSlots slot (Bytes.pieces 32 value.length),
          ((dataWords value).flatMap (·.toList)).take value.length⟩ := .long hd hw hdata
    rwa [take_dataWords] at hread

namespace SimulatedChain

variable {config : Config} {c : SimulatedChain} {address : Address} {base : BaseSlot}
  {slots : List UInt256} {value : Bytes}

/-- A value of dynamic length is found if the words at its slots are read as the value. -/
theorem returns_resolve_of_readAs (block : BitVec 64) (hf : c.failReads = false)
    (hd : base.isDynamic = true)
    (h : ReadAs config.maxValueLength base (slots.map (c.storage.word address)) ⟨slots, value⟩) :
    ∃ v, (StoredValue.resolve service config block address base).Returns c v
        { c with reads := c.reads + 1 } ∧
      v.slots = slots ∧
      ((v.value service block).run { c with reads := c.reads + 1 }).run =
        ((.ok value, { v with outcome := some (.ok value) }),
          { c with reads := c.reads + slots.length }) := by
  have hslots : (readInTurn (service.read block address) slots).Returns c
      (slots.map (c.storage.word address)) { c with reads := c.reads + slots.length } :=
    returns_readInTurn.2 ⟨.inr hf, rfl, rfl⟩
  obtain ⟨v, t, hv, heq, hfetch⟩ :=
    (Gateway.returns_resolve_fetch (g := gateway config)).2 ⟨_, hslots, h⟩
  have ht : t = { c with reads := c.reads + 1 } := by
    rcases StoredValue.returns_resolve.1 hv with ⟨hn, -⟩ | ⟨-, word, length, hr, -⟩
    · rw [hd] at hn
      cases hn
    · exact (returns_read.1 hr).2.2
  subst ht
  have hfetch : (v.fetch service block).outcome { c with reads := c.reads + 1 } =
      (.ok value, { c with reads := c.reads + slots.length }) := hfetch
  refine ⟨v, hv, heq.symm, ?_⟩
  rw [StoredValue.run_value (StoredValue.outcome_eq_none hv), hfetch]
  rfl

/-- **Reading undoes writing.** A byte string that was written at a slot is found there, also after
writes that are not for its slots; its slots are the base slot and the data slots that its length
tells. If it is long and above the limit, that is the error. The bytes must not overwrite their
length. -/
theorem resolve_of_writeDynamic (config : Config) (c : SimulatedChain) (block : BitVec 64)
    (address : Address) (slot : UInt256) (value : Bytes) (later : List StorageWrite)
    (hf : c.failReads = false) (hl : value.length < 2 ^ 60)
    (hs : 32 ≤ value.length → ∀ i < (value.length + 31) / 32,
      slot ≠ BitVec.ofNat 256 ((keccak256 slot.toWord.toList).toNat + i))
    (hlater : ∀ write ∈ later, write.address = address →
      write.slots.Disjoint (valueSlots slot value.length)) :
    let c' := { c with
      storage := StorageWrite.applyAll (.bytes address slot value :: later) c.storage }
    let resolved := StoredValue.resolve service config block address ⟨slot, true⟩
    (value.length < 32 ∨ value.length ≤ config.maxValueLength →
      ∃ v, resolved.Returns c' v { c' with reads := c.reads + 1 } ∧
        v.slots = valueSlots slot value.length ∧
        ((v.value service block).run { c' with reads := c.reads + 1 }).run =
          ((.ok value, { v with outcome := some (.ok value) }),
            { c' with reads := c.reads + (valueSlots slot value.length).length })) ∧
    (32 ≤ value.length → config.maxValueLength < value.length →
      resolved.Fails c'
        (.valueTooLarge slot (BitVec.ofNat 256 value.length) config.maxValueLength)
        { c' with reads := c.reads + 1 }) := by
  intro c' resolved
  have hlimit : value.length < limit64 := by
    unfold limit64
    omega
  have hwords : (valueSlots slot value.length).map (c'.storage.word address) =
      (dynamicWrites slot value).map Prod.snd := by
    rw [← Storage.words_writeDynamic (s := c.storage) (nodup_valueSlots hlimit hs)]
    refine List.map_congr_left ?_
    intro n hn
    exact StorageWrite.word_applyAll fun write hw ha hmem => hlater write hw ha hmem hn
  constructor
  · intro hm
    have has := readAs_dynamicWrites slot hlimit hm
    rw [← hwords] at has
    exact returns_resolve_of_readAs block hf rfl has
  · intro hlong hm
    have hnone : shortWord? value = none := shortWord?_eq_none_iff.2 hlong
    rw [valueSlots_of_long slot hlong, dynamicWrites_of_long slot hnone, List.map_cons,
      List.map_cons] at hwords
    have hword : longWord value.length = c'.storage.word address slot :=
      (List.cons.inj hwords).1.symm
    refine StoredValue.fails_resolve_of_length rfl (returns_read.2 ⟨hf, hword, rfl⟩) ?_
    rw [LengthWord.ofWord_longWord_eq _ _ hlimit, if_neg (by omega)]

/-- A value of 33 bytes takes up three slots, and a word at another slot does not change it. -/
theorem resolve_of_writeDynamic_long :
    let value : Bytes := List.replicate 33 7
    let c : SimulatedChain :=
      { storage := (Storage.empty.writeDynamic .zero 1 value).write .zero 5 Word.zero }
    ∃ v, (StoredValue.resolve service {} 1 .zero ⟨1, true⟩).Returns c v { c with reads := 1 } ∧
      v.slots = [1, 0xb10e2d527612073b26eecdfd717e6a320cf44b4afac2b0732d9fcbe2b7fa0cf6,
        0xb10e2d527612073b26eecdfd717e6a320cf44b4afac2b0732d9fcbe2b7fa0cf7] ∧
      ((v.value service 1).run { c with reads := 1 }).run =
        ((.ok value, { v with outcome := some (.ok value) }), { c with reads := 3 }) := by
  have hslots : valueSlots 1 33 =
      [1, 0xb10e2d527612073b26eecdfd717e6a320cf44b4afac2b0732d9fcbe2b7fa0cf6,
        0xb10e2d527612073b26eecdfd717e6a320cf44b4afac2b0732d9fcbe2b7fa0cf7] := by
    rw [valueSlots, toNat_keccak256_one]
    decide
  have hbase : ∀ i < 2,
      (1 : UInt256) ≠ BitVec.ofNat 256 ((keccak256 (UInt256.toWord 1).toList).toNat + i) := by
    rw [toNat_keccak256_one]
    decide
  have hlater : ∀ write ∈ [StorageWrite.word .zero 5 Word.zero], write.address = .zero →
      write.slots.Disjoint (valueSlots 1 33) := by
    intro write hw _
    rw [List.mem_singleton.1 hw, hslots]
    exact List.singleton_disjoint.2 (by decide)
  rw [← hslots]
  exact (resolve_of_writeDynamic {} {} 1 .zero 1 (List.replicate 33 7) _ rfl (by decide)
    (fun _ => hbase) hlater).1 (.inr (by decide))

end SimulatedChain

end StorageGateway
