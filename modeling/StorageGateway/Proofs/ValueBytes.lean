import StorageGateway.Proofs.DynamicStorage

/-!
# Values byte by byte

What a gateway finds at a base slot is decided by the word there, whatever was stored. The bytes of
a short value are those of the word. The bytes of a long value are counted off the data slots, 32
from each of them, and the last word is cut. Data slots are counted modulo `2 ^ 256` from a digest,
and are distinct as long as they are no more than all slots.

## Main definitions

* `Storage.longValue` — a long value for its base slot.
* `SimulatedChain.Finds` — the slots and the bytes that are found for a value of dynamic length.

## Main statements

* `getElem?_flatMap_toList` — a byte of joined words.
* `Storage.length_longValue`, `Storage.getElem?_longValue` — the bytes of a long value.
* `SimulatedChain.resolve_of_word` — what is found for any word.
-/

namespace StorageGateway

/-! ## Bytes of words -/

theorem length_flatMap_toList (words : List Word) :
    (words.flatMap (·.toList)).length = 32 * words.length := by
  simp [List.length_flatMap, Nat.mul_comm]

/-- Byte `j` of words that are joined is byte `j % 32` of word `j / 32`. -/
theorem getElem?_flatMap_toList (words : List Word) (j : Nat) :
    (words.flatMap (·.toList))[j]? = words[j / 32]?.bind fun word => word.toList[j % 32]? := by
  induction words generalizing j with
  | nil => simp
  | cons word words ih =>
    rw [List.flatMap_cons]
    by_cases hj : j < 32
    · have hlt : j < word.toList.length := by simpa using hj
      rw [List.getElem?_append_left hlt, Nat.div_eq_of_lt hj, Nat.mod_eq_of_lt hj]
      simp
    · have hdiv : j / 32 = (j - 32) / 32 + 1 := by omega
      have hmod : j % 32 = (j - 32) % 32 := by omega
      rw [List.getElem?_append_right (by simpa using Nat.le_of_not_lt hj), FixedBytes.length_toList,
        ih, hdiv, hmod, List.getElem?_cons_succ]

/-! ## Bytes of long values -/

namespace Storage

variable {s : Storage} {address : Address} {slot : UInt256} {length j : Nat}

/-- A long value of a given length based at `slot`. -/
def longValue (s : Storage) (address : Address) (slot : UInt256) (length : Nat) : Bytes :=
  (((dataSlots slot (Bytes.pieces 32 length)).map (s.word address)).flatMap (·.toList)).take length

/-- The data slots hold no fewer bytes than the value has. -/
theorem length_longValue : (s.longValue address slot length).length = length := by
  have henough : length ≤ 32 * Bytes.pieces 32 length := by
    unfold Bytes.pieces
    omega
  rw [longValue, List.length_take, length_flatMap_toList, List.length_map, length_dataSlots,
    Nat.min_eq_left henough]

/-- Byte `j` is byte `j % 32` of the slot that is `j / 32` slots after the digest of the base
slot. -/
theorem getElem?_longValue (hj : j < length) :
    (s.longValue address slot length)[j]? =
      (s.word address (BitVec.ofNat 256
        ((keccak256 slot.toWord.toList).toNat + j / 32))).toList[j % 32]? := by
  have hpiece : j / 32 < Bytes.pieces 32 length := by
    unfold Bytes.pieces
    omega
  rw [longValue, List.getElem?_take_of_lt hj, getElem?_flatMap_toList, List.getElem?_map,
    dataSlots_eq]
  simp [hpiece]

end Storage

/-! ## A simulated chain -/

namespace SimulatedChain

variable {config : Config} {c : SimulatedChain} {address : Address} {slot : UInt256}

/-- The value of dynamic length at a base slot is resolved with one read, to some slots and some
bytes; asking for the bytes reads the slots that were not read yet. -/
def Finds (config : Config) (c : SimulatedChain) (block : BitVec 64) (address : Address)
    (slot : UInt256) (slots : List UInt256) (value : Bytes) : Prop :=
  ∃ v, (StoredValue.resolve service config block address ⟨slot, true⟩).Returns c v
      { c with reads := c.reads + 1 } ∧
    v.slots = slots ∧
    ((v.value service block).run { c with reads := c.reads + 1 }).run =
      ((.ok value, { v with outcome := some (.ok value) }),
        { c with reads := c.reads + slots.length })

/-- A short value is found in its base slot alone. -/
theorem finds_short (block : BitVec 64) (hf : c.failReads = false) {value : Bytes}
    (hw : LengthWord.ofWord slot (c.storage.word address slot) config.maxValueLength =
      .ok (.short value)) : Finds config c block address slot [slot] value :=
  returns_resolve_of_readAs block hf rfl (.short rfl hw)

/-- A long value is found in its data slots. -/
theorem finds_long (block : BitVec 64) (hf : c.failReads = false) {length : Nat}
    (hw : LengthWord.ofWord slot (c.storage.word address slot) config.maxValueLength =
      .ok (.long length (dataSlots slot (Bytes.pieces 32 length)))) :
    Finds config c block address slot (slot :: dataSlots slot (Bytes.pieces 32 length))
      (c.storage.longValue address slot length) := by
  have hd : (⟨slot, true⟩ : BaseSlot).isDynamic = true := rfl
  have hread : ReadAs config.maxValueLength ⟨slot, true⟩
      ((slot :: dataSlots slot (Bytes.pieces 32 length)).map (c.storage.word address))
      ⟨slot :: dataSlots slot (Bytes.pieces 32 length), c.storage.longValue address slot length⟩ :=
    .long hd hw (List.length_map _)
  exact returns_resolve_of_readAs block hf hd hread

/-- **Any word at a base slot decides what is found.** An even word whose last byte is at most 62
holds a value of half as many bytes itself. An odd word tells a length: if that is within the limit,
the value has as many bytes, 32 from each data slot in order; the data slots begin at the digest of
the 32 bytes of the base slot, follow each other modulo `2 ^ 256`, and are distinct. Any other word
is an error after the one read, and a length above the limit is part of it. -/
theorem resolve_of_word (config : Config) (c : SimulatedChain) (block : BitVec 64)
    (address : Address) (slot : UInt256) (hlimit : config.maxValueLength < limit64)
    (hf : c.failReads = false) :
    let word := c.storage.word address slot
    let last := (word.toList.getLastD 0).toNat
    let length := (word.toNat - 1) / 2
    let digest := (keccak256 slot.toWord.toList).toNat
    let dataSlot := fun i => BitVec.ofNat 256 (digest + i)
    let resolved := StoredValue.resolve service config block address ⟨slot, true⟩
    let read : SimulatedChain := { c with reads := c.reads + 1 }
    (last % 2 = 0 → last ≤ 62 →
      Finds config c block address slot [slot] (word.toList.take (last / 2))) ∧
    (word.toNat % 2 = 1 → length ≤ config.maxValueLength →
      ∃ value, Finds config c block address slot
          (slot :: (List.range ((length + 31) / 32)).map dataSlot) value ∧
        value.length = length ∧
        (∀ j < length, value[j]? = (c.storage.word address (dataSlot (j / 32))).toList[j % 32]?) ∧
        ((List.range ((length + 31) / 32)).map dataSlot).Nodup) ∧
    (word.toNat % 2 = 0 → 64 ≤ last →
      ∃ reason, resolved.Fails c (.malformedValue slot reason) read) ∧
    (word.toNat % 2 = 1 → config.maxValueLength < length →
      ∃ told, resolved.Fails c (.valueTooLarge slot told config.maxValueLength) read ∧
        told.toNat = length) := by
  intro word last length digest dataSlot resolved read
  have hread : (service.read block address slot).Returns c word read :=
    returns_read.2 ⟨hf, rfl, rfl⟩
  have hlast : last = word.toNat % 256 := Word.toNat_getLastD word
  refine ⟨?short, ?long, ?malformed, ?tooLarge⟩
  case short =>
    intro he hl
    have heven : word.toNat % 2 = 0 := by omega
    exact finds_short block hf (LengthWord.ofWord_of_even_le slot heven hl)
  case long =>
    intro ho hm
    have hlength : length < limit64 := by omega
    have hcount : Bytes.pieces 32 length ≤ 2 ^ 256 := by
      unfold Bytes.pieces
      unfold limit64 at hlength
      omega
    have htold := LengthWord.ofWord_of_odd slot config.maxValueLength ho
    rw [if_pos ⟨hlength, hm⟩] at htold
    have hdata : dataSlots slot (Bytes.pieces 32 length) =
        (List.range ((length + 31) / 32)).map dataSlot := dataSlots_eq slot _
    have hfinds := finds_long block hf htold
    have hnodup := nodup_dataSlots slot hcount
    rw [hdata] at hfinds hnodup
    exact ⟨_, hfinds, Storage.length_longValue, fun j hj => Storage.getElem?_longValue hj, hnodup⟩
  case malformed =>
    intro he hl
    exact ⟨_, StoredValue.fails_resolve_of_length rfl hread
      (LengthWord.ofWord_of_even_gt slot he hl)⟩
  case tooLarge =>
    intro ho hm
    have hlength : ¬ (length < limit64 ∧ length ≤ config.maxValueLength) := by omega
    have htold := LengthWord.ofWord_of_odd slot config.maxValueLength ho
    rw [if_neg hlength] at htold
    exact ⟨_, StoredValue.fails_resolve_of_length rfl hread htold, LengthWord.toNat_length word⟩

/-- A value of 33 bytes at base slot `1`: 32 bytes are at the digest of the base slot, and the last
one is at the slot after it. -/
theorem resolve_of_word_digest :
    let ones : Word := ⟨List.replicate 32 1, rfl⟩
    let twos : Word := ⟨List.replicate 32 2, rfl⟩
    let words := Storage.empty.writeAll .zero
      [(1, longWord 33),
        (0xb10e2d527612073b26eecdfd717e6a320cf44b4afac2b0732d9fcbe2b7fa0cf6, ones),
        (0xb10e2d527612073b26eecdfd717e6a320cf44b4afac2b0732d9fcbe2b7fa0cf7, twos)]
    ∃ value, Finds {} { storage := words } 1 .zero 1
        [1, 0xb10e2d527612073b26eecdfd717e6a320cf44b4afac2b0732d9fcbe2b7fa0cf6,
          0xb10e2d527612073b26eecdfd717e6a320cf44b4afac2b0732d9fcbe2b7fa0cf7] value ∧
      value.length = 33 ∧ value[31]? = some 1 ∧ value[32]? = some 2 := by
  intro ones twos words
  have hword : words.word .zero 1 = longWord 33 := rfl
  have hodd : (longWord 33).toNat % 2 = 1 := by decide +kernel
  have hlength : ((longWord 33).toNat - 1) / 2 = 33 := by decide +kernel
  obtain ⟨-, hlong, -⟩ := resolve_of_word {} { storage := words } 1 .zero 1 (by decide) rfl
  simp only [hword, hlength, toNat_keccak256_one] at hlong
  obtain ⟨value, hfinds, hvalue, hbytes, -⟩ := hlong hodd (by decide)
  exact ⟨value, hfinds, hvalue, hbytes 31 (by decide), hbytes 32 (by decide)⟩

end SimulatedChain

end StorageGateway
