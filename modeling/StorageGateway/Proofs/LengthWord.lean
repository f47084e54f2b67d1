import StorageGateway.Proofs.BigEndian
import StorageGateway.Storage.LengthWord

/-!
# What a length word tells

The word at the base slot of a byte string is decided by its last byte and by its number, whatever
was stored. An even word holds up to 31 bytes and is no length otherwise; an odd word tells a length
that is within the limits or not. These four cases are all, and whatever else holds of length words
is told apart by them.

## Main statements

* `dataSlots_eq` — where the data slots of a base slot are.
* `LengthWord.ofWord_cases` — the four cases.
* `LengthWord.ofWord_mono` — a higher limit changes nothing that was within the limit.
* `LengthWord.ofWord_longWord_eq` — the length word that is written for a long value.
-/

namespace StorageGateway

/-- The last byte of a word is its number modulo 256. -/
theorem Word.toNat_getLastD (w : Word) : (w.toList.getLastD 0).toNat = w.toNat % 256 := by
  have hbytes : w.toList = BigEndian.encode (31 + 1) w.toNat := by
    simpa [FixedBytes.toNat] using (BigEndian.encode_decode w.toList).symm
  rw [hbytes, BigEndian.getLastD_encode, UInt8.toNat_ofNat']

/-- Longer strings are covered by no fewer pieces. -/
theorem Bytes.pieces_le_pieces (width : Nat) {m n : Nat} (h : m ≤ n) :
    Bytes.pieces width m ≤ Bytes.pieces width n :=
  Nat.div_le_div_right (by omega)

/-- The data slots of a base slot are counted from the digest of its 32 bytes, modulo `2 ^ 256`. -/
theorem dataSlots_eq (slot : UInt256) (count : Nat) :
    dataSlots slot count = (List.range count).map fun i =>
      BitVec.ofNat 256 ((keccak256 slot.toWord.toList).toNat + i) := by
  simp only [dataSlots, dataStart, Word.toUInt256, BitVec.ofNat_add]

/-- The digest of base slot `1`. -/
theorem toNat_keccak256_one : (keccak256 (UInt256.toWord 1).toList).toNat =
    0xb10e2d527612073b26eecdfd717e6a320cf44b4afac2b0732d9fcbe2b7fa0cf6 := by
  decide +kernel

namespace LengthWord

variable (slot : UInt256) {word : Word} {max max' length : Nat}

/-! ## The four cases -/

/-- An even word holds up to 31 bytes. -/
theorem ofWord_of_even_le (he : word.toNat % 2 = 0)
    (hl : (word.toList.getLastD 0).toNat ≤ 62) :
    ofWord slot word max =
      .ok (.short (word.toList.take ((word.toList.getLastD 0).toNat / 2))) := by
  have hlimit : (word.toList.getLastD 0).toNat / 2 ≤ shortLimit := by
    unfold shortLimit
    omega
  have heven : (word.toList.getLastD 0).toNat % 2 = 0 := by
    rw [Word.toNat_getLastD]
    omega
  simp only [ofWord, heven, hlimit, if_true]

/-- An even word cannot hold more. -/
theorem ofWord_of_even_gt (he : word.toNat % 2 = 0)
    (hl : 64 ≤ (word.toList.getLastD 0).toNat) :
    ofWord slot word max = .error (.malformedValue slot
      s!"short value length {(word.toList.getLastD 0).toNat / 2} exceeds 31 bytes") := by
  have hlimit : ¬ (word.toList.getLastD 0).toNat / 2 ≤ shortLimit := by
    unfold shortLimit
    omega
  have heven : (word.toList.getLastD 0).toNat % 2 = 0 := by
    rw [Word.toNat_getLastD]
    omega
  simp only [ofWord, heven, hlimit, if_true, if_false]

/-- An odd word tells a length and, within the limits, the data slots. -/
theorem ofWord_of_odd (max : Nat) (ho : word.toNat % 2 = 1) :
    ofWord slot word max =
      if (word.toNat - 1) / 2 < limit64 ∧ (word.toNat - 1) / 2 ≤ max then
        .ok (.long ((word.toNat - 1) / 2)
          (dataSlots slot (Bytes.pieces 32 ((word.toNat - 1) / 2))))
      else .error (.valueTooLarge slot (BitVec.ofNat 256 ((word.toNat - 1) / 2)) max) := by
  have hodd : ¬ word.toNat % 256 % 2 = 0 := by omega
  simp only [ofWord, Word.toNat_getLastD, hodd, if_false]

/-- What any word tells. -/
theorem ofWord_cases (slot : UInt256) (word : Word) (max : Nat) :
    (word.toNat % 2 = 0 ∧ (word.toList.getLastD 0).toNat ≤ 62 ∧
      ofWord slot word max =
        .ok (.short (word.toList.take ((word.toList.getLastD 0).toNat / 2)))) ∨
    (word.toNat % 2 = 0 ∧ ∃ reason, ofWord slot word max = .error (.malformedValue slot reason)) ∨
    (word.toNat % 2 = 1 ∧ ∃ length < limit64, length ≤ max ∧
      ofWord slot word max = .ok (.long length (dataSlots slot (Bytes.pieces 32 length)))) ∨
    (word.toNat % 2 = 1 ∧ ∃ length,
      ofWord slot word max = .error (.valueTooLarge slot length max)) := by
  by_cases he : word.toNat % 2 = 0
  · by_cases hl : (word.toList.getLastD 0).toNat ≤ 62
    · exact .inl ⟨he, hl, ofWord_of_even_le slot he hl⟩
    · have hlast : 64 ≤ (word.toList.getLastD 0).toNat := by
        rw [Word.toNat_getLastD] at hl ⊢
        omega
      exact .inr (.inl ⟨he, _, ofWord_of_even_gt slot he hlast⟩)
  · have ho : word.toNat % 2 = 1 := by omega
    by_cases hl : (word.toNat - 1) / 2 < limit64 ∧ (word.toNat - 1) / 2 ≤ max
    · exact .inr (.inr (.inl ⟨ho, _, hl.1, hl.2, by rw [ofWord_of_odd slot max ho, if_pos hl]⟩))
    · exact .inr (.inr (.inr ⟨ho, _, by rw [ofWord_of_odd slot max ho, if_neg hl]⟩))

/-- A length that a word tells is a number of 256 bits. -/
theorem toNat_length (word : Word) :
    (BitVec.ofNat 256 ((word.toNat - 1) / 2)).toNat = (word.toNat - 1) / 2 := by
  have hlt : word.toNat < 2 ^ 256 := pow_32_eq ▸ word.toNat_lt
  rw [BitVec.toNat_ofNat, Nat.mod_eq_of_lt (by omega)]

/-! ## What follows from what was told -/

section

variable {slot : UInt256} {value : Bytes} {data : List UInt256}

theorem length_le_of_short (h : ofWord slot word max = .ok (.short value)) :
    value.length ≤ 32 := by
  rcases ofWord_cases slot word max with ⟨-, -, hw⟩ | ⟨-, reason, hw⟩ | ⟨-, length, -, -, hw⟩ |
    ⟨-, length, hw⟩ <;> rw [hw] at h <;> cases h
  have hlength := List.length_take_le' ((word.toList.getLastD 0).toNat / 2) word.toList
  rwa [word.length_toList] at hlength

/-- A long value is within the limits, and its base slot and its length tell its data slots. -/
theorem of_long (h : ofWord slot word max = .ok (.long length data)) :
    length < limit64 ∧ length ≤ max ∧ data = dataSlots slot (Bytes.pieces 32 length) := by
  rcases ofWord_cases slot word max with ⟨-, -, hw⟩ | ⟨-, reason, hw⟩ | ⟨-, told, hl, hm, hw⟩ |
    ⟨-, told, hw⟩ <;> rw [hw] at h <;> cases h
  exact ⟨hl, hm, rfl⟩

/-- The data slots of a long value are as many as the pieces of its length. -/
theorem length_slots_of_long (h : ofWord slot word max = .ok (.long length data)) :
    data.length = Bytes.pieces 32 length := by
  rw [(of_long h).2.2, length_dataSlots]

/-- The data slots of a long value are no more than the pieces of the longest one. -/
theorem length_slots_le_of_long (h : ofWord slot word max = .ok (.long length data)) :
    data.length ≤ Bytes.pieces 32 max := by
  rw [length_slots_of_long h]
  exact Bytes.pieces_le_pieces 32 (of_long h).2.1

/-- A word is no length in one of two ways: no short value has so many bytes, or the limit is
less. -/
theorem of_ofWord_eq_error {e : Error} (h : ofWord slot word max = .error e) :
    (∃ reason, e = .malformedValue slot reason) ∨ ∃ length, e = .valueTooLarge slot length max := by
  rcases ofWord_cases slot word max with ⟨-, -, hw⟩ | ⟨-, reason, hw⟩ | ⟨-, told, -, -, hw⟩ |
    ⟨-, told, hw⟩ <;> rw [hw] at h <;> cases h
  · exact .inl ⟨reason, rfl⟩
  · exact .inr ⟨told, rfl⟩

/-- A length word that a limit admits tells the same under a higher limit. -/
theorem ofWord_mono (hm : max ≤ max') {told : LengthWord} (h : ofWord slot word max = .ok told) :
    ofWord slot word max' = .ok told := by
  by_cases ho : word.toNat % 2 = 1
  · rw [ofWord_of_odd slot _ ho] at h ⊢
    by_cases hl : (word.toNat - 1) / 2 < limit64 ∧ (word.toNat - 1) / 2 ≤ max
    · rw [if_pos hl] at h
      rw [if_pos ⟨hl.1, Nat.le_trans hl.2 hm⟩, h]
    · rw [if_neg hl] at h
      cases h
  · -- A limit is only for odd words.
    rcases ofWord_cases slot word max with ⟨he, hl, hw⟩ | ⟨-, reason, hw⟩ | ⟨ho', -⟩ | ⟨ho', -⟩
    · rw [← h, hw, ofWord_of_even_le slot he hl]
    · rw [hw] at h
      cases h
    · exact absurd ho' ho
    · exact absurd ho' ho

end

/-! ## The word of a long value -/

/-- A length word tells the length and the data slots, unless the length is above the limit. -/
theorem ofWord_longWord_eq (slot : UInt256) {length : Nat} (max : Nat) (hl : length < limit64) :
    ofWord slot (longWord length) max =
      if length ≤ max then .ok (.long length (dataSlots slot (Bytes.pieces 32 length)))
      else .error (.valueTooLarge slot (BitVec.ofNat 256 length) max) := by
  have hlt : 2 * length + 1 < 256 ^ 32 := by
    unfold limit64 at hl
    omega
  have hnat : (longWord length).toNat = 2 * length + 1 := by
    rw [longWord, FixedBytes.toNat_ofNat, Nat.mod_eq_of_lt hlt]
  have hhalf : ((longWord length).toNat - 1) / 2 = length := by omega
  rw [ofWord_of_odd slot max (by omega), hhalf]
  simp only [hl, true_and]

/-- A length word tells the length and the data slots. -/
theorem ofWord_longWord (slot : UInt256) (hl : length < limit64) (hm : length ≤ max) :
    ofWord slot (longWord length) max =
      .ok (.long length (dataSlots slot (Bytes.pieces 32 length))) := by
  rw [ofWord_longWord_eq slot max hl, if_pos hm]

end LengthWord

end StorageGateway
