import Mathlib.Algebra.Group.Nat.Even
import StorageGateway.Slot

/-!
# Numbers and their bytes

Writing a number in a fixed count of bytes and reading it back loses only what does not fit, and
reading a byte string and writing it back loses nothing. So words and the numbers below `2 ^ 256`
are in bijection.

## Main statements

* `BigEndian.decode_encode` — what is read back from `width` bytes.
* `BigEndian.decode_minimal`, `BigEndian.minimal_decode` — leading zeros do not matter.
* `BigEndian.length_minimal` — how many bytes are left without them.
* `UInt256.toUInt256_toWord`, `Word.toWord_toUInt256` — the bijection.
* `UInt256.toNat_toWord_setWidth` — the words of numbers of 64 bits.
-/

namespace StorageGateway

namespace BigEndian

/-- Writing in `width` bytes keeps the number modulo `256 ^ width`. -/
theorem decode_encode (width n : Nat) : decode (encode width n) = n % 256 ^ width := by
  induction width generalizing n with
  | zero => simp [encode, Nat.mod_one]
  | succ width ih =>
    rw [encode, decode_append_singleton, ih, Nat.pow_succ, Nat.mul_comm (256 ^ width),
      Nat.mod_mul]
    simp
    omega

theorem decode_encode_of_lt {width n : Nat} (h : n < 256 ^ width) :
    decode (encode width n) = n := by
  rw [decode_encode, Nat.mod_eq_of_lt h]

/-- A byte string of `n` bytes denotes a number below `256 ^ n`. -/
theorem decode_lt (bs : Bytes) : decode bs < 256 ^ bs.length := by
  suffices h : ∀ rs : Bytes, decode rs.reverse < 256 ^ rs.length by
    simpa using h bs.reverse
  intro rs
  induction rs with
  | nil => simp
  | cons b rs ih =>
    rw [List.reverse_cons, decode_append_singleton, List.length_cons, Nat.pow_succ]
    have := b.toNat_lt
    omega

/-- The last byte is the number modulo 256. -/
theorem getLastD_encode (width n : Nat) (b : UInt8) :
    (encode (width + 1) n).getLastD b = UInt8.ofNat n := by
  rw [encode, List.getLastD_concat]

/-- The high bytes of a number stand before its low bytes. -/
theorem encode_add (high low n : Nat) :
    encode (high + low) n = encode high (n / 256 ^ low) ++ encode low n := by
  induction low generalizing n with
  | zero => simp [encode]
  | succ low ih =>
    have hdiv : n / 256 / 256 ^ low = n / 256 ^ (low + 1) := by
      rw [Nat.div_div_eq_div_mul, Nat.pow_succ, Nat.mul_comm]
    rw [← Nat.add_assoc, encode, ih, encode, hdiv, List.append_assoc]

@[simp] theorem encode_zero (width : Nat) : encode width 0 = List.replicate width 0 := by
  induction width with
  | zero => rfl
  | succ width ih => rw [encode, Nat.zero_div, ih, List.replicate_succ']; rfl

/-- A number that fits in fewer bytes has zeros in front of them. -/
theorem encode_add_of_lt {low n : Nat} (high : Nat) (h : n < 256 ^ low) :
    encode (high + low) n = List.replicate high 0 ++ encode low n := by
  rw [encode_add, Nat.div_eq_of_lt h, encode_zero]

/-! ### Without leading zeros -/

theorem decode_dropWhile_zero (bs : Bytes) : decode (bs.dropWhile (· == 0)) = decode bs := by
  induction bs with
  | nil => rfl
  | cons b bs ih =>
    by_cases hb : b = 0
    · subst hb
      simpa [decode] using ih
    · simp [hb]

/-- Leading zeros do not matter to the number. -/
theorem decode_minimal {width n : Nat} (h : n < 256 ^ width) : decode (minimal width n) = n := by
  rw [minimal, decode_dropWhile_zero, decode_encode_of_lt h]

theorem head?_minimal_ne (width n : Nat) : (minimal width n).head? ≠ some 0 := by
  intro h
  have := List.head?_dropWhile_not (· == (0 : UInt8)) (encode width n)
  rw [← minimal, h] at this
  simp at this

theorem length_minimal_le (width n : Nat) : (minimal width n).length ≤ width := by
  have h := (List.dropWhile_sublist (· == (0 : UInt8)) (l := encode width n)).length_le
  rwa [length_encode] at h

theorem minimal_ne_nil {width n : Nat} (hn : 0 < n) (h : n < 256 ^ width) :
    minimal width n ≠ [] := by
  intro hm
  have hd := decode_minimal h
  rw [hm, decode_nil] at hd
  omega

/-- The count of bytes does not matter to the bytes without leading zeros. -/
theorem minimal_add {low n : Nat} (high : Nat) (h : n < 256 ^ low) :
    minimal (high + low) n = minimal low n := by
  rw [minimal, encode_add_of_lt high h, List.dropWhile_append_of_pos (by simp), minimal]

/-- A byte string without a leading zero is the number it denotes, in its fewest bytes. -/
theorem minimal_decode {width : Nat} {bs : Bytes} (hl : bs.length ≤ width)
    (hz : bs.head? ≠ some 0) : minimal width (decode bs) = bs := by
  obtain ⟨high, rfl⟩ := Nat.exists_eq_add_of_le' hl
  rw [minimal_add high (decode_lt bs), minimal, encode_decode]
  cases bs with
  | nil => rfl
  | cons b bs =>
    apply List.dropWhile_cons_of_neg
    simpa using hz

/-- A nonzero first byte makes a number large. -/
theorem le_decode_cons {b : UInt8} (hb : b ≠ 0) (bs : Bytes) :
    256 ^ bs.length ≤ decode (b :: bs) := by
  suffices h : ∀ rs : Bytes, 256 ^ rs.length ≤ decode (b :: rs.reverse) by
    simpa using h bs.reverse
  intro rs
  induction rs with
  | nil =>
    have : b.toNat ≠ 0 := fun h => hb (UInt8.toNat_inj.1 h)
    simp [decode]
    omega
  | cons c rs ih =>
    rw [List.reverse_cons, ← List.cons_append, decode_append_singleton, List.length_cons,
      Nat.pow_succ]
    omega

/-- How many bytes a number takes without leading zeros. -/
theorem length_minimal {width n : Nat} (hn : 0 < n) (h : n < 256 ^ width) :
    (minimal width n).length = n.log2 / 8 + 1 := by
  obtain ⟨b, bs, hm⟩ := List.exists_cons_of_ne_nil (minimal_ne_nil hn h)
  have hd := decode_minimal h
  have hb : b ≠ 0 := by
    have := head?_minimal_ne width n
    rw [hm] at this
    simpa using this
  rw [hm] at hd ⊢
  have hpow : ∀ k, 256 ^ k = 2 ^ (8 * k) := fun k => by rw [Nat.pow_mul]
  have hlow : 8 * bs.length ≤ n.log2 := by
    rw [Nat.le_log2 (by omega), ← hpow, ← hd]
    exact le_decode_cons hb bs
  have hhigh : n.log2 < 8 * (bs.length + 1) := by
    rw [Nat.log2_lt (by omega), ← hpow, ← hd]
    exact decode_lt (b :: bs)
  rw [List.length_cons]
  omega

end BigEndian

namespace FixedBytes

variable {n : Nat}

theorem toNat_lt (a : FixedBytes n) : a.toNat < 256 ^ n := by
  simpa [toNat] using BigEndian.decode_lt a.toList

theorem eq_append_of_take? {a : FixedBytes n} {bs rest : Bytes}
    (h : take? n bs = some (a, rest)) : bs = a.toList ++ rest := by
  obtain ⟨b, hb, h⟩ := Option.map_eq_some_iff.1 h
  cases h
  rw [toList_of_ofList? hb, List.take_append_drop]

theorem toNat_ofNat (n v : Nat) : (ofNat n v).toNat = v % 256 ^ n :=
  BigEndian.decode_encode n v

end FixedBytes

/-- Words are as many as the numbers below `2 ^ 256`. -/
theorem pow_32_eq : 256 ^ 32 = 2 ^ 256 := rfl

@[simp] theorem UInt256.toUInt256_toWord (n : UInt256) : Word.toUInt256 (UInt256.toWord n) = n := by
  apply BitVec.eq_of_toNat_eq
  rw [Word.toUInt256, UInt256.toWord, FixedBytes.toNat_ofNat, pow_32_eq, BitVec.toNat_ofNat,
    Nat.mod_mod, Nat.mod_eq_of_lt n.isLt]

@[simp] theorem Word.toWord_toUInt256 (w : Word) : UInt256.toWord (Word.toUInt256 w) = w := by
  have h : w.toNat < 2 ^ 256 := pow_32_eq ▸ w.toNat_lt
  rw [UInt256.toWord, Word.toUInt256, BitVec.toNat_ofNat, Nat.mod_eq_of_lt h,
    FixedBytes.ofNat_toNat]

/-- The word of a number of 64 bits denotes the number. -/
theorem UInt256.toNat_toWord_setWidth (n : BitVec 64) :
    (UInt256.toWord (n.setWidth 256)).toNat = n.toNat := by
  have hn := n.isLt
  rw [UInt256.toWord, FixedBytes.toNat_ofNat, BitVec.toNat_setWidth]
  omega

/-- The word of a number of 64 bits starts with zeros. -/
theorem UInt256.take_toWord_setWidth (n : BitVec 64) :
    (UInt256.toWord (n.setWidth 256)).toList.take 24 = List.replicate 24 0 := by
  have hlt := n.isLt
  have hn : n.toNat < 256 ^ 8 := by omega
  have hw : (n.setWidth 256).toNat = n.toNat := BitVec.toNat_setWidth_of_le (by decide)
  have hword : (UInt256.toWord (n.setWidth 256)).toList =
      List.replicate 24 0 ++ BigEndian.encode 8 n.toNat := by
    rw [← BigEndian.encode_add_of_lt 24 hn, ← hw]
    rfl
  rw [hword, List.take_left' List.length_replicate]

end StorageGateway
