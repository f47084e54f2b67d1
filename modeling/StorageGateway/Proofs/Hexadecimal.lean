import StorageGateway.Json.Reading
import StorageGateway.Proofs.BigEndian

/-!
# Numbers in hexadecimal text

A number is written with the fewest digits, or as a word with two digits per byte. Digits of either
way of writing are read back as the number.

## Main definitions

* `Hex.Digits` and `Hex.value` — lower-case digits, and the number that they denote.

## Main statements

* `Hex.value_toDigits`, `Hex.value_pairs` — the two ways of writing.
* `Json.number?_mark` — a text of marked digits is read as their number.
* `Json.quantity?_quantity`, `Json.quantity?_fixed` — numbers and words are read as numbers.
-/

namespace StorageGateway

/-! ## Digits -/

namespace Hex

/-- Characters that are lower-case digits. -/
def Digits (cs : List Char) : Prop := ∀ c ∈ cs, ∃ d < 16, c = digit d

/-- The number that digits denote after `n`. -/
def value (n : Nat) (cs : List Char) : Nat := cs.foldl (fun n c => 16 * n + (value? c).getD 0) n

@[simp] theorem value_nil (n : Nat) : value n [] = n := rfl

theorem value_append (n : Nat) (cs ds : List Char) : value n (cs ++ ds) = value (value n cs) ds :=
  List.foldl_append

theorem value_digit_cons (n : Nat) {d : Nat} (hd : d < 16) (cs : List Char) :
    value n (digit d :: cs) = value (16 * n + d) cs := by
  rw [value, List.foldl_cons, value?_digit hd]
  rfl

theorem digits_cons {c : Char} {cs : List Char} :
    Digits (c :: cs) ↔ (∃ d < 16, c = digit d) ∧ Digits cs := List.forall_mem_cons

/-- A character that has no value is no digit. -/
theorem Digits.not_mem {c : Char} {cs : List Char} (h : Digits cs) (hc : value? c = none) :
    c ∉ cs := by
  intro hm
  obtain ⟨d, hd, rfl⟩ := h c hm
  rw [value?_digit hd] at hc
  cases hc

theorem le_value (n : Nat) (cs : List Char) : n ≤ value n cs := by
  induction cs generalizing n with
  | nil => exact Nat.le_refl n
  | cons c cs ih =>
    have h := ih (16 * n + (value? c).getD 0)
    rw [value, List.foldl_cons]
    rw [value] at h
    omega

theorem toDigits_of_lt {n : Nat} (h : n < 16) : Nat.toDigits 16 n = [digit n] :=
  Nat.toDigits_of_lt_base h

theorem toDigits_of_le {n : Nat} (h : 16 ≤ n) :
    Nat.toDigits 16 n = Nat.toDigits 16 (n / 16) ++ [digit (n % 16)] :=
  Nat.toDigits_of_base_le (by decide) h

theorem digits_toDigits (n : Nat) : Digits (Nat.toDigits 16 n) := by
  induction n using Nat.strong_induction_on with
  | _ n ih =>
    by_cases hn : n < 16
    · rw [toDigits_of_lt hn]
      exact List.forall_mem_singleton.2 ⟨n, hn, rfl⟩
    · have hmod : n % 16 < 16 := Nat.mod_lt _ (by decide)
      rw [toDigits_of_le (Nat.le_of_not_lt hn), Digits, List.forall_mem_append]
      exact ⟨ih (n / 16) (by omega), List.forall_mem_singleton.2 ⟨n % 16, hmod, rfl⟩⟩

/-- The fewest digits of a number denote it. -/
theorem value_toDigits (n : Nat) : value 0 (Nat.toDigits 16 n) = n := by
  induction n using Nat.strong_induction_on with
  | _ n ih =>
    by_cases hn : n < 16
    · rw [toDigits_of_lt hn, value_digit_cons 0 hn, value_nil, Nat.mul_zero, Nat.zero_add]
    · have hmod : n % 16 < 16 := Nat.mod_lt _ (by decide)
      rw [toDigits_of_le (Nat.le_of_not_lt hn), value_append, ih (n / 16) (by omega),
        value_digit_cons _ hmod, value_nil]
      omega

theorem digits_pairs (bs : Bytes) : Digits (bs.flatMap pair) := by
  intro c hc
  obtain ⟨b, -, hc⟩ := List.mem_flatMap.1 hc
  have hb := b.toNat_lt
  simp only [pair, List.mem_cons, List.not_mem_nil, or_false] at hc
  rcases hc with rfl | rfl
  · exact ⟨b.toNat / 16, by omega, rfl⟩
  · exact ⟨b.toNat % 16, by omega, rfl⟩

theorem toList_quantity (n : Nat) : (quantity n).toList = '0' :: 'x' :: Nat.toDigits 16 n := by
  simp [quantity, String.toList_append]

theorem toList_ofBytes (bs : Bytes) : (ofBytes bs).toList = '0' :: 'x' :: bs.flatMap pair := by
  simp [ofBytes, digits, String.toList_append]

/-- Two digits per byte denote the number of the bytes. -/
theorem value_pairs (bs : Bytes) : value 0 (bs.flatMap pair) = BigEndian.decode bs := by
  suffices h : ∀ n, value n (bs.flatMap pair) =
      bs.foldl (fun n (b : UInt8) => 256 * n + b.toNat) n from h 0
  induction bs with
  | nil =>
    intro n
    rfl
  | cons b bs ih =>
    intro n
    have hb := b.toNat_lt
    have hhigh : b.toNat / 16 < 16 := by omega
    have hlow : b.toNat % 16 < 16 := by omega
    have hbyte : 16 * (16 * n + b.toNat / 16) + b.toNat % 16 = 256 * n + b.toNat := by omega
    rw [List.flatMap_cons, pair, List.cons_append, List.cons_append, List.nil_append,
      value_digit_cons n hhigh, value_digit_cons _ hlow, hbyte, ih, List.foldl_cons]

end Hex

/-! ## Reading -/

namespace Json

/-- Digits are read as the number that they denote. -/
theorem digits?_of_digits {cs : List Char} (h : Hex.Digits cs) (n : Nat) :
    digits? 16 n cs = some (Hex.value n cs) := by
  induction cs generalizing n with
  | nil => rfl
  | cons c cs ih =>
    obtain ⟨⟨d, hd, rfl⟩, hcs⟩ := Hex.digits_cons.1 h
    have hdigit : digit? 16 (Hex.digit d) = some d := by
      simp [digit?, Hex.value?_digit hd, hd]
    have hblank : Hex.digit d ≠ '_' := by
      have hv : Hex.value? '_' = none := by decide
      exact (List.ne_of_not_mem_cons (h.not_mem hv)).symm
    simp only [digits?, hblank, if_false, hdigit, Hex.value_digit_cons n hd, ih hcs]

/-- Digits after a mark are read as their number. -/
theorem number?_mark {cs : List Char} (h : Hex.Digits cs) :
    number? ('0' :: 'x' :: cs) = some (Hex.value 0 cs) := digits?_of_digits h 0

theorem ofNat?_toNat {w : Nat} (n : BitVec w) : ofNat? w n.toNat = some n := by
  simp [ofNat?]

/-- A quantity is read back. -/
@[simp] theorem quantity?_quantity {w : Nat} (n : BitVec w) :
    quantity? w (quantity n) = some n := by
  rw [quantity, quantity?, Hex.toList_quantity, number?_mark (Hex.digits_toDigits _),
    Hex.value_toDigits]
  exact ofNat?_toNat n

/-- A word is read as the number that it denotes. -/
@[simp] theorem quantity?_fixed (n : UInt256) : quantity? 256 (fixed n.toWord) = some n := by
  have hword : BigEndian.decode n.toWord.toList = n.toNat := by
    have hn := congrArg BitVec.toNat (UInt256.toUInt256_toWord n)
    have hlt := pow_32_eq ▸ n.toWord.toNat_lt
    rwa [Word.toUInt256, BitVec.toNat_ofNat, Nat.mod_eq_of_lt hlt] at hn
  rw [fixed, bytes, quantity?, Hex.toList_ofBytes, number?_mark (Hex.digits_pairs _),
    Hex.value_pairs, hword]
  exact ofNat?_toNat n

/-- A byte string is read back. -/
@[simp] theorem bytes?_bytes (bs : Bytes) : bytes? (bytes bs) = some bs := Hex.bytes?_ofBytes bs

/-- A byte string of fixed length is read back. -/
@[simp] theorem fixed?_fixed {n : Nat} (a : FixedBytes n) : fixed? n (fixed a) = some a :=
  Hex.fixed?_ofBytes a

end Json

end StorageGateway
