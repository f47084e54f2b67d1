import StorageGateway.Proofs.BigEndian
import StorageGateway.Proofs.Run
import StorageGateway.Storage.Leaf

/-!
# Reading back RLP

What the encoders of strings, numbers and lists write is read back as it was, and the reader leaves
what follows the item. All that the encoders need is that lengths fit in 64 bits.

## Main statements

* `Rlp.Header.read_encode` — the header of an item in front of its payload.
* `Rlp.readString_string`, `Rlp.readNumber_number`, `Rlp.readListHeader_list` — items.
* `StorageLeaf.read_encode` — the leaf of a storage trie.
-/

namespace StorageGateway

namespace Rlp

variable {α β : Type}

/-! ## Readers -/

theorem bind_apply (m : Reader α) (f : α → Reader β) (buffer : Bytes) :
    (m >>= f) buffer = m buffer >>= fun x => f x.1 x.2 := rfl

@[simp] theorem pure_apply (a : α) (buffer : Bytes) :
    (pure a : Reader α) buffer = .ok (a, buffer) := rfl

/-! ## Headers -/

namespace Header

theorem length_encode_le (h : Header) : h.encode.length ≤ 9 := by
  rw [encode]
  split
  · simp
  · have := BigEndian.length_minimal_le 8 h.payloadLength
    rw [List.length_cons]
    omega

/-- A length of 56 or more follows the first byte in its fewest bytes. -/
theorem readLength_minimal {n : Nat} (hn : 56 ≤ n) (hl : n < limit64) (rest : Bytes) :
    readLength (BigEndian.minimal 8 n).length (BigEndian.minimal 8 n ++ rest) = .ok (n, rest) := by
  have hl : n < 256 ^ 8 := hl
  obtain ⟨b, bs, hb⟩ := List.exists_cons_of_ne_nil (BigEndian.minimal_ne_nil (by omega) hl)
  have hhead : b ≠ 0 := by
    have := BigEndian.head?_minimal_ne 8 n
    rw [hb] at this
    simpa using this
  have hdecode := BigEndian.decode_minimal hl
  rw [hb] at hdecode ⊢
  have hshort : ¬ n < 56 := by omega
  have hlen : ¬ ((b :: bs) ++ rest).length < (b :: bs).length := by
    rw [List.length_append]
    omega
  rw [readLength, if_neg hlen, if_neg (by simpa using hhead), List.take_left, List.drop_left,
    hdecode]
  simp only [hshort, if_false]

/-- The first byte of a short string is followed by its bytes. A single byte there is not its own
encoding. -/
theorem readStart_shortString {b : UInt8} {n : Nat} {payload : Bytes} (hn : n < 56)
    (hb : b.toNat = 0x80 + n)
    (hc : n = 1 → ∃ c rest, payload = c :: rest ∧ 0x80 ≤ c.toNat) :
    readStart (b :: payload) = .ok (⟨false, n⟩, payload) := by
  have h1 : ¬ b.toNat < 0x80 := by omega
  have h2 : b.toNat < 0xb8 := by omega
  by_cases hone : n = 1
  · subst hone
    obtain ⟨c, rest, rfl, hc⟩ := hc rfl
    have h3 : b = 0x81 := by rw [← UInt8.toNat_inj, hb]; rfl
    have h4 : ¬ c.toNat < 0x80 := by omega
    subst h3
    simp [readStart, h4]
  · have h3 : b ≠ 0x81 := by
      intro h
      rw [h] at hb
      have hb : 129 = 128 + n := hb
      omega
    have h4 : b.toNat - 0x80 = n := by omega
    simp only [readStart, h1, h2, h3, h4, if_false, if_true]

theorem readStart_longString {b : UInt8} {d : Nat} {rest : Bytes} (h0 : 1 ≤ d) (hd : d ≤ 8)
    (hb : b.toNat = 0xb7 + d) :
    readStart (b :: rest) = (readLength d rest).map fun (n, rest) => (⟨false, n⟩, rest) := by
  have h1 : ¬ b.toNat < 0x80 := by omega
  have h2 : b ≠ 0x81 := ne_of_apply_ne UInt8.toNat (by rw [hb]; simp; omega)
  have h3 : ¬ b.toNat < 0xb8 := by omega
  have h4 : b.toNat < 0xc0 := by omega
  have h5 : b.toNat - 0xb7 = d := by omega
  simp only [readStart, h1, h2, h3, h4, h5, if_false, if_true]

theorem readStart_shortList {b : UInt8} {n : Nat} {payload : Bytes} (hn : n < 56)
    (hb : b.toNat = 0xc0 + n) : readStart (b :: payload) = .ok (⟨true, n⟩, payload) := by
  have h1 : ¬ b.toNat < 0x80 := by omega
  have h2 : b ≠ 0x81 := ne_of_apply_ne UInt8.toNat (by rw [hb]; simp; omega)
  have h3 : ¬ b.toNat < 0xb8 := by omega
  have h4 : ¬ b.toNat < 0xc0 := by omega
  have h5 : b.toNat < 0xf8 := by omega
  have h6 : b.toNat - 0xc0 = n := by omega
  simp only [readStart, h1, h2, h3, h4, h5, h6, if_false, if_true]

theorem readStart_longList {b : UInt8} {d : Nat} {rest : Bytes} (h0 : 1 ≤ d)
    (hb : b.toNat = 0xf7 + d) :
    readStart (b :: rest) = (readLength d rest).map fun (n, rest) => (⟨true, n⟩, rest) := by
  have h1 : ¬ b.toNat < 0x80 := by omega
  have h2 : b ≠ 0x81 := ne_of_apply_ne UInt8.toNat (by rw [hb]; simp; omega)
  have h3 : ¬ b.toNat < 0xb8 := by omega
  have h4 : ¬ b.toNat < 0xc0 := by omega
  have h5 : ¬ b.toNat < 0xf8 := by omega
  have h6 : b.toNat - 0xf7 = d := by omega
  simp only [readStart, h1, h2, h3, h4, h5, h6, if_false]

/-- The length of a long item in its fewest bytes. -/
theorem length_minimal {n : Nat} (hn : 56 ≤ n) (hl : n < limit64) :
    1 ≤ (BigEndian.minimal 8 n).length ∧ (BigEndian.minimal 8 n).length ≤ 8 := by
  have hl : n < 256 ^ 8 := hl
  exact ⟨List.length_pos_iff.2 (BigEndian.minimal_ne_nil (by omega) hl),
    BigEndian.length_minimal_le 8 n⟩

/-- A header in front of its payload. A string of one byte has a header only if the byte is not its
own encoding. -/
theorem read_encode {h : Header} {payload : Bytes} (hl : h.payloadLength < limit64)
    (hp : h.payloadLength ≤ payload.length)
    (hc : h.isList = false → h.payloadLength = 1 →
      ∃ c rest, payload = c :: rest ∧ 0x80 ≤ c.toNat) :
    read (h.encode ++ payload) = .ok (h, payload) := by
  suffices hs : readStart (h.encode ++ payload) = .ok (h, payload) by
    have hn : ¬ payload.length < h.payloadLength := by omega
    simp [read, hs, hn, bind, Except.bind]
  obtain ⟨isList, n⟩ := h
  simp only at hl hc
  by_cases hn : n < 56
  · rw [encode, if_pos hn, List.singleton_append]
    cases isList with
    | false => exact readStart_shortString hn (by simp [base]; omega) (hc rfl)
    | true => exact readStart_shortList hn (by simp [base]; omega)
  · obtain ⟨h0, hd⟩ := length_minimal (by omega) hl
    rw [encode, if_neg hn, List.cons_append]
    cases isList with
    | false =>
      rw [readStart_longString h0 hd (by simp [base]; omega), readLength_minimal (by omega) hl]
      rfl
    | true =>
      rw [readStart_longList h0 (by simp [base]; omega), readLength_minimal (by omega) hl]
      rfl

end Header

/-! ## Strings -/

theorem readString_of_read {buffer rest : Bytes} {h : Header}
    (hr : Header.read buffer = .ok (h, rest)) (hl : h.isList = false) :
    readString buffer = .ok (rest.take h.payloadLength, rest.drop h.payloadLength) := by
  rw [readString, bind_apply, hr]
  simp [hl, bind, Except.bind, readRaw]

/-- A string is a single low byte, or bytes behind a header. -/
theorem string_cases (bs : Bytes) :
    (∃ b, b.toNat < 0x80 ∧ bs = [b] ∧ string bs = [b]) ∨
      ((bs.length = 1 → ∃ c rest, bs = c :: rest ∧ 0x80 ≤ c.toNat) ∧
        string bs = Header.encode ⟨false, bs.length⟩ ++ bs) := by
  match bs with
  | [] => exact .inr ⟨by simp, rfl⟩
  | [b] =>
    by_cases hb : b.toNat < 0x80
    · exact .inl ⟨b, hb, rfl, by simp [string, hb]⟩
    · exact .inr ⟨fun _ => ⟨b, [], rfl, by omega⟩, by simp [string, hb]⟩
  | b :: c :: bs => exact .inr ⟨by simp, rfl⟩

theorem length_le_string (bs : Bytes) : bs.length ≤ (string bs).length := by
  rcases string_cases bs with ⟨b, -, rfl, h⟩ | ⟨-, h⟩
  · rw [h]
  · rw [h, List.length_append]
    omega

theorem length_string_le (bs : Bytes) : (string bs).length ≤ bs.length + 9 := by
  rcases string_cases bs with ⟨b, -, rfl, h⟩ | ⟨-, h⟩
  · rw [h]
    omega
  · have hheader := Header.length_encode_le ⟨false, bs.length⟩
    rw [h, List.length_append]
    omega

/-- Bytes behind a header are read back, unless they are a single byte that has none. -/
theorem readString_encode {bs : Bytes} (h : bs.length < limit64)
    (hc : bs.length = 1 → ∃ c rest, bs = c :: rest ∧ 0x80 ≤ c.toNat) (rest : Bytes) :
    readString (Header.encode ⟨false, bs.length⟩ ++ bs ++ rest) = .ok (bs, rest) := by
  have hr : Header.read (Header.encode ⟨false, bs.length⟩ ++ (bs ++ rest)) =
      .ok (⟨false, bs.length⟩, bs ++ rest) := by
    refine Header.read_encode h (by simp) ?_
    intro _ hone
    obtain ⟨c, cs, rfl, hb⟩ := hc hone
    exact ⟨c, cs ++ rest, rfl, hb⟩
  rw [List.append_assoc, readString_of_read hr rfl, List.take_left, List.drop_left]

/-- A string is read back, and what follows it is left. -/
theorem readString_string {bs : Bytes} (h : bs.length < limit64) (rest : Bytes) :
    readString (string bs ++ rest) = .ok (bs, rest) := by
  rcases string_cases bs with ⟨b, hb, rfl, hs⟩ | ⟨hc, hs⟩
  · have hread : Header.read (b :: rest) = .ok (⟨false, 1⟩, b :: rest) := by
      simp [Header.read, Header.readStart, hb, bind, Except.bind]
    rw [hs]
    exact readString_of_read hread rfl
  · rw [hs]
    exact readString_encode h hc rest

/-! ## Numbers -/

theorem length_number_le {w : Nat} (n : BitVec w) : (number n).length ≤ w / 8 + 9 := by
  have hn := BigEndian.length_minimal_le (w / 8) n.toNat
  have hs := length_string_le (BigEndian.minimal (w / 8) n.toNat)
  rw [number]
  omega

/-- Bits that make up whole bytes. -/
theorem pow_div_eight {w : Nat} (hw : 8 ∣ w) : 256 ^ (w / 8) = 2 ^ w := by
  rw [show 256 = 2 ^ 8 from rfl, ← Nat.pow_mul, Nat.mul_div_cancel' hw]

/-- A number fits in the bytes of its type. -/
theorem toNat_lt_pow {w : Nat} (hw : 8 ∣ w) (n : BitVec w) : n.toNat < 256 ^ (w / 8) := by
  rw [pow_div_eight hw]
  exact n.isLt

/-- A number is read back, and what follows it is left. -/
theorem readNumber_number {w : Nat} (hw : 8 ∣ w) (hl : w / 8 < limit64) (n : BitVec w)
    (rest : Bytes) : readNumber w (number n ++ rest) = .ok (n, rest) := by
  have hlen := BigEndian.length_minimal_le (w / 8) n.toNat
  have hover : ¬ w / 8 < (BigEndian.minimal (w / 8) n.toNat).length := by omega
  have hhead := BigEndian.head?_minimal_ne (w / 8) n.toNat
  have hdecode : BigEndian.decode (BigEndian.minimal (w / 8) n.toNat) = n.toNat :=
    BigEndian.decode_minimal (toNat_lt_pow hw n)
  rw [readNumber, bind_apply, number, readString_string (by omega)]
  simp [hhead, hover, hdecode, bind, Except.bind]

/-! ## Lists -/

/-- The header of a list announces its payload. -/
theorem readListHeader_list {payload : Bytes} (h : payload.length < limit64) (rest : Bytes) :
    readListHeader (list payload ++ rest) = .ok (payload.length, payload ++ rest) := by
  have hr : Header.read (Header.encode ⟨true, payload.length⟩ ++ (payload ++ rest)) =
      .ok (⟨true, payload.length⟩, payload ++ rest) :=
    Header.read_encode h (by simp) (by simp)
  rw [list, List.append_assoc, readListHeader, bind_apply, hr]
  simp [bind, Except.bind]

/-- A sequence of readers succeeds when both do, the second one on what the first one leaves. -/
theorem bind_eq_ok_iff {m : Reader α} {f : α → Reader β} {buffer : Bytes} {r : β × Bytes} :
    (m >>= f) buffer = .ok r ↔ ∃ a rest, m buffer = .ok (a, rest) ∧ f a rest = .ok r := by
  rw [bind_apply, Except.bind_eq_ok_iff, Prod.exists]

/-- A list does not start with a zero byte, which would be a string. -/
theorem exists_of_readListHeader {buffer : Bytes} {r : Nat × Bytes}
    (h : readListHeader buffer = .ok r) : ∃ b bs, buffer = b :: bs ∧ b ≠ 0 := by
  obtain ⟨header, rest, hr, hl⟩ := bind_eq_ok_iff.1 h
  cases buffer with
  | nil => cases hr
  | cons b bs =>
    refine ⟨b, bs, rfl, ?_⟩
    intro hb
    have hread : Header.read (b :: bs) = .ok (⟨false, 1⟩, b :: bs) := by
      simp [Header.read, Header.readStart, hb, bind, Except.bind]
    rw [hread] at hr
    cases hr
    cases hl

end Rlp

/-! ## Leaves -/

namespace StorageLeaf

theorem value_ofWord (slot : UInt256) (word : Word) :
    (ofWord slot word).value = Rlp.number word.toUInt256 := by
  simp only [ofWord]

/-- A leaf is read back, and what follows it is left. -/
theorem read_encode {leaf : StorageLeaf}
    (h : (Rlp.string leaf.path ++ Rlp.string leaf.value).length < limit64) (rest : Bytes) :
    read (leaf.encode ++ rest) = .ok (leaf, rest) := by
  have hpath := Rlp.length_le_string leaf.path
  have hvalue := Rlp.length_le_string leaf.value
  rw [List.length_append] at h
  have hlen : (Rlp.string leaf.path ++ (Rlp.string leaf.value ++ rest)).length - rest.length =
      (Rlp.string leaf.path ++ Rlp.string leaf.value).length := by
    simp only [List.length_append]
    omega
  rw [read, encode, Rlp.readListHeader_list (by rw [List.length_append]; exact h),
    List.append_assoc]
  simp only [bind, Except.bind]
  rw [Rlp.readString_string (by omega)]
  simp only
  rw [Rlp.readString_string (by omega)]
  simp only [hlen, if_true]

end StorageLeaf

end StorageGateway
