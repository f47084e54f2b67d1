import StorageGateway.Abi.Codec
import StorageGateway.Proofs.BigEndian
import StorageGateway.Proofs.Run
import StorageGateway.StateProof

/-!
# Reading back call data

A reader walks along the head section of a sequence and finds the tails by their offsets. While it
does, one fact stays true of the parts that are still ahead: their tails lie one after the other at
the offset that the next head would hold. With it, each codec reads back what it wrote, and a
sequence that stands alone decodes to the values that it encodes.

In the other direction, a codec never yields a byte string or a list that is longer than the
lengths it reads.

## Main definitions

* `Abi.Placed` — the parts that are still ahead of a reader.
* `Codec.Lawful`, `Fields.Lawful` — reading back what was written.
* `Codec.Yields`, `Fields.Yields` — what holds of all values that are read.

## Main statements

* `Fields.Lawful.decode_encode` — the encoding of values in range decodes to them.
* `Fields.decode_eq_ok_iff`, `Fields.Yields.of_decode` — what is known of decoded values.
* `NodeLists.lawful_codec`, `JoinedNodes.lawful_codec` — trie nodes are read back.
-/

namespace StorageGateway

namespace Abi

/-! ## Words -/

@[simp] theorem readWord_append (w : Word) (rest : Bytes) :
    readWord (w.toList ++ rest) = .ok (w, rest) := by
  simp [readWord]

theorem eq_append_of_readWord {w : Word} {input rest : Bytes}
    (h : readWord input = .ok (w, rest)) : input = w.toList ++ rest := by
  rw [readWord] at h
  cases ht : FixedBytes.take? 32 input with
  | none =>
    rw [ht] at h
    cases h
  | some r =>
    rw [ht] at h
    cases h
    exact FixedBytes.eq_append_of_take? ht

@[simp] theorem length_sizeWord (n : Nat) : (sizeWord n).length = 32 := by
  simp [sizeWord]

/-- The word of a number of 64 bits is read back as the number. -/
theorem readSize_sizeWord {n : Nat} (h : n < limit64) (rest : Bytes) :
    readSize (sizeWord n ++ rest) = .ok (n, rest) := by
  have hn : n < 256 ^ 32 := by
    unfold limit64 at h
    omega
  have hw : (FixedBytes.ofNat 32 n).toNat = n := by
    rw [FixedBytes.toNat_ofNat, Nat.mod_eq_of_lt hn]
  have hr : readWord (sizeWord n ++ rest) = .ok (FixedBytes.ofNat 32 n, rest) :=
    readWord_append (FixedBytes.ofNat 32 n) rest
  simp [readSize, hr, hw, h, bind, Except.bind]

/-- An input from which a number is read starts with the word of the number. -/
theorem readSize_eq_ok_iff {input rest : Bytes} {n : Nat} :
    readSize input = .ok (n, rest) ↔ n < limit64 ∧ input = sizeWord n ++ rest := by
  constructor
  · intro h
    obtain ⟨⟨w, rest'⟩, hw, h⟩ := Except.bind_eq_ok_iff.1 h
    by_cases hl : w.toNat < limit64
    · simp only [hl, if_true, Except.ok.injEq, Prod.mk.injEq] at h
      obtain ⟨rfl, rfl⟩ := h
      refine ⟨hl, ?_⟩
      have hword := BigEndian.encode_decode w.toList
      rw [w.length_toList] at hword
      rw [sizeWord, FixedBytes.toNat, hword]
      exact eq_append_of_readWord hw
    · simp only [hl, if_false] at h
      cases h
  · intro h
    rw [h.2, readSize_sizeWord h.1]

/-! ## Parts -/

/-- The tail section of parts. -/
abbrev tails (parts : List Part) : Bytes := parts.flatMap Part.tail

@[simp] theorem headsSize_cons (p : Part) (parts : List Part) :
    headsSize (p :: parts) = p.headSize + headsSize parts := rfl

theorem length_assemble (parts : List Part) :
    (assemble parts).length = headsSize parts + (tails parts).length := by
  rw [assemble, List.length_append, length_heads]

/-- The parts whose tails start at an offset from the start of a byte string. -/
structure Placed (base : Bytes) (offset : Nat) (parts : List Part) : Prop where
  /-- The head section comes before the tails. -/
  heads_le : headsSize parts ≤ offset
  /-- The tails are in the string. -/
  offset_le : offset ≤ base.length
  /-- The tails end below the limit for offsets. -/
  lt_addressable : offset + (tails parts).length < Codec.addressable
  /-- The tails follow each other. -/
  drop_eq : ∃ after, base.drop offset = tails parts ++ after

/-- The parts of a sequence, in front of other bytes, before any of them is read. -/
theorem placed_assemble {parts : List Part} (h : (assemble parts).length < Codec.addressable)
    (rest : Bytes) : Placed (assemble parts ++ rest) (headsSize parts) parts := by
  rw [length_assemble] at h
  refine ⟨Nat.le_refl _, ?_, h, rest, ?_⟩
  · rw [List.length_append, length_assemble]
    omega
  · rw [assemble, List.append_assoc, List.drop_left' (length_heads _ _)]

/-- After the first part, the tails of the others start where its own tail ends. -/
theorem Placed.rest {base : Bytes} {offset : Nat} {p : Part} {parts : List Part}
    (h : Placed base offset (p :: parts)) : Placed base (offset + p.tail.length) parts := by
  obtain ⟨heads_le, offset_le, lt_addressable, after, drop_eq⟩ := h
  rw [headsSize_cons] at heads_le
  simp only [tails, List.flatMap_cons, List.length_append] at lt_addressable drop_eq
  refine ⟨by omega, ?_, by simp only [tails]; omega, after, ?_⟩
  · have hlen := congrArg List.length drop_eq
    simp only [List.length_drop, List.length_append] at hlen
    omega
  · rw [← List.drop_drop, drop_eq, List.append_assoc, List.drop_left]

/-! ## Ranges -/

variable {α β : Type}

@[simp] theorem Codec.valid_word (w : Word) : Codec.word.valid w = true := rfl

@[simp] theorem Codec.valid_bytes (bs : Bytes) : Codec.bytes.valid bs = true := rfl

@[simp] theorem Codec.valid_array (c : Codec α) (as : List α) :
    c.array.valid as = as.all c.valid := rfl

@[simp] theorem Codec.valid_tuple (f : Fields α) (a : α) :
    (Codec.tuple f).valid a = f.valid a := rfl

@[simp] theorem Fields.valid_single (c : Codec α) (a : α) :
    (Fields.single c).valid a = c.valid a := rfl

@[simp] theorem Fields.valid_cons (c : Codec α) (f : Fields β) (ab : α × β) :
    (Fields.cons c f).valid ab = (c.valid ab.1 && f.valid ab.2) := rfl

/-! ## Decoding -/

/-- Values are decoded from their encoding if they are in range and the reader finds them. -/
theorem Fields.decode_eq_ok_iff {f : Fields α} {name : String} {input : Bytes} {a : α} :
    f.decode name input = .ok a ↔
      f.encode a = input ∧ f.valid a = true ∧ ∃ rest, f.read input input = .ok (a, rest) := by
  rw [decode, Except.bind_eq_ok_iff]
  constructor
  · intro h
    obtain ⟨⟨b, rest⟩, hread, h⟩ := h
    by_cases hc : f.encode b = input
    · by_cases hv : f.valid b
      · simp only [hc, hv, ne_eq, not_true_eq_false, if_false, if_true] at h
        cases h
        exact ⟨hc, hv, rest, hread⟩
      · simp only [hc, hv, ne_eq, not_true_eq_false, if_false] at h
        cases h
    · simp only [hc, ne_eq, not_false_eq_true, if_true] at h
      cases h
  · intro h
    obtain ⟨hc, hv, rest, hread⟩ := h
    refine ⟨(a, rest), hread, ?_⟩
    simp only [hc, hv, ne_eq, not_true_eq_false, if_false, if_true]
    rfl

/-! ## Reading back -/

/-- A codec that reads back what it wrote. -/
structure Codec.Lawful (c : Codec α) : Prop where
  /-- The value is read, and of a value of fixed size no more is read. -/
  read_encode : ∀ a rest, (c.encode a).length < addressable →
    ∃ rest', c.read (c.encode a ++ rest) = .ok (a, rest') ∧ (c.isDynamic = false → rest' = rest)
  /-- A value takes at least the bytes that a reader sets aside for it. -/
  footprint_le : ∀ a, c.footprint ≤ (c.part a).headSize + (c.part a).tail.length
  /-- Some bytes are set aside. -/
  footprint_pos : 0 < c.footprint

/-- A sequence that reads back what it wrote. -/
structure Fields.Lawful (f : Fields α) : Prop where
  /-- The values are read off their heads. -/
  read_heads : ∀ {a base offset}, Placed base offset (f.parts a) → ∀ more,
    f.read base (heads offset (f.parts a) ++ more) = .ok (a, more)
  /-- Values of fixed size have no tails. -/
  tails_eq_nil : f.isDynamic = false → ∀ a, tails (f.parts a) = []
  /-- The values take at least the bytes that a reader sets aside for them. -/
  footprint_le : ∀ a, f.footprint ≤ headsSize (f.parts a) + (tails (f.parts a)).length
  /-- Some bytes are set aside. -/
  footprint_pos : 0 < f.footprint

namespace Codec.Lawful

variable {c : Codec α} {base : Bytes} {offset : Nat}

/-- A value is read off its head. -/
theorem readHead_head (hc : c.Lawful) {a : α} {parts : List Part}
    (h : Placed base offset (c.part a :: parts)) (more : Bytes) :
    c.readHead base ((c.part a).head offset ++ more) = .ok (a, more) := by
  obtain ⟨heads_le, offset_le, lt_addressable, after, drop_eq⟩ := h
  simp only [headsSize_cons, tails, List.flatMap_cons, List.length_append] at *
  cases hd : c.isDynamic with
  | false =>
    have hlen : (c.encode a).length < addressable := by
      simp only [part, Part.headSize, hd, Bool.false_eq_true, if_false] at heads_le
      omega
    obtain ⟨rest', hr, hrest⟩ := hc.read_encode a more hlen
    rw [hrest hd] at hr
    simpa [readHead, part, Part.head, hd] using hr
  | true =>
    have htail : (c.part a).tail = c.encode a := by simp [part, Part.tail, hd]
    rw [htail] at lt_addressable drop_eq
    obtain ⟨rest', hr, -⟩ :=
      hc.read_encode a (parts.flatMap Part.tail ++ after) (by omega)
    have hoffset : offset < limit64 := by
      have : addressable < limit64 := by decide
      omega
    have hs := readSize_sizeWord hoffset more
    have hb : ¬ base.length < offset := by omega
    rw [List.append_assoc] at drop_eq
    simp [readHead, part, Part.head, hd, hs, hb, drop_eq, hr, bind, Except.bind, pure,
      Except.pure]

/-- The elements of an array are read off their heads. -/
theorem readMany_heads (hc : c.Lawful) {as : List α}
    (h : Placed base offset (as.map c.part)) (more : Bytes) :
    c.readMany base as.length (heads offset (as.map c.part) ++ more) = .ok (as, more) := by
  induction as generalizing offset with
  | nil => rfl
  | cons a as ih =>
    have hfirst := hc.readHead_head h
      (heads (offset + (c.part a).tail.length) (as.map c.part) ++ more)
    have hrest := ih h.rest
    rw [List.length_cons, readMany, List.map_cons, heads, List.append_assoc, hfirst]
    simp only [bind, Except.bind, hrest]
    rfl

/-- Arrays take at least the bytes that a reader sets aside for their elements. -/
theorem length_mul_footprint_le (hc : c.Lawful) (as : List α) :
    as.length * c.footprint ≤ (assemble (as.map c.part)).length := by
  rw [length_assemble]
  induction as with
  | nil => simp
  | cons a as ih =>
    have ha := hc.footprint_le a
    simp only [List.map_cons, headsSize_cons, tails, List.flatMap_cons, List.length_append,
      List.length_cons, Nat.succ_mul] at *
    omega

theorem word : Codec.word.Lawful where
  read_encode w rest _ := ⟨rest, readWord_append w rest, fun _ => rfl⟩
  footprint_le w := by simp [Codec.word, part, Part.headSize]
  footprint_pos := by decide

theorem address : Codec.address.Lawful := ⟨word.read_encode, word.footprint_le, word.footprint_pos⟩

theorem uint64 : Codec.uint64.Lawful := ⟨word.read_encode, word.footprint_le, word.footprint_pos⟩

theorem bytes : Codec.bytes.Lawful where
  read_encode bs rest h := by
    have hn : bs.length < limit64 := by
      have : addressable < limit64 := by decide
      simp only [Codec.bytes, List.length_append] at h
      omega
    simp only [Codec.bytes, List.append_assoc]
    rw [readSize_sizeWord hn]
    generalize List.replicate ((32 - bs.length % 32) % 32) 0 ++ rest = more
    have hover : ¬ (bs ++ more).length < bs.length := by
      rw [List.length_append]
      omega
    simp only [bind, Except.bind, hover, if_false, List.take_left, List.drop_left]
    exact ⟨more, rfl, nofun⟩
  footprint_le bs := by
    have hs : (Codec.bytes.part bs).headSize = 32 := rfl
    have hf : Codec.bytes.footprint = 16 := rfl
    omega
  footprint_pos := by decide

theorem array (hc : c.Lawful) : c.array.Lawful where
  read_encode as rest h := by
    simp only [Codec.array, List.length_append, length_sizeWord] at h
    have hfit := hc.length_mul_footprint_le as
    have hpos := Nat.le_mul_of_pos_right as.length hc.footprint_pos
    have hn : as.length < limit64 := by
      have : addressable < limit64 := by decide
      omega
    have hover : ¬ addressable ≤ as.length * c.footprint := by omega
    have hlt : (assemble (as.map c.part)).length < addressable := by omega
    have hread := hc.readMany_heads (placed_assemble hlt rest) (tails (as.map c.part) ++ rest)
    rw [← List.append_assoc] at hread
    simp only [Codec.array, List.append_assoc]
    rw [readSize_sizeWord hn]
    simp only [bind, Except.bind, hover, if_false]
    exact ⟨_, hread, nofun⟩
  footprint_le as := by
    have hs : (c.array.part as).headSize = 32 := rfl
    have hf : c.array.footprint = 24 := rfl
    omega
  footprint_pos := by simp [Codec.array]

theorem tuple {f : Fields α} (hf : f.Lawful) : (Codec.tuple f).Lawful where
  read_encode a rest h := by
    have hread := hf.read_heads (placed_assemble h rest) (tails (f.parts a) ++ rest)
    rw [← List.append_assoc] at hread
    refine ⟨_, hread, ?_⟩
    intro hd
    rw [hf.tails_eq_nil hd, List.nil_append]
  footprint_le a := by
    have ha := hf.footprint_le a
    rw [← length_assemble] at ha
    cases hd : f.isDynamic with
    | false => simpa [Codec.tuple, part, Part.headSize, Part.tail, hd] using ha
    | true =>
      simp only [Codec.tuple, part, Part.headSize, Part.tail, hd, if_true]
      omega
  footprint_pos := hf.footprint_pos

end Codec.Lawful

namespace Fields.Lawful

theorem single {c : Codec α} (hc : c.Lawful) : (Fields.single c).Lawful where
  read_heads h more := by
    simp only [Fields.single, heads, List.append_nil]
    exact hc.readHead_head h more
  tails_eq_nil hd a := by
    have hd : c.isDynamic = false := hd
    simp [Fields.single, Codec.part, Part.tail, hd]
  footprint_le a := by simpa [Fields.single, headsSize] using hc.footprint_le a
  footprint_pos := hc.footprint_pos

theorem cons {c : Codec α} {f : Fields β} (hc : c.Lawful) (hf : f.Lawful) :
    (Fields.cons c f).Lawful where
  read_heads {ab base offset} h more := by
    have hfirst := hc.readHead_head h
      (heads (offset + (c.part ab.1).tail.length) (f.parts ab.2) ++ more)
    have hrest := hf.read_heads h.rest more
    simp only [Fields.cons, heads, List.append_assoc]
    rw [hfirst]
    simp only [bind, Except.bind, hrest]
    rfl
  tails_eq_nil hd ab := by
    simp only [Fields.cons, Bool.or_eq_false_iff] at hd
    have hrest := hf.tails_eq_nil hd.2 ab.2
    have hfirst : (c.part ab.1).tail = [] := by simp [Codec.part, Part.tail, hd.1]
    simp only [Fields.cons, tails, List.flatMap_cons, hfirst, List.nil_append]
    exact hrest
  footprint_le ab := by
    have hfirst := hc.footprint_le ab.1
    have hrest := hf.footprint_le ab.2
    simp only [Fields.cons, headsSize_cons, tails, List.flatMap_cons, List.length_append] at *
    omega
  footprint_pos := Nat.add_pos_left hc.footprint_pos _

/-- The encoding of values that are in the range of their types decodes to them, as long as it
stays below the limit for offsets. -/
theorem decode_encode {f : Fields α} (hf : f.Lawful) (name : String) {a : α}
    (hl : (f.encode a).length < Codec.addressable) (hv : f.valid a) :
    f.decode name (f.encode a) = .ok a := by
  have hread := hf.read_heads (placed_assemble hl []) (tails (f.parts a))
  rw [List.append_nil] at hread
  exact decode_eq_ok_iff.2 ⟨rfl, hv, tails (f.parts a), hread⟩

end Fields.Lawful

/-! ## What is read -/

/-- Something that holds of all values a codec reads. -/
structure Codec.Yields (c : Codec α) (p : α → Prop) : Prop where
  of_read : ∀ {input a rest}, c.read input = .ok (a, rest) → p a

/-- Something that holds of all values that are read as a sequence. -/
structure Fields.Yields (f : Fields α) (p : α → Prop) : Prop where
  of_read : ∀ {base input a rest}, f.read base input = .ok (a, rest) → p a

namespace Codec.Yields

/-- A byte string is not longer than a length can tell. -/
theorem bytes : Codec.bytes.Yields fun bs => bs.length < limit64 := by
  refine ⟨?_⟩
  intro input bs rest h
  obtain ⟨⟨n, rest'⟩, hn, h⟩ := Except.bind_eq_ok_iff.1 h
  have hlt := (readSize_eq_ok_iff.1 hn).1
  by_cases hb : rest'.length < n
  · simp only [hb, if_true] at h
    cases h
  · simp only [hb, if_false] at h
    cases h
    rw [List.length_take]
    omega

theorem any (c : Codec α) : c.Yields fun _ => True := ⟨fun _ => trivial⟩

theorem length_of_readMany {c : Codec α} {base : Bytes} {count : Nat} {input rest : Bytes}
    {as : List α} (h : c.readMany base count input = .ok (as, rest)) : as.length = count := by
  induction count generalizing input as rest with
  | zero =>
    cases h
    rfl
  | succ count ih =>
    obtain ⟨⟨a, input'⟩, -, h⟩ := Except.bind_eq_ok_iff.1 h
    obtain ⟨⟨as', rest'⟩, hm, h⟩ := Except.bind_eq_ok_iff.1 h
    cases h
    rw [List.length_cons, ih hm]

/-- An array is not longer than a count can tell. -/
theorem array (c : Codec α) : c.array.Yields fun as => as.length < limit64 := by
  refine ⟨?_⟩
  intro input as rest h
  obtain ⟨⟨n, rest'⟩, hn, h⟩ := Except.bind_eq_ok_iff.1 h
  have hlt := (readSize_eq_ok_iff.1 hn).1
  by_cases hb : addressable ≤ n * c.footprint
  · simp only [hb, if_true] at h
    cases h
  · simp only [hb, if_false] at h
    rw [length_of_readMany h]
    exact hlt

theorem tuple {f : Fields α} {p : α → Prop} (hf : f.Yields p) : (Codec.tuple f).Yields p :=
  ⟨hf.of_read⟩

theorem readHead {c : Codec α} {p : α → Prop} (hc : c.Yields p) {base input rest : Bytes} {a : α}
    (h : c.readHead base input = .ok (a, rest)) : p a := by
  rw [Codec.readHead] at h
  by_cases hd : c.isDynamic
  · rw [if_pos hd] at h
    obtain ⟨⟨offset, rest'⟩, -, h⟩ := Except.bind_eq_ok_iff.1 h
    by_cases hb : base.length < offset
    · simp only [hb, if_true] at h
      cases h
    · simp only [hb, if_false] at h
      obtain ⟨⟨b, more⟩, hr, h⟩ := Except.bind_eq_ok_iff.1 h
      cases h
      exact hc.of_read hr
  · rw [if_neg hd] at h
    exact hc.of_read h

theorem readMany {c : Codec α} {p : α → Prop} (hc : c.Yields p) {base : Bytes} {count : Nat}
    {input rest : Bytes} {as : List α} (h : c.readMany base count input = .ok (as, rest)) :
    ∀ a ∈ as, p a := by
  induction count generalizing input as rest with
  | zero =>
    cases h
    exact nofun
  | succ count ih =>
    obtain ⟨⟨a, input'⟩, ha, h⟩ := Except.bind_eq_ok_iff.1 h
    obtain ⟨⟨as', rest'⟩, hm, h⟩ := Except.bind_eq_ok_iff.1 h
    cases h
    exact List.forall_mem_cons.2 ⟨hc.readHead ha, ih hm⟩

/-- What holds of all elements holds of each element of an array. -/
theorem elements {c : Codec α} {p : α → Prop} (hc : c.Yields p) :
    c.array.Yields fun as => ∀ a ∈ as, p a := by
  refine ⟨?_⟩
  intro input as rest h
  obtain ⟨⟨n, rest'⟩, -, h⟩ := Except.bind_eq_ok_iff.1 h
  by_cases hb : addressable ≤ n * c.footprint
  · simp only [hb, if_true] at h
    cases h
  · simp only [hb, if_false] at h
    exact hc.readMany h

end Codec.Yields

namespace Fields.Yields

theorem single {c : Codec α} {p : α → Prop} (hc : c.Yields p) : (Fields.single c).Yields p :=
  ⟨hc.readHead⟩

theorem cons {c : Codec α} {f : Fields β} {p : α → Prop} {q : β → Prop} (hc : c.Yields p)
    (hf : f.Yields q) : (Fields.cons c f).Yields fun ab => p ab.1 ∧ q ab.2 := by
  refine ⟨?_⟩
  intro base input ab rest h
  obtain ⟨⟨a, input'⟩, ha, h⟩ := Except.bind_eq_ok_iff.1 h
  obtain ⟨⟨b, rest'⟩, hb, h⟩ := Except.bind_eq_ok_iff.1 h
  cases h
  exact ⟨hc.readHead ha, hf.of_read hb⟩

/-- Decoded values were read. -/
theorem of_decode {f : Fields α} {p : α → Prop} (hf : f.Yields p) {name : String} {input : Bytes}
    {a : α} (h : f.decode name input = .ok a) : p a := by
  obtain ⟨-, -, rest, hread⟩ := decode_eq_ok_iff.1 h
  exact hf.of_read hread

end Fields.Yields

end Abi

/-! ## Nodes -/

theorem NodeLists.lawful_codec : NodeLists.codec.Lawful :=
  .tuple (.cons (.array .bytes) (.single (.array (.array .bytes))))

theorem JoinedNodes.lawful_codec : JoinedNodes.codec.Lawful :=
  .tuple (.cons .bytes (.single (.array .bytes)))

end StorageGateway
