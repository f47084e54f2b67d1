import StorageGateway.Proofs.Rlp

/-!
# RLP items have one encoding

Every reader accepts only what the encoder beside it writes: whatever a reader takes off the front
of a byte string is the encoding of the result, in the only form there is. All the forms that could
be a second encoding (a header on a low byte, a length or a number with leading zeros, a short
length in long form) are refused in one place, the reader of headers, and the other readers inherit
that.

## Main definitions

* `Rlp.Header.Leads` — how a header stands in front of its payload.
* `Rlp.IsItem` — one whole item.

## Main statements

* `Rlp.Header.read_eq_ok_iff` — which headers are read.
* `Rlp.readString_eq_ok_iff`, `Rlp.readFixed_eq_ok_iff`, `Rlp.readNumber_eq_ok_iff`,
  `Rlp.readList_eq_ok_iff`, `Rlp.readStrings_eq_ok_iff` — items, each with its one encoding.
* `Rlp.length_string`, `Rlp.length_number`, `Rlp.Header.length_encode` — lengths that are computed
  without encoding.
-/

namespace StorageGateway.Rlp

/-! ## Headers -/

namespace Header

/-- How a header stands at the front of a byte string, with the rest behind it: a low byte is an
item without a header of its own, and any other item has a written one. -/
inductive Leads : Header → (buffer rest : Bytes) → Prop where
  /-- A byte below `0x80`. -/
  | bare (b : UInt8) (rest : Bytes) (hb : b.toNat < 0x80) : Leads ⟨false, 1⟩ (b :: rest) (b :: rest)
  /-- A written header, which does not announce a low byte alone. -/
  | written (h : Header) (rest : Bytes) (hl : h.payloadLength < limit64)
      (hc : h.isList = false → h.payloadLength = 1 → ∃ c t, rest = c :: t ∧ 0x80 ≤ c.toNat) :
      Leads h (h.encode ++ rest) rest

/-- A length below 56 is part of the first byte. -/
theorem encode_short {isList : Bool} {n : Nat} {b : UInt8} (hn : n < 56)
    (hb : b.toNat = base isList + n) : encode ⟨isList, n⟩ = [b] := by
  have hbyte : UInt8.ofNat (base isList + n) = b := by rw [← hb, UInt8.ofNat_toNat]
  rw [encode, if_pos hn, hbyte]

/-- The first byte of a long item tells how many bytes the length takes. -/
theorem encode_long {isList : Bool} {n : Nat} {b : UInt8} (hn : 56 ≤ n)
    (hb : b.toNat = base isList + 55 + (BigEndian.minimal 8 n).length) :
    encode ⟨isList, n⟩ = b :: BigEndian.minimal 8 n := by
  have hbyte : UInt8.ofNat (base isList + 55 + (BigEndian.minimal 8 n).length) = b := by
    rw [← hb, UInt8.ofNat_toNat]
  have hshort : ¬ n < 56 := by omega
  simp only [encode, hshort, hbyte, if_false]

/-- A length is read in its fewest bytes only. -/
theorem of_readLength {width n : Nat} {buffer rest : Bytes} (hw : width ≤ 8)
    (h : readLength width buffer = .ok (n, rest)) :
    56 ≤ n ∧ n < limit64 ∧ (BigEndian.minimal 8 n).length = width ∧
      buffer = BigEndian.minimal 8 n ++ rest := by
  rw [readLength] at h
  by_cases hlen : buffer.length < width
  · rw [if_pos hlen] at h
    cases h
  by_cases hzero : buffer.head? = some 0
  · rw [if_neg hlen, if_pos hzero] at h
    cases h
  by_cases hshort : BigEndian.decode (buffer.take width) < 56
  · simp only [hlen, hzero, hshort, if_false, if_true] at h
    cases h
  simp only [hlen, hzero, hshort, if_false] at h
  cases h
  have htake : (buffer.take width).length = width := by
    rw [List.length_take]
    omega
  have hhead : (buffer.take width).head? ≠ some 0 := by
    rw [List.head?_take]
    split
    · simp
    · exact hzero
  have hdigits := BigEndian.minimal_decode (Nat.le_trans (Nat.le_of_eq htake) hw) hhead
  have hlimit : BigEndian.decode (buffer.take width) < limit64 := by
    have hlt := BigEndian.decode_lt (buffer.take width)
    rw [htake] at hlt
    exact Nat.lt_of_lt_of_le hlt (Nat.pow_le_pow_right (by decide) hw)
  exact ⟨by omega, hlimit, by rw [hdigits, htake], by rw [hdigits, List.take_append_drop]⟩

/-- The header of a long item, once its first byte is known. -/
theorem leads_of_readLength {isList : Bool} {b : UInt8} {width : Nat} {h : Header}
    {buffer rest : Bytes} (hw : width ≤ 8) (hb : b.toNat = base isList + 55 + width)
    (hr : (readLength width buffer).map (fun (n, rest) => (⟨isList, n⟩, rest)) = .ok (h, rest)) :
    Leads h (b :: buffer) rest := by
  cases hl : readLength width buffer with
  | error e =>
    rw [hl] at hr
    cases hr
  | ok r =>
    rw [hl] at hr
    cases hr
    obtain ⟨h56, hlimit, hwidth, hbuffer⟩ := of_readLength hw hl
    have hc : ∀ {p : Prop}, r.1 = 1 → p := by
      intro p hone
      omega
    have hwritten := Leads.written ⟨isList, r.1⟩ r.2 hlimit fun _ => hc
    rwa [encode_long h56 (by rw [hb, hwidth]), List.cons_append, ← hbuffer] at hwritten

/-- Whatever header is read stands there in its only form. -/
theorem leads_of_readStart {h : Header} {buffer rest : Bytes}
    (hr : readStart buffer = .ok (h, rest)) : Leads h buffer rest := by
  cases buffer with
  | nil => cases hr
  | cons b bs =>
    -- The ranges of the first byte, in the order in which the reader tells them apart.
    have hbyte := b.toNat_lt
    by_cases hlow : b.toNat < 0x80
    · simp only [readStart, hlow, if_true] at hr
      cases hr
      exact .bare b bs hlow
    by_cases hone : b = 0x81
    · subst hone
      cases bs with
      | nil => cases hr
      | cons c cs =>
        by_cases hc : c.toNat < 0x80
        · simp [readStart, hc] at hr
        · simp only [readStart, hlow, hc, if_false, if_true] at hr
          cases hr
          exact .written ⟨false, 1⟩ (c :: cs) (by decide) fun _ _ => ⟨c, cs, rfl, by omega⟩
    have hne : b.toNat ≠ 0x81 := fun h => hone (UInt8.toNat_inj.1 h)
    by_cases hshort : b.toNat < 0xb8
    · simp only [readStart, hlow, hone, hshort, if_false, if_true] at hr
      cases hr
      have hwritten := Leads.written ⟨false, b.toNat - 0x80⟩ rest (by simp only [limit64]; omega)
        fun _ (h : b.toNat - 0x80 = 1) => by omega
      rwa [encode_short (b := b) (by omega) (by simp [base]; omega)] at hwritten
    by_cases hlong : b.toNat < 0xc0
    · simp only [readStart, hlow, hone, hshort, hlong, if_false, if_true] at hr
      exact leads_of_readLength (by omega) (by simp [base]; omega) hr
    by_cases hlist : b.toNat < 0xf8
    · simp only [readStart, hlow, hone, hshort, hlong, hlist, if_false, if_true] at hr
      cases hr
      have hwritten := Leads.written ⟨true, b.toNat - 0xc0⟩ rest (by simp only [limit64]; omega)
        fun hlist => by cases hlist
      rwa [encode_short (b := b) (by omega) (by simp [base]; omega)] at hwritten
    · simp only [readStart, hlow, hone, hshort, hlong, hlist, if_false] at hr
      exact leads_of_readLength (by omega) (by simp [base]; omega) hr

/-- A header is read where it stands in its only form and its payload is there in full. -/
theorem read_eq_ok_iff {h : Header} {buffer rest : Bytes} :
    read buffer = .ok (h, rest) ↔ Leads h buffer rest ∧ h.payloadLength ≤ rest.length := by
  constructor
  · intro hr
    obtain ⟨r, hs, hr⟩ := Except.bind_eq_ok_iff.1 hr
    by_cases hp : r.2.length < r.1.payloadLength
    · simp only [hp, if_true] at hr
      cases hr
    · simp only [hp, if_false] at hr
      cases hr
      exact ⟨leads_of_readStart hs, by omega⟩
  · intro hr
    obtain ⟨hleads, hp⟩ := hr
    cases hleads with
    | bare b rest hb => simp [read, readStart, hb, bind, Except.bind]
    | written _ _ hl hc => exact read_encode hl hp hc

/-- What follows the rest does not matter. -/
theorem Leads.append {h : Header} {buffer rest : Bytes} (hleads : Leads h buffer rest)
    (more : Bytes) : Leads h (buffer ++ more) (rest ++ more) := by
  cases hleads with
  | bare b rest hb => exact .bare b (rest ++ more) hb
  | written _ _ hl hc =>
    rw [List.append_assoc]
    refine .written h (rest ++ more) hl ?_
    intro hlist hone
    obtain ⟨c, t, rfl, hhigh⟩ := hc hlist hone
    exact ⟨c, t ++ more, rfl, hhigh⟩

theorem Leads.length_le {h : Header} {buffer rest : Bytes} (hleads : Leads h buffer rest) :
    rest.length ≤ buffer.length := by
  cases hleads with
  | bare => exact Nat.le_refl _
  | written => simp

end Header

/-! ## Strings -/

/-- A string that starts with a high byte, or is not one byte long, has a header. -/
theorem string_of_written {bs : Bytes} (hc : bs.length = 1 → ∃ c t, bs = c :: t ∧ 0x80 ≤ c.toNat) :
    string bs = Header.encode ⟨false, bs.length⟩ ++ bs := by
  rcases string_cases bs with ⟨b, hb, rfl, -⟩ | ⟨-, hs⟩
  · obtain ⟨c, t, hct, hlow⟩ := hc rfl
    cases hct
    omega
  · exact hs

theorem string_ne_nil (bs : Bytes) : string bs ≠ [] := by
  rcases string_cases bs with ⟨b, -, -, h⟩ | ⟨-, h⟩
  · simp [h]
  · rw [h, Header.encode]
    split <;> simp

/-- A string is read where its encoding stands. -/
theorem readString_eq_ok_iff {buffer bs rest : Bytes} :
    readString buffer = .ok (bs, rest) ↔ bs.length < limit64 ∧ buffer = string bs ++ rest := by
  constructor
  · intro hr
    obtain ⟨h, r, hread, hr⟩ := bind_eq_ok_iff.1 hr
    obtain ⟨hleads, hp⟩ := Header.read_eq_ok_iff.1 hread
    cases hl : h.isList with
    | true =>
      rw [hl] at hr
      cases hr
    | false =>
      rw [hl] at hr
      cases hr
      cases hleads with
      | bare b t hb =>
        simp [string, hb, limit64]
      | written _ _ hlimit hc =>
        have hlen : (r.take h.payloadLength).length = h.payloadLength := by
          rw [List.length_take]
          omega
        have hfirst : (r.take h.payloadLength).length = 1 →
            ∃ c t, r.take h.payloadLength = c :: t ∧ 0x80 ≤ c.toNat := by
          intro hone
          rw [hlen] at hone
          obtain ⟨c, t, rfl, hhigh⟩ := hc hl hone
          exact ⟨c, [], by simp [hone], hhigh⟩
        have hheader : Header.mk false h.payloadLength = h := by rw [← hl]
        rw [string_of_written hfirst, hlen, hheader, List.append_assoc, List.take_append_drop]
        exact ⟨hlimit, rfl⟩
  · intro h
    rw [h.2]
    exact readString_string h.1 rest

/-- A string of fixed length is read where its encoding stands. -/
theorem readFixed_eq_ok_iff {n : Nat} (hn : n < limit64) {a : FixedBytes n} {buffer rest : Bytes} :
    readFixed n buffer = .ok (a, rest) ↔ buffer = string a.toList ++ rest := by
  have hlen : a.toList.length < limit64 := by rwa [a.length_toList]
  constructor
  · intro hr
    obtain ⟨bs, r, hs, hr⟩ := bind_eq_ok_iff.1 hr
    cases ha : FixedBytes.ofList? n bs with
    | none =>
      rw [ha] at hr
      cases hr
    | some b =>
      rw [ha] at hr
      cases hr
      rw [FixedBytes.toList_of_ofList? ha]
      exact (readString_eq_ok_iff.1 hs).2
  · intro h
    rw [h, readFixed, bind_apply, readString_string hlen]
    simp [bind, Except.bind]

/-! ## Numbers -/

/-- A number is read where its encoding stands. -/
theorem readNumber_eq_ok_iff {w : Nat} (hw : 8 ∣ w) (hl : w / 8 < limit64) {n : BitVec w}
    {buffer rest : Bytes} : readNumber w buffer = .ok (n, rest) ↔ buffer = number n ++ rest := by
  constructor
  · intro hr
    obtain ⟨bs, r, hs, hr⟩ := bind_eq_ok_iff.1 hr
    by_cases hzero : bs.head? = some 0
    · rw [if_pos hzero] at hr
      cases hr
    by_cases hlong : w / 8 < bs.length
    · rw [if_neg hzero, if_pos hlong] at hr
      cases hr
    rw [if_neg hzero, if_neg hlong] at hr
    cases hr
    have hlen : bs.length ≤ w / 8 := by omega
    have hnat : (BitVec.ofNat w (BigEndian.decode bs)).toNat = BigEndian.decode bs := by
      have hlt := Nat.lt_of_lt_of_le (BigEndian.decode_lt bs)
        (Nat.pow_le_pow_right (by decide) hlen)
      rw [BitVec.toNat_ofNat, Nat.mod_eq_of_lt (pow_div_eight hw ▸ hlt)]
    rw [number, hnat, BigEndian.minimal_decode hlen hzero]
    exact (readString_eq_ok_iff.1 hs).2
  · intro h
    rw [h, readNumber_number hw hl]

/-- A number is encoded alike in all types that it fits in. -/
theorem number_setWidth {w v : Nat} (hw : 8 ∣ w) (hv : w ≤ v) (n : BitVec w) :
    number (n.setWidth v) = number n := by
  have hnat : (n.setWidth v).toNat = n.toNat := BitVec.toNat_setWidth_of_le hv
  have hwidth : v / 8 = (v / 8 - w / 8) + w / 8 := by omega
  rw [number, number, hnat, hwidth, BigEndian.minimal_add _ (toNat_lt_pow hw n)]

/-! ## Lists -/

/-- The header of a list is read where its encoding stands. -/
theorem readListHeader_eq_ok_iff {n : Nat} {buffer rest : Bytes} :
    readListHeader buffer = .ok (n, rest) ↔
      n < limit64 ∧ n ≤ rest.length ∧ buffer = Header.encode ⟨true, n⟩ ++ rest := by
  constructor
  · intro hlist
    obtain ⟨h, r, hread, hr⟩ := bind_eq_ok_iff.1 hlist
    obtain ⟨hleads, hp⟩ := Header.read_eq_ok_iff.1 hread
    cases hleads with
    | bare b t hb => cases hr
    | written _ _ hlimit hc =>
      cases hl : h.isList with
      | false =>
        rw [hl] at hr
        cases hr
      | true =>
        rw [hl] at hr
        cases hr
        have hheader : Header.mk true h.payloadLength = h := by rw [← hl]
        exact ⟨hlimit, hp, by rw [hheader]⟩
  · intro h
    obtain ⟨hlimit, hp, rfl⟩ := h
    have hread := Header.read_eq_ok_iff.2 ⟨.written ⟨true, n⟩ rest hlimit nofun, hp⟩
    rw [readListHeader, bind_apply, hread]
    rfl

/-- What reads a list goes on with its payload. -/
theorem readList_eq_ok_iff {α : Type} {f : Nat → Bytes → Reader α} {buffer : Bytes}
    {r : α × Bytes} :
    (readListHeader >>= fun n => readRaw n >>= f n) buffer = .ok r ↔
      ∃ payload rest, payload.length < limit64 ∧ buffer = list payload ++ rest ∧
        f payload.length payload rest = .ok r := by
  rw [bind_eq_ok_iff]
  constructor
  · intro h
    obtain ⟨n, r', hn, hf⟩ := h
    obtain ⟨hlimit, hle, rfl⟩ := readListHeader_eq_ok_iff.1 hn
    have hlen : (r'.take n).length = n := by
      rw [List.length_take]
      omega
    refine ⟨r'.take n, r'.drop n, by rwa [hlen], ?_, by rwa [hlen]⟩
    rw [list, hlen, List.append_assoc, List.take_append_drop]
  · intro h
    obtain ⟨payload, rest, hlimit, rfl, hf⟩ := h
    have hraw : readRaw payload.length (payload ++ rest) = .ok (payload, rest) := by
      rw [readRaw, List.take_left, List.drop_left]
    exact ⟨payload.length, payload ++ rest, readListHeader_list hlimit rest,
      bind_eq_ok_iff.2 ⟨payload, rest, hraw, hf⟩⟩

/-- Strings are read off a payload that they fill. -/
theorem stringsUpTo_eq_ok_iff {count : Nat} {payload : Bytes} {items : List Bytes} :
    stringsUpTo count payload = .ok items ↔
      items.length ≤ count ∧ (∀ item ∈ items, item.length < limit64) ∧
        payload = items.flatMap string := by
  induction count generalizing payload items with
  | zero =>
    cases payload with
    | nil =>
      simp only [stringsUpTo, Except.ok.injEq, Nat.le_zero_eq, List.length_eq_zero_iff]
      constructor
      · intro h
        subst h
        exact ⟨rfl, nofun, rfl⟩
      · intro h
        exact h.1.symm
    | cons b bs =>
      simp only [stringsUpTo, reduceCtorEq, Nat.le_zero_eq, List.length_eq_zero_iff, false_iff]
      intro h
      obtain ⟨rfl, -, h⟩ := h
      cases h
  | succ count ih =>
    cases payload with
    | nil =>
      rw [stringsUpTo, Except.ok.injEq]
      constructor
      · intro h
        subst h
        exact ⟨Nat.zero_le _, nofun, rfl⟩
      · intro h
        obtain ⟨-, -, h⟩ := h
        cases items with
        | nil => rfl
        | cons item items => exact absurd (List.append_eq_nil_iff.1 h.symm).1 (string_ne_nil item)
    | cons b bs =>
      simp only [stringsUpTo, Except.bind_eq_ok_iff, Prod.exists, readString_eq_ok_iff, ih, pure,
        Except.pure, Except.ok.injEq]
      constructor
      · intro h
        obtain ⟨item, rest, ⟨hitem, hbuffer⟩, items, ⟨hcount, hitems, rfl⟩, rfl⟩ := h
        exact ⟨Nat.succ_le_succ hcount, List.forall_mem_cons.2 ⟨hitem, hitems⟩, hbuffer⟩
      · intro h
        obtain ⟨hcount, hitems, hbuffer⟩ := h
        cases items with
        | nil => cases hbuffer
        | cons item items =>
          obtain ⟨hitem, hitems⟩ := List.forall_mem_cons.1 hitems
          exact ⟨item, items.flatMap string, ⟨hitem, hbuffer⟩, items,
            ⟨Nat.le_of_succ_le_succ hcount, hitems, rfl⟩, rfl⟩

theorem length_le_flatMap_string (items : List Bytes) :
    items.length ≤ (items.flatMap string).length := by
  induction items with
  | nil => simp
  | cons item items ih =>
    have hpos := List.length_pos_iff.2 (string_ne_nil item)
    rw [List.flatMap_cons, List.length_append, List.length_cons]
    omega

theorem length_le_of_mem {items : List Bytes} {item : Bytes} (h : item ∈ items) :
    item.length ≤ (items.flatMap string).length := by
  have hsub := (List.sublist_flatten_of_mem (List.mem_map_of_mem h (f := string))).length_le
  rw [← List.flatMap_def] at hsub
  exact Nat.le_trans (length_le_string item) hsub

/-- A list of strings is read where its encoding stands. -/
theorem readStrings_eq_ok_iff {buffer rest : Bytes} {items : List Bytes} :
    readStrings buffer = .ok (items, rest) ↔
      (items.flatMap string).length < limit64 ∧ buffer = strings items ++ rest := by
  rw [readStrings, readList_eq_ok_iff]
  constructor
  · intro h
    obtain ⟨payload, r, hlimit, rfl, hr⟩ := h
    cases hitems : stringsUpTo payload.length payload with
    | error e =>
      rw [hitems] at hr
      cases hr
    | ok as =>
      rw [hitems] at hr
      cases hr
      obtain ⟨-, -, rfl⟩ := stringsUpTo_eq_ok_iff.1 hitems
      exact ⟨hlimit, rfl⟩
  · intro h
    obtain ⟨hlimit, rfl⟩ := h
    have hshort : ∀ item ∈ items, item.length < limit64 := fun item hi =>
      Nat.lt_of_le_of_lt (length_le_of_mem hi) hlimit
    have hitems := stringsUpTo_eq_ok_iff.2 ⟨length_le_flatMap_string items, hshort, rfl⟩
    refine ⟨items.flatMap string, rest, hlimit, rfl, ?_⟩
    rw [hitems]
    rfl

/-! ## Whole items -/

/-- One item: a header with exactly the payload that it announces behind it. -/
def IsItem (bs : Bytes) : Prop :=
  ∃ h payload, Header.read bs = .ok (h, payload) ∧ payload.length = h.payloadLength

theorem isItem_iff {bs : Bytes} :
    IsItem bs ↔ ∃ h payload, Header.Leads h bs payload ∧ payload.length = h.payloadLength := by
  constructor
  · intro hitem
    obtain ⟨h, payload, hr, hp⟩ := hitem
    exact ⟨h, payload, (Header.read_eq_ok_iff.1 hr).1, hp⟩
  · intro hitem
    obtain ⟨h, payload, hl, hp⟩ := hitem
    exact ⟨h, payload, Header.read_eq_ok_iff.2 ⟨hl, Nat.le_of_eq hp.symm⟩, hp⟩

/-- An encoded string is one item. -/
theorem isItem_string {bs : Bytes} (hl : bs.length < limit64) : IsItem (string bs) := by
  rw [isItem_iff]
  rcases string_cases bs with ⟨b, hb, -, hs⟩ | ⟨hc, hs⟩
  · rw [hs]
    exact ⟨⟨false, 1⟩, [b], .bare b [] hb, rfl⟩
  · rw [hs]
    exact ⟨⟨false, bs.length⟩, bs, .written _ bs hl fun _ hone => hc hone, rfl⟩

/-- An encoded list is one item. -/
theorem isItem_list {payload : Bytes} (hl : payload.length < limit64) : IsItem (list payload) :=
  isItem_iff.2 ⟨⟨true, payload.length⟩, payload, .written _ payload hl nofun, rfl⟩

/-! ## Lengths -/

/-- The length of a header can be told from the length of its payload. -/
theorem Header.length_encode {h : Header} (hl : h.payloadLength < limit64) :
    h.encode.length = headerLength h.payloadLength := by
  rw [encode, headerLength]
  split
  · rfl
  · rw [List.length_cons, BigEndian.length_minimal (by omega) hl, byteCount, Nat.add_comm]

theorem length_string {bs : Bytes} (hl : bs.length < limit64) :
    (string bs).length = stringLength bs := by
  match bs with
  | [] => rfl
  | [b] =>
    by_cases hb : b.toNat < 0x80
    · simp [string, stringLength, hb]
    · rw [string, stringLength, if_neg hb, if_neg hb]
      rfl
  | b :: c :: bs =>
    have hheader := Header.length_encode (h := ⟨false, (b :: c :: bs).length⟩) hl
    simp only [string, stringLength, List.length_append, hheader]

/-- The length of a number in a type of at most 55 bytes. -/
theorem length_number {w : Nat} (hw : 8 ∣ w) (hl : w / 8 < 56) (n : BitVec w) :
    (number n).length = numberLength n.toNat := by
  have hlt := toNat_lt_pow hw n
  have hle := BigEndian.length_minimal_le (w / 8) n.toNat
  have hdecode := BigEndian.decode_minimal hlt
  rw [number, numberLength, byteCount]
  by_cases hzero : n.toNat = 0
  · have hhead : ([] : Bytes).head? ≠ some 0 := by simp
    have hnil : BigEndian.minimal (w / 8) 0 = [] := BigEndian.minimal_decode (Nat.zero_le _) hhead
    rw [hzero, hnil]
    rfl
  · have hlen := BigEndian.length_minimal (by omega) hlt
    generalize BigEndian.minimal (w / 8) n.toNat = bs at *
    rcases string_cases bs with ⟨b, hb, rfl, hs⟩ | ⟨hc, hs⟩
    · have hn : n.toNat < 0x80 := by
        rw [← hdecode]
        simpa [BigEndian.decode] using hb
      rw [hs, if_pos hn]
      rfl
    · have hn : ¬ n.toNat < 0x80 := by
        intro hsmall
        have hlog : n.toNat.log2 < 7 := (Nat.log2_lt hzero).2 hsmall
        obtain ⟨c, t, rfl, hc⟩ := hc (by omega)
        have hnil : t = [] := List.length_eq_zero_iff.1 (by rw [List.length_cons] at hlen; omega)
        subst hnil
        have hdecode : c.toNat = n.toNat := by simpa [BigEndian.decode] using hdecode
        omega
      have hshort : bs.length < limit64 := by
        have : 56 < limit64 := by decide
        omega
      have hheader : headerLength bs.length = 1 := if_pos (by omega)
      rw [hs, List.length_append, Header.length_encode hshort, hheader, if_neg hn, hlen]

end StorageGateway.Rlp
