import StorageGateway.BlockHeader
import StorageGateway.Proofs.RlpExact

/-!
# Block headers have one encoding

The reader of headers takes off exactly what the encoder writes. The fields of every header follow
each other, each in its one encoding. The fork fields are the tail of the list: the reader stops at
the end of the payload and the encoder at the first field that is absent, so what comes back is the
header without the fields after a gap.

Lengths are computed apart from the bytes, field by field, and agree with what is written.

## Main definitions

* `BlockHeader.Reads` — a reader that takes off exactly the encodings of a field.
* `BlockHeader.ReadForks` — the fork fields of a header, read one after the other.

## Main statements

* `BlockHeader.length_payload` — the length that is computed without encoding.
* `BlockHeader.readFields_eq_ok_iff`, `BlockHeader.read_eq_ok_iff` — what is read.
* `BlockHeader.encoding_exact` — headers without gaps and accepted encodings are in bijection.
* `BlockHeader.lengths_of_encode` — all lengths that are computed without encoding.
-/

namespace StorageGateway

/-! ## Fields -/

namespace HeaderField

/-- Whether the length of a field can be written. -/
def Fits : HeaderField → Prop
  | string bs => bs.length < limit64
  | number _ => True

@[simp] theorem fits_string (bs : Bytes) : (string bs).Fits ↔ bs.length < limit64 := .rfl

@[simp] theorem fits_number (n : UInt256) : (number n).Fits := trivial

theorem fits_fixed {n : Nat} (a : FixedBytes n) (hn : n < limit64) : (fixed a).Fits := by
  rwa [fixed, fits_string, a.length_toList]

/-- The length of an encoded field is the computed one. -/
theorem length_encode {field : HeaderField} (h : field.Fits) :
    field.encode.length = field.length := by
  cases field with
  | string bs => exact Rlp.length_string h
  | number n => exact Rlp.length_number (by decide) (by decide) n

theorem length_fixed_le {n : Nat} (a : FixedBytes n) : (fixed a).encode.length ≤ n + 9 := by
  have h := Rlp.length_string_le a.toList
  rwa [a.length_toList] at h

theorem length_number_le (n : UInt256) : (number n).encode.length ≤ 41 := by
  have h := Rlp.length_number_le n
  exact h

theorem encode_ne_nil (field : HeaderField) : field.encode ≠ [] := by
  cases field with
  | string bs => exact Rlp.string_ne_nil bs
  | number n =>
    rw [encode, Rlp.number]
    exact Rlp.string_ne_nil _

end HeaderField

namespace BlockHeader

open HeaderField

/-- The encoded fork fields, up to the first one that is absent. -/
def forkBytes (forks : List (Option HeaderField)) : Bytes :=
  (untilAbsent forks).flatMap (·.encode)

@[simp] theorem forkBytes_nil : forkBytes [] = [] := rfl

@[simp] theorem forkBytes_none (forks : List (Option HeaderField)) :
    forkBytes (none :: forks) = [] := rfl

@[simp] theorem forkBytes_some (field : HeaderField) (forks : List (Option HeaderField)) :
    forkBytes (some field :: forks) = field.encode ++ forkBytes forks := rfl

theorem payload_eq (h : BlockHeader) :
    h.payload = h.baseFields.flatMap (·.encode) ++ forkBytes h.forkFields := by
  rw [payload, fields, List.flatMap_append, forkBytes]

/-! ### Lengths -/

theorem mem_of_mem_untilAbsent {α : Type} {a : α} {entries : List (Option α)}
    (h : a ∈ untilAbsent entries) : some a ∈ entries := by
  induction entries with
  | nil => cases h
  | cons entry entries ih =>
    cases entry with
    | none => cases h
    | some b =>
      rcases List.mem_cons.1 h with rfl | h
      · exact List.mem_cons_self
      · exact List.mem_cons_of_mem _ (ih h)

/-- A fork field is a word or a number. -/
theorem cases_of_mem_forkFields {h : BlockHeader} {field : HeaderField}
    (hf : some field ∈ h.forkFields) : (∃ a : Word, field = fixed a) ∨ ∃ n, field = .number n := by
  simp only [forkFields, List.mem_cons, List.not_mem_nil, or_false, eq_comm (a := some field),
    Option.map_eq_some_iff] at hf
  rcases hf with ⟨n, -, rfl⟩ | ⟨a, -, rfl⟩ | ⟨n, -, rfl⟩ | ⟨n, -, rfl⟩ | ⟨a, -, rfl⟩ | ⟨a, -, rfl⟩
  · exact .inr ⟨n, rfl⟩
  · exact .inl ⟨a, rfl⟩
  · exact .inr ⟨_, rfl⟩
  · exact .inr ⟨_, rfl⟩
  · exact .inl ⟨a, rfl⟩
  · exact .inl ⟨a, rfl⟩

/-- Only the extra data can be too long. -/
theorem fits_of_mem_fields {h : BlockHeader} (hx : h.extraData.length < limit64) :
    ∀ field ∈ h.fields, field.Fits := by
  have hlimit : 256 < limit64 := by decide
  have hfixed : ∀ {n : Nat} (a : FixedBytes n), n ≤ 256 → (fixed a).Fits :=
    fun a hn => fits_fixed a (by omega)
  have hbase : ∀ field ∈ h.baseFields, field.Fits := by
    simp [baseFields, number64, hx, hfixed]
  intro field hf
  rcases List.mem_append.1 hf with hf | hf
  · exact hbase field hf
  · rcases cases_of_mem_forkFields (mem_of_mem_untilAbsent hf) with ⟨a, rfl⟩ | ⟨n, rfl⟩
    · exact hfixed a (by decide)
    · exact fits_number n

theorem length_flatMap_encode {fields : List HeaderField} (h : ∀ field ∈ fields, field.Fits) :
    (fields.flatMap (·.encode)).length = fields.foldr (fun field n => field.length + n) 0 := by
  induction fields with
  | nil => rfl
  | cons field fields ih =>
    rw [List.forall_mem_cons] at h
    rw [List.flatMap_cons, List.length_append, ih h.2, length_encode h.1, List.foldr_cons]

/-- The length of the encoded fields is the computed one. -/
theorem length_payload {h : BlockHeader} (hx : h.extraData.length < limit64) :
    h.payload.length = h.payloadLength :=
  length_flatMap_encode (fits_of_mem_fields hx)

theorem length_extraData_le (h : BlockHeader) : h.extraData.length ≤ h.payload.length := by
  have hle := Rlp.length_le_string h.extraData
  simp only [payload_eq, baseFields, List.flatMap_cons, List.length_append, HeaderField.encode]
  omega

theorem length_payload_le_encode (h : BlockHeader) : h.payload.length ≤ h.encode.length := by
  rw [encode, List.length_append]
  omega

/-- The length of the encoding is the computed one. -/
theorem length_encode {h : BlockHeader} (hl : h.payload.length < limit64) :
    h.encode.length = h.length := by
  have hx : h.extraData.length < limit64 := Nat.lt_of_le_of_lt (length_extraData_le h) hl
  have hp := length_payload hx
  rw [encode, List.length_append, Rlp.Header.length_encode (by rwa [← hp]), length, hp]

theorem length_forkBytes_le {forks : List (Option HeaderField)}
    (h : ∀ field, some field ∈ forks → field.encode.length ≤ 41) :
    (forkBytes forks).length ≤ 41 * forks.length := by
  induction forks with
  | nil => simp
  | cons fork forks ih =>
    have hrest := ih fun field hf => h field (List.mem_cons_of_mem _ hf)
    cases fork with
    | none => simp
    | some field =>
      have hfield := h field List.mem_cons_self
      rw [forkBytes_some, List.length_append, List.length_cons]
      omega

/-- All fields but the extra data are short. -/
theorem length_payload_le (h : BlockHeader) : h.payload.length ≤ h.extraData.length + 2048 := by
  have hforks : (forkBytes h.forkFields).length ≤ 41 * 6 := by
    apply length_forkBytes_le
    intro field hf
    rcases cases_of_mem_forkFields hf with ⟨a, rfl⟩ | ⟨n, rfl⟩
    · exact length_fixed_le a
    · exact length_number_le n
  have hextra : (HeaderField.string h.extraData).encode.length ≤ h.extraData.length + 9 :=
    Rlp.length_string_le h.extraData
  have h1 := length_fixed_le h.parentHash
  have h2 := length_fixed_le h.sha3Uncles
  have h3 := length_fixed_le h.miner
  have h4 := length_fixed_le h.stateRoot
  have h5 := length_fixed_le h.transactionsRoot
  have h6 := length_fixed_le h.receiptsRoot
  have h7 := length_fixed_le h.logsBloom
  have h8 := length_number_le h.difficulty
  have h9 : ∀ n : BitVec 64, (number64 n).encode.length ≤ 41 := fun n => length_number_le _
  have h10 := h9 h.number
  have h11 := h9 h.gasLimit
  have h12 := h9 h.gasUsed
  have h13 := h9 h.timestamp
  have h14 := length_fixed_le h.mixHash
  have h15 := length_fixed_le h.nonce
  simp only [payload_eq, baseFields, List.flatMap_cons, List.flatMap_nil, List.length_append,
    List.length_nil]
  omega

/-! ## Reading -/

section Forks

variable {α : Type}

/-- A reader that takes off exactly the encodings of a field. -/
def Reads (read : Rlp.Reader α) (field : α → HeaderField) : Prop :=
  ∀ a buffer rest, read buffer = .ok (a, rest) ↔ buffer = (field a).encode ++ rest

theorem reads_fixed {n : Nat} (hn : n < limit64) : Reads (Rlp.readFixed n) fixed :=
  fun _ _ _ => Rlp.readFixed_eq_ok_iff hn

theorem reads_number : Reads (Rlp.readNumber 256) .number :=
  fun _ _ _ => Rlp.readNumber_eq_ok_iff (by decide) (by decide)

theorem reads_number64 : Reads (Rlp.readNumber 64) number64 := by
  intro n buffer rest
  rw [Rlp.readNumber_eq_ok_iff (by decide) (by decide), number64, HeaderField.encode,
    Rlp.number_setWidth (by decide) (by decide)]

variable {read : Rlp.Reader α} {field : α → HeaderField}

/-- A fork field is absent at the end of the payload, and is read anywhere else. -/
theorem readFork_eq_ok_iff (hr : Reads read field) {o : Option α} {p q : Bytes} :
    readFork read p = .ok (o, q) ↔
      (o = none ∧ p = [] ∧ q = []) ∨ ∃ a, o = some a ∧ p = (field a).encode ++ q := by
  have hsome : ∀ a, (field a).encode ++ q ≠ [] := fun a h =>
    encode_ne_nil (field a) (List.append_eq_nil_iff.1 h).1
  cases p with
  | nil =>
    have hne : ∀ a, [] ≠ (field a).encode ++ q := fun a h => hsome a h.symm
    simp [readFork, hne, eq_comm]
  | cons b bs =>
    have hmap : readFork read (b :: bs) = read (b :: bs) >>= fun r => .ok (some r.1, r.2) := rfl
    rw [hmap, Except.bind_eq_ok_iff]
    constructor
    · intro h
      obtain ⟨r, hread, h⟩ := h
      cases h
      exact .inr ⟨r.1, rfl, (hr _ _ _).1 hread⟩
    · intro h
      rcases h with ⟨-, h, -⟩ | ⟨a, rfl, h⟩
      · cases h
      · exact ⟨(a, q), (hr _ _ _).2 h, rfl⟩

/-- The reader takes a fork field as absent once one before it was. -/
theorem readFork_forkBytes (hr : Reads read field) (o : Option α)
    (forks : List (Option HeaderField)) (present : Bool) :
    readFork read (if present then forkBytes (o.map field :: forks) else []) =
      .ok (if present then o else none, if present && o.isSome then forkBytes forks else []) := by
  rw [readFork_eq_ok_iff hr]
  cases present with
  | false => simp
  | true => cases o <;> simp

/-- A fork field that is absent is followed by nothing. -/
theorem of_readFork (hr : Reads read field) {o : Option α} {p q : Bytes}
    {forks : List (Option HeaderField)} (h : readFork read p = .ok (o, q))
    (hq : q = forkBytes forks) :
    p = forkBytes (o.map field :: forks) ∧ (o = none → q = []) := by
  rcases (readFork_eq_ok_iff hr).1 h with ⟨rfl, rfl, rfl⟩ | ⟨a, rfl, rfl⟩
  · simp
  · simp [hq]

theorem eq_none_of_readFork_nil (hr : Reads read field) {o : Option α} {p q : Bytes}
    (h : readFork read p = .ok (o, q)) (hp : p = []) : o = none := by
  rcases (readFork_eq_ok_iff hr).1 h with ⟨ho, -, -⟩ | ⟨a, -, ha⟩
  · exact ho
  · exact absurd (List.append_eq_nil_iff.1 (ha.symm.trans hp)).1 (encode_ne_nil _)

end Forks

/-- The fork fields of a header are read off the front one after the other. -/
def ReadForks (h : BlockHeader) (p q : Bytes) : Prop :=
  ∃ p₁ p₂ p₃ p₄ p₅,
    readFork (Rlp.readNumber 256) p = .ok (h.baseFeePerGas, p₁) ∧
    readFork (Rlp.readFixed 32) p₁ = .ok (h.withdrawalsRoot, p₂) ∧
    readFork (Rlp.readNumber 64) p₂ = .ok (h.blobGasUsed, p₃) ∧
    readFork (Rlp.readNumber 64) p₃ = .ok (h.excessBlobGas, p₄) ∧
    readFork (Rlp.readFixed 32) p₄ = .ok (h.parentBeaconBlockRoot, p₅) ∧
    readFork (Rlp.readFixed 32) p₅ = .ok (h.requestsHash, q)

/-- What the encoder writes is read as the header without the fields after a gap. -/
theorem readForks_trim (h : BlockHeader) : ReadForks h.trim (forkBytes h.forkFields) [] := by
  have hword := reads_fixed (n := 32) (by decide)
  have h₁ := readFork_forkBytes reads_number h.baseFeePerGas h.forkFields.tail true
  have h₂ := readFork_forkBytes hword h.withdrawalsRoot h.forkFields.tail.tail
  have h₃ := readFork_forkBytes reads_number64 h.blobGasUsed h.forkFields.tail.tail.tail
  have h₄ := readFork_forkBytes reads_number64 h.excessBlobGas h.forkFields.tail.tail.tail.tail
  have h₅ := readFork_forkBytes hword h.parentBeaconBlockRoot [h.requestsHash.map fixed]
  have h₆ := readFork_forkBytes hword h.requestsHash []
  simp only [forkBytes_nil, ite_self] at h₆
  exact ⟨_, _, _, _, _, h₁, h₂ _, h₃ _, h₄ _, h₅ _, h₆ _⟩

/-- A header without a gap is its own `trim`. -/
theorem trim_eq_self {h : BlockHeader} (h₁ : h.baseFeePerGas = none → h.withdrawalsRoot = none)
    (h₂ : h.withdrawalsRoot = none → h.blobGasUsed = none)
    (h₃ : h.blobGasUsed = none → h.excessBlobGas = none)
    (h₄ : h.excessBlobGas = none → h.parentBeaconBlockRoot = none)
    (h₅ : h.parentBeaconBlockRoot = none → h.requestsHash = none) : h.trim = h := by
  have hkeep : ∀ {α : Type} {present : Bool} {o : Option α}, (present = false → o = none) →
      (if present then o else none) = o := by
    intro α present o ho
    cases present with
    | false => exact (ho rfl).symm
    | true => rfl
  have hnone : ∀ {α : Type} {o : Option α}, o.isSome = false → o = none := by simp
  have hnext : ∀ {α β : Type} {present : Bool} {o : Option α} {p : Option β},
      (present = false → o = none) → (o = none → p = none) →
        (present && o.isSome) = false → p = none := by
    intro α β present o p ho hp h
    rcases Bool.and_eq_false_iff.1 h with h | h
    · exact hp (ho h)
    · exact hp (hnone h)
  have hw := fun h => h₁ (hnone h)
  have hb := hnext hw h₂
  have he := hnext hb h₃
  have hp := hnext he h₄
  have hr := hnext hp h₅
  simp only [trim, hkeep hw, hkeep hb, hkeep he, hkeep hp, hkeep hr]

/-- What is read has no gap, and is what the encoder writes. -/
theorem of_readForks {h : BlockHeader} {p : Bytes} (hf : ReadForks h p []) :
    h.trim = h ∧ p = forkBytes h.forkFields := by
  have hword := reads_fixed (n := 32) (by decide)
  obtain ⟨p₁, p₂, p₃, p₄, p₅, h₁, h₂, h₃, h₄, h₅, h₆⟩ := hf
  -- From the last field to the first, what was there is the encoding of the fields from it on.
  obtain ⟨hp₅, -⟩ := of_readFork hword h₆ forkBytes_nil.symm
  obtain ⟨hp₄, n₅⟩ := of_readFork hword h₅ hp₅
  obtain ⟨hp₃, n₄⟩ := of_readFork reads_number64 h₄ hp₄
  obtain ⟨hp₂, n₃⟩ := of_readFork reads_number64 h₃ hp₃
  obtain ⟨hp₁, n₂⟩ := of_readFork hword h₂ hp₂
  obtain ⟨hp, n₁⟩ := of_readFork reads_number h₁ hp₁
  refine ⟨trim_eq_self ?_ ?_ ?_ ?_ ?_, hp⟩
  · exact fun h => eq_none_of_readFork_nil hword h₂ (n₁ h)
  · exact fun h => eq_none_of_readFork_nil reads_number64 h₃ (n₂ h)
  · exact fun h => eq_none_of_readFork_nil reads_number64 h₄ (n₃ h)
  · exact fun h => eq_none_of_readFork_nil hword h₅ (n₄ h)
  · exact fun h => eq_none_of_readFork_nil hword h₆ (n₅ h)

/-- The fields of every header are read where their encodings stand, and the fork fields behind
them. -/
theorem readFields_eq_ok_iff {p q : Bytes} {h : BlockHeader} :
    readFields p = .ok (h, q) ↔ h.extraData.length < limit64 ∧
      ∃ forks, p = h.baseFields.flatMap (·.encode) ++ forks ∧ ReadForks h forks q := by
  have hword := reads_fixed (n := 32) (by decide)
  have haddress := reads_fixed (n := 20) (by decide)
  have hbloom := reads_fixed (n := 256) (by decide)
  have hnonce := reads_fixed (n := 8) (by decide)
  simp only [readFields, Rlp.bind_eq_ok_iff, hword _ _ _, haddress _ _ _, hbloom _ _ _,
    hnonce _ _ _, reads_number _ _ _, reads_number64 _ _ _, Rlp.readString_eq_ok_iff,
    Rlp.pure_apply]
  constructor
  · intro hread
    obtain ⟨_, _, e₁, _, _, e₂, _, _, e₃, _, _, e₄, _, _, e₅, hread⟩ := hread
    obtain ⟨_, _, e₆, _, _, e₇, _, _, e₈, _, _, e₉, _, _, e₁₀, hread⟩ := hread
    obtain ⟨_, _, e₁₁, _, _, e₁₂, _, _, ⟨hx, e₁₃⟩, _, _, e₁₄, _, forks, e₁₅, hread⟩ := hread
    obtain ⟨_, _, h₁, _, _, h₂, _, _, h₃, hread⟩ := hread
    obtain ⟨_, _, h₄, _, _, h₅, _, _, h₆, hread⟩ := hread
    cases hread
    refine ⟨hx, forks, ?_, _, _, _, _, _, h₁, h₂, h₃, h₄, h₅, h₆⟩
    rw [e₁, e₂, e₃, e₄, e₅, e₆, e₇, e₈, e₉, e₁₀, e₁₁, e₁₂, e₁₃, e₁₄, e₁₅]
    simp only [baseFields, List.flatMap_cons, List.flatMap_nil, List.append_assoc, List.nil_append]
    rfl
  · intro hread
    obtain ⟨hx, forks, hp, _, _, _, _, _, h₁, h₂, h₃, h₄, h₅, h₆⟩ := hread
    simp only [baseFields, List.flatMap_cons, List.flatMap_nil, List.append_assoc,
      List.nil_append] at hp
    rw [hp]
    exact ⟨_, _, rfl, _, _, rfl, _, _, rfl, _, _, rfl, _, _, rfl, _, _, rfl, _, _, rfl, _, _, rfl,
      _, _, rfl, _, _, rfl, _, _, rfl, _, _, rfl, _, _, ⟨hx, rfl⟩, _, _, rfl, _, _, rfl,
      _, _, h₁, _, _, h₂, _, _, h₃, _, _, h₄, _, _, h₅, _, _, h₆, rfl⟩

/-- The payload of a header is read as the header without the fields after a gap. -/
theorem readFields_payload {h : BlockHeader} (hx : h.extraData.length < limit64) :
    readFields h.payload = .ok (h.trim, []) :=
  readFields_eq_ok_iff.2 ⟨hx, forkBytes h.forkFields, payload_eq h, readForks_trim h⟩

/-- A payload that is read to its end is the payload of a header without a gap. -/
theorem of_readFields {p : Bytes} {h : BlockHeader} (hr : readFields p = .ok (h, [])) :
    h.extraData.length < limit64 ∧ h.trim = h ∧ p = h.payload := by
  obtain ⟨hx, forks, rfl, hforks⟩ := readFields_eq_ok_iff.1 hr
  obtain ⟨htrim, rfl⟩ := of_readForks hforks
  exact ⟨hx, htrim, (payload_eq h).symm⟩

/-- A header is encoded as the list of its fields. -/
theorem encode_eq_list {h : BlockHeader} (hx : h.extraData.length < limit64) :
    h.encode = Rlp.list h.payload := by
  rw [encode, Rlp.list, length_payload hx]

/-- A header is read where the list of its fields stands, and has no gap. -/
theorem read_eq_ok_iff {buffer rest : Bytes} {h : BlockHeader} :
    read buffer = .ok (h, rest) ↔
      ∃ payload, payload.length < limit64 ∧ buffer = Rlp.list payload ++ rest ∧
        readFields payload = .ok (h, []) := by
  rw [read, Rlp.readList_eq_ok_iff]
  constructor
  · intro hread
    obtain ⟨payload, r, hlimit, rfl, hr⟩ := hread
    cases hfields : readFields payload with
    | error e =>
      rw [hfields] at hr
      cases hr
    | ok result =>
      obtain ⟨h', left⟩ := result
      rw [hfields] at hr
      cases left with
      | cons b bs => cases hr
      | nil =>
        cases hr
        exact ⟨payload, hlimit, rfl, hfields⟩
  · intro hread
    obtain ⟨payload, hlimit, rfl, hfields⟩ := hread
    refine ⟨payload, rest, hlimit, rfl, ?_⟩
    rw [hfields]
    rfl

/-- The encoding of a header is read as the header without the fields after a gap, and what follows
it is left. -/
theorem read_encode {h : BlockHeader} (hl : h.payload.length < limit64) (rest : Bytes) :
    read (h.encode ++ rest) = .ok (h.trim, rest) := by
  have hx : h.extraData.length < limit64 := Nat.lt_of_le_of_lt (length_extraData_le h) hl
  rw [read_eq_ok_iff, encode_eq_list hx]
  exact ⟨h.payload, hl, rfl, readFields_payload hx⟩

/-- What is read is the encoding of a header without a gap. -/
theorem of_read {buffer rest : Bytes} {h : BlockHeader} (hread : read buffer = .ok (h, rest)) :
    h.payload.length < limit64 ∧ h.trim = h ∧ buffer = h.encode ++ rest := by
  obtain ⟨payload, hlimit, rfl, hfields⟩ := read_eq_ok_iff.1 hread
  obtain ⟨hx, htrim, rfl⟩ := of_readFields hfields
  exact ⟨hlimit, htrim, by rw [encode_eq_list hx]⟩

theorem length_payload_lt {h : BlockHeader} (hx : h.extraData.length < 2 ^ 60) :
    h.payload.length < limit64 := by
  have hle := length_payload_le h
  rw [limit64]
  omega

/-- The fields after a gap are not encoded. -/
theorem encode_trim {h : BlockHeader} (hl : h.payload.length < limit64) :
    h.trim.encode = h.encode := by
  obtain ⟨-, -, hencode⟩ := of_read (read_encode hl [])
  rw [List.append_nil, List.append_nil] at hencode
  exact hencode.symm

theorem trim_eq_of_encode_eq {h₁ h₂ : BlockHeader} (hl₁ : h₁.payload.length < limit64)
    (hl₂ : h₂.payload.length < limit64) (he : h₁.encode = h₂.encode) : h₁.trim = h₂.trim := by
  have hread := read_encode hl₁ []
  rw [he, read_encode hl₂ [], Except.ok.injEq, Prod.mk.injEq] at hread
  exact hread.1.symm

/-- **Headers without gaps and accepted encodings are in bijection.** The encoding of any header is
read as its `trim`, which has the same encoding, and the reader leaves what follows. Whatever is
read is a header without a gap, and stood there in the encoding that it has. Two headers have the
same encoding exactly if they differ at most after a gap. -/
theorem encoding_exact :
    (∀ (h : BlockHeader) (rest : Bytes), h.extraData.length < 2 ^ 60 →
      read (h.encode ++ rest) = .ok (h.trim, rest) ∧ h.trim.encode = h.encode) ∧
    (∀ (buffer rest : Bytes) (h : BlockHeader), read buffer = .ok (h, rest) →
      h.trim = h ∧ buffer = h.encode ++ rest) ∧
    ∀ h₁ h₂ : BlockHeader, h₁.extraData.length < 2 ^ 60 → h₂.extraData.length < 2 ^ 60 →
      (h₁.encode = h₂.encode ↔ h₁.trim = h₂.trim) := by
  refine ⟨?_, ?_, ?_⟩
  · intro h rest hx
    have hl := length_payload_lt hx
    exact ⟨read_encode hl rest, encode_trim hl⟩
  · intro buffer rest h hread
    exact (of_read hread).2
  · intro h₁ h₂ hx₁ hx₂
    have hl₁ := length_payload_lt hx₁
    have hl₂ := length_payload_lt hx₂
    constructor
    · exact trim_eq_of_encode_eq hl₁ hl₂
    · intro htrim
      rw [← encode_trim hl₁, htrim, encode_trim hl₂]

/-- A header whose fork fields have a gap. -/
def gapped : BlockHeader :=
  { number := 0xff, extraData := [0x80], baseFeePerGas := some 7, blobGasUsed := some 1 }

theorem encoding_exact_gapped :
    gapped.extraData.length < 2 ^ 60 ∧ gapped.trim ≠ gapped ∧
      read (gapped.encode ++ [0xff]) = .ok (gapped.trim, [0xff]) ∧
      gapped.trim.encode = gapped.encode ∧ gapped.trim.trim = gapped.trim := by
  have hx : gapped.extraData.length < 2 ^ 60 := by decide
  obtain ⟨hread, hencode⟩ := encoding_exact.1 gapped [0xff] hx
  have hne : gapped.trim ≠ gapped := by
    intro h
    cases congrArg blobGasUsed h
  exact ⟨hx, hne, hread, hencode, (encoding_exact.2.1 _ _ _ hread).1⟩

/-- **Computed lengths are the real ones.** Whatever fork fields a header has, each of its fields is
encoded in as many bytes as are computed for it. The header of the list announces the sum, and as
many bytes are written behind it; the whole encoding has the computed length too. -/
theorem lengths_of_encode {h : BlockHeader} (hx : h.extraData.length < 2 ^ 60) :
    (∀ field ∈ h.fields, field.encode.length = field.length) ∧
      (∀ rest, Rlp.Header.read (h.encode ++ rest) =
        .ok (⟨true, h.payloadLength⟩, h.payload ++ rest)) ∧
      h.payload.length = h.payloadLength ∧ h.encode.length = h.length := by
  have hlimit : h.extraData.length < limit64 := Nat.lt_trans hx (by decide)
  have hl := length_payload_lt hx
  have hpayload := length_payload hlimit
  refine ⟨?_, ?_, hpayload, length_encode hl⟩
  · intro field hf
    exact HeaderField.length_encode (fits_of_mem_fields hlimit field hf)
  · intro rest
    have hfits : h.payloadLength < limit64 := hpayload ▸ hl
    have henough : h.payloadLength ≤ (h.payload ++ rest).length := by
      rw [List.length_append]
      omega
    rw [encode, List.append_assoc]
    exact Rlp.Header.read_encode hfits henough nofun

/-- The base fee is the only fork field that is written, and the extra data is a single byte above
`0x7f`, which takes two. -/
theorem lengths_of_encode_gapped :
    gapped.extraData.length < 2 ^ 60 ∧ gapped.payload.length = 496 ∧
      gapped.encode.length = 499 := by
  have hx : gapped.extraData.length < 2 ^ 60 := by decide
  obtain ⟨-, -, hpayload, hencode⟩ := lengths_of_encode hx
  exact ⟨hx, hpayload.trans (by decide +kernel), hencode.trans (by decide +kernel)⟩

end BlockHeader

end StorageGateway
