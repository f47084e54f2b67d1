import Mathlib.Data.List.Forall2
import StorageGateway.BlockHeader.Json
import StorageGateway.Proofs.Hexadecimal
import StorageGateway.StateProof.Json

/-!
# Records are read back

A record is written as an object with one member per field that is there, and read by looking each
field up by its name. So the order of the members does not matter, and sorting them does not change
what is read.

## Main definitions

* `Json.membersOf` — the members of a record, from the names and values of its fields.
* `Json.ReadBack` — a writer and a reader that fit, whether objects are sorted or not.

## Main statements

* `Json.fields?_membersOf`, `Json.fields?_sorted` — the fields of a record, sorted or not.
* `Json.ReadBack.list`, `Json.ReadBack.record` — arrays and records, from their parts.
* `BlockHeader.readBack`, `StateProof.readBack`, `ProofResponse.readBack` — the records that are
  read back.
-/

namespace StorageGateway

namespace Json

variable {name : String} {names : List String} {ms : List (String × Json)}

/-! ## Members by name -/

@[simp] theorem membersNamed_append (name : String) (front back : List (String × Json)) :
    membersNamed name (front ++ back) = membersNamed name front ++ membersNamed name back := by
  simp [membersNamed]

theorem membersNamed_eq_nil (h : name ∉ ms.map (·.1)) : membersNamed name ms = [] := by
  rw [membersNamed, List.map_eq_nil_iff, List.filter_eq_nil_iff]
  intro member hm hname
  exact h (List.mem_map.2 ⟨member, hm, of_decide_eq_true hname⟩)

/-- The fields of an object are looked up one by one. -/
theorem fields?_obj_eq_some_iff {values : List (Option Json)} :
    fields? names (obj ms) = some values ↔
      List.Forall₂ (fun name value => member? ms name = some value) names values := by
  rw [fields?]
  induction names generalizing values with
  | nil =>
    rw [List.mapM_nil, List.forall₂_nil_left_iff]
    exact ⟨fun h => (Option.some.inj h).symm, fun h => congrArg some h.symm⟩
  | cons name names ih =>
    simp only [List.mapM_cons, Option.bind_eq_bind, Option.bind_eq_some_iff, Option.pure_def,
      Option.some.injEq, List.forall₂_cons_left_iff, ih]
    constructor
    · intro h
      obtain ⟨value, hv, rest, hr, rfl⟩ := h
      exact ⟨value, rest, hv, hr, rfl⟩
    · intro h
      obtain ⟨value, rest, hv, hr, rfl⟩ := h
      exact ⟨value, hv, rest, hr, rfl⟩

/-! ## Sorted members -/

theorem perm_insertMember (name : String) (value : Json) (ms : List (String × Json)) :
    (insertMember name value ms).Perm ((name, value) :: ms) := by
  induction ms with
  | nil => exact .refl _
  | cons member ms ih =>
    obtain ⟨other, v⟩ := member
    rw [insertMember]
    by_cases hlt : name < other
    · rw [if_pos hlt]
    · rw [if_neg hlt]
      exact (ih.cons _).trans (.swap _ _ _)

/-- Sorting an object sorts the values of its members, and puts the members into another order. -/
theorem perm_sortedMembers (ms : List (String × Json)) :
    (sortedMembers ms).Perm (ms.map fun member => (member.1, member.2.sorted)) := by
  induction ms with
  | nil => exact .refl _
  | cons member ms ih =>
    obtain ⟨name, value⟩ := member
    rw [sortedMembers, List.map_cons]
    exact (perm_insertMember name value.sorted _).trans (ih.cons _)

theorem perm_membersNamed_sortedMembers (name : String) (ms : List (String × Json)) :
    (membersNamed name (sortedMembers ms)).Perm ((membersNamed name ms).map sorted) := by
  have h := ((perm_sortedMembers ms).filter (·.1 = name)).map (·.2)
  rw [List.filter_map, List.map_map] at h
  rw [membersNamed, membersNamed, List.map_map]
  exact h

/-- The member with a name is the same one after sorting. -/
theorem member?_sortedMembers (ms : List (String × Json)) (name : String) :
    member? (sortedMembers ms) name = (member? ms name).map (Option.map sorted) := by
  have h := perm_membersNamed_sortedMembers name ms
  rw [member?, member?]
  generalize membersNamed name (sortedMembers ms) = found at h ⊢
  generalize membersNamed name ms = wanted at h ⊢
  cases wanted with
  | nil =>
    rw [List.map_nil, List.perm_nil] at h
    rw [h]
    rfl
  | cons value others =>
    cases others with
    | nil =>
      rw [List.map_singleton, List.perm_singleton] at h
      rw [h]
      rfl
    | cons other others =>
      have hl := h.length_eq
      match found with
      | [] => cases hl
      | [_] => cases hl
      | _ :: _ :: _ => rfl

/-- The fields of a sorted record are the sorted fields. -/
theorem fields?_sorted {values : List (Option Json)} (h : fields? names (obj ms) = some values) :
    fields? names (obj ms).sorted = some (values.map (Option.map sorted)) := by
  rw [sorted, fields?_obj_eq_some_iff, List.forall₂_map_right_iff]
  refine (fields?_obj_eq_some_iff.1 h).imp ?_
  intro name value hv
  rw [member?_sortedMembers, hv]
  rfl

/-! ## Writing records -/

/-- The members of a record: the fields that are there, each with its name. -/
def membersOf (names : List String) (values : List (Option Json)) : List (String × Json) :=
  (names.zip values).filterMap fun (name, value) => value.map (name, ·)

theorem membersOf_cons (name : String) (names : List String) (value : Option Json)
    (values : List (Option Json)) :
    membersOf (name :: names) (value :: values) =
      (value.map (name, ·)).toList ++ membersOf names values := by
  cases value <;> rfl

theorem mem_of_mem_membersOf {values : List (Option Json)}
    (h : name ∈ (membersOf names values).map (·.1)) : name ∈ names := by
  obtain ⟨member, hm, rfl⟩ := List.mem_map.1 h
  obtain ⟨⟨n, v⟩, hz, hv⟩ := List.mem_filterMap.1 hm
  obtain ⟨value, -, rfl⟩ := Option.map_eq_some_iff.1 hv
  exact (List.of_mem_zip hz).1

/-- Behind members with other names, the fields of a record are looked up. -/
theorem forall₂_member?_membersOf {values : List (Option Json)} (hn : names.Nodup)
    (hl : names.length = values.length) (front : List (String × Json))
    (hf : ∀ name ∈ names, name ∉ front.map (·.1)) :
    List.Forall₂ (fun name value => member? (front ++ membersOf names values) name = some value)
      names values := by
  induction names generalizing values front with
  | nil =>
    cases values with
    | nil => exact .nil
    | cons value values => cases hl
  | cons name names ih =>
    cases values with
    | nil => cases hl
    | cons value values =>
      obtain ⟨hname, hn⟩ := List.nodup_cons.1 hn
      rw [membersOf_cons]
      refine .cons ?_ ?_
      · have hfront := membersNamed_eq_nil (hf name List.mem_cons_self)
        have hrest : membersNamed name (membersOf names values) = [] :=
          membersNamed_eq_nil fun h => hname (mem_of_mem_membersOf h)
        rw [member?, membersNamed_append, membersNamed_append, hfront, hrest]
        cases value with
        | none => rfl
        | some j => simp [membersNamed]
      · rw [← List.append_assoc]
        refine ih hn (by simpa using hl) _ ?_
        intro other ho
        have hne : other ≠ name := by
          intro he
          exact hname (he ▸ ho)
        have hfront := hf other (List.mem_cons_of_mem _ ho)
        cases value with
        | none => simpa using hfront
        | some j => simpa [hne] using hfront

/-- The fields of a record are read back. -/
theorem fields?_membersOf (values : List (Option Json)) (hn : names.Nodup)
    (hl : names.length = values.length) :
    fields? names (obj (membersOf names values)) = some values :=
  fields?_obj_eq_some_iff.2 (forall₂_member?_membersOf hn hl [] fun _ _ => List.not_mem_nil)

/-! ## Reading fields -/

section

variable {α β : Type} {read : Json → Option α} {next : α → FieldReader β} {j : Json} {a : α}
  {rest : List (Option Json)}

/-- A field that is there is read. -/
theorem required_bind (h : read j = some a) :
    (required read >>= next) (some j :: rest) = next a rest := by
  change (read j >>= fun a => pure (a, rest)) >>= (fun r => next r.1 r.2) = next a rest
  rw [h]
  rfl

theorem defaulted_bind {value : α} (h : read j = some a) :
    (defaulted value read >>= next) (some j :: rest) = next a rest := by
  change (read j >>= fun a => pure (a, rest)) >>= (fun r => next r.1 r.2) = next a rest
  rw [h]
  rfl

/-- A field that may be missing is read where it is there. -/
theorem optional_bind {next : Option α → FieldReader β} {write : α → Json}
    (hnull : ∀ a, write a ≠ null) (h : ∀ a, read (write a) = some a) (o : Option α) :
    (optional read >>= next) (o.map write :: rest) = next o rest := by
  cases o with
  | none => rfl
  | some a =>
    have hread : optional read (some (write a) :: rest) = some (some a, rest) := by
      have hn := hnull a
      cases hw : write a with
      | null => exact absurd hw hn
      | _ =>
        change ((read _).map some >>= fun a => pure (a, rest)) = _
        rw [← hw, h a]
        rfl
    change (optional read (some (write a) :: rest)) >>= (fun r => next r.1 r.2) = _
    rw [hread]
    rfl

/-- A record whose fields are read is read as a whole. -/
theorem record?_of_fields? {fields : List (String × Shape)} {reader : FieldReader α} {a : α}
    {values : List (Option Json)} (hf : fields? (fields.map (·.1)) j = some values)
    (hr : reader values = some (a, [])) : record? fields reader j = some a := by
  rw [record?, hf]
  change (reader values).bind _ = _
  rw [hr]
  rfl

/-- An array is read item by item. -/
theorem list?_map {write : α → Json} {as : List α} (h : ∀ a ∈ as, read (write a) = some a) :
    list? read (arr (as.map write)) = some as := by
  rw [list?]
  induction as with
  | nil => rfl
  | cons a as ih =>
    obtain ⟨ha, has⟩ := List.forall_mem_cons.1 h
    rw [List.map_cons, List.mapM_cons, ha, ih has]
    rfl

end

@[simp] theorem bytesList?_bytesList (items : List Bytes) :
    bytesList? (bytesList items) = some items :=
  list?_map fun bs _ => bytes?_bytes bs

/-! ## Texts are sorted -/

@[simp] theorem sorted_bytes (bs : Bytes) : (bytes bs).sorted = bytes bs := rfl

@[simp] theorem sorted_fixed {n : Nat} (a : FixedBytes n) : (fixed a).sorted = fixed a := rfl

@[simp] theorem sorted_quantity {w : Nat} (n : BitVec w) : (quantity n).sorted = quantity n := rfl

@[simp] theorem sorted_nat (n : Nat) : (nat n).sorted = nat n := rfl

theorem sorted_arr (items : List Json) : (arr items).sorted = arr (items.map sorted) := by
  have h : sortedItems items = items.map sorted := by
    induction items with
    | nil => rfl
    | cons j items ih => rw [sortedItems, ih, List.map_cons]
  rw [sorted, h]

@[simp] theorem sorted_bytesList (items : List Bytes) :
    (bytesList items).sorted = bytesList items := by
  simp [bytesList, sorted_arr, Function.comp_def]

/-! ## What is read back -/

/-- What is written is read back, also from a value with the members of all objects in
alphabetical order. -/
structure ReadBack {α : Type} (write : α → Json) (read : Json → Option α) : Prop where
  plain : ∀ a, read (write a) = some a
  sorted : ∀ a, read (write a).sorted = some a

namespace ReadBack

theorem fixed (n : Nat) : ReadBack (Json.fixed (n := n)) (fixed? n) := ⟨fixed?_fixed, fixed?_fixed⟩

theorem quantity (w : Nat) : ReadBack (Json.quantity (w := w)) (quantity? w) :=
  ⟨quantity?_quantity, quantity?_quantity⟩

theorem bytesList : ReadBack Json.bytesList bytesList? where
  plain := bytesList?_bytesList
  sorted items := by rw [sorted_bytesList, bytesList?_bytesList]

variable {α : Type} {write : α → Json} {read : Json → Option α} {form : Json → Json}

/-- Both forms of a value at once: as it is written, and sorted. -/
theorem eq_some (h : ReadBack write read) (hform : form = id ∨ form = Json.sorted) (a : α) :
    read (form (write a)) = some a := by
  rcases hform with rfl | rfl
  · exact h.plain a
  · exact h.sorted a

/-- Arrays are read back if their items are. -/
theorem list (h : ReadBack write read) :
    ReadBack (fun as => arr (as.map write)) (list? read) where
  plain as := list?_map fun a _ => h.plain a
  sorted as := by
    rw [sorted_arr, List.map_map]
    exact list?_map fun a _ => h.sorted a

/-- Records are read back if the values of their fields are, in both forms. -/
theorem record {fields : List (String × Shape)} {reader : FieldReader α}
    (values : α → List (Option Json)) (hn : (fields.map (·.1)).Nodup)
    (hl : ∀ a, (fields.map (·.1)).length = (values a).length)
    (hw : ∀ a, write a = obj (membersOf (fields.map (·.1)) (values a)))
    (hr : ∀ form : Json → Json, form = id ∨ form = Json.sorted → ∀ a,
      reader ((values a).map (Option.map form)) = some (a, [])) :
    ReadBack write (record? fields reader) := by
  have hfields : ∀ a, fields? (fields.map (·.1)) (obj (membersOf (fields.map (·.1)) (values a))) =
      some (values a) := fun a => fields?_membersOf (values a) hn (hl a)
  refine ⟨?_, ?_⟩
  · intro a
    have hread := hr id (.inl rfl) a
    rw [Option.map_id, List.map_id] at hread
    rw [hw]
    exact record?_of_fields? (hfields a) hread
  · intro a
    rw [hw]
    exact record?_of_fields? (fields?_sorted (hfields a)) (hr Json.sorted (.inr rfl) a)

end ReadBack

end Json

/-! ## Headers -/

namespace BlockHeader

theorem toJson_eq (h : BlockHeader) :
    h.toJson = .obj (Json.membersOf (jsonFields.map (·.1)) h.fieldValues) := by
  rw [toJson, Json.membersOf, List.zip_map_left, List.filterMap_map]
  rfl

/-- The values of the fields are read in order. -/
theorem fieldReader_fieldValues (h : BlockHeader) :
    fieldReader h.fieldValues = some (h, []) := by
  have hfixed : ∀ {n : Nat} (a : FixedBytes n), Json.fixed a ≠ .null := by
    intro n a
    exact nofun
  have hquantity : ∀ {w : Nat} (n : BitVec w), Json.quantity n ≠ .null := by
    intro w n
    exact nofun
  simp only [fieldReader, fieldValues, Json.required_bind (Json.fixed?_fixed _),
    Json.required_bind (Json.quantity?_quantity _), Json.required_bind (Json.bytes?_bytes _),
    Json.optional_bind hfixed Json.fixed?_fixed, Json.optional_bind hquantity
      Json.quantity?_quantity]
  rfl

/-- All fields are texts, which sorting leaves as they are. -/
theorem map_sorted_fieldValues (h : BlockHeader) :
    h.fieldValues.map (Option.map Json.sorted) = h.fieldValues := by
  have hfixed : ∀ {n : Nat}, Json.sorted ∘ (Json.fixed : FixedBytes n → Json) = Json.fixed := rfl
  have hquantity : ∀ {w : Nat}, Json.sorted ∘ (Json.quantity : BitVec w → Json) = Json.quantity :=
    rfl
  simp [fieldValues, hfixed, hquantity]

/-- Headers are read back, whichever of their fields are there. -/
theorem readBack : Json.ReadBack toJson ofJson? := by
  refine .record fieldValues (by decide) (fun _ => rfl) toJson_eq ?_
  intro form hform h
  have hvalues : h.fieldValues.map (Option.map form) = h.fieldValues := by
    rcases hform with rfl | rfl
    · rw [Option.map_id, List.map_id]
    · exact h.map_sorted_fieldValues
  rw [hvalues, fieldReader_fieldValues]

end BlockHeader

/-! ## State proofs and answers of nodes -/

section

open Json.ReadBack

theorem StorageProof.readBack : Json.ReadBack toJson ofJson? := by
  refine .record (fun p => [some (.quantity p.key), some (.bytesList p.nodes)]) (by decide)
    (fun _ => rfl) (fun _ => rfl) ?_
  intro form hform p
  simp only [List.map_cons, List.map_nil, Option.map_some,
    Json.required_bind ((quantity 256).eq_some hform _),
    Json.required_bind (bytesList.eq_some hform _)]
  rfl

/-- State proofs are read back. -/
theorem StateProof.readBack : Json.ReadBack toJson ofJson? := by
  refine .record (fun p => [some (.bytesList p.accountNodes),
    some (.arr (p.storageProofs.map (·.toJson))), some (.fixed p.storageRoot)]) (by decide)
    (fun _ => rfl) (fun _ => rfl) ?_
  intro form hform p
  simp only [List.map_cons, List.map_nil, Option.map_some,
    Json.required_bind (bytesList.eq_some hform _),
    Json.required_bind (StorageProof.readBack.list.eq_some hform _),
    Json.required_bind ((fixed 32).eq_some hform _)]
  rfl

theorem SlotResponse.readBack : Json.ReadBack toJson ofJson? := by
  refine .record (fun r => [some (.quantity r.key), some (.quantity r.value),
    some (.bytesList r.proof)]) (by decide) (fun _ => rfl) (fun _ => rfl) ?_
  intro form hform r
  simp only [List.map_cons, List.map_nil, Option.map_some,
    Json.required_bind ((quantity 256).eq_some hform _),
    Json.required_bind (bytesList.eq_some hform _)]
  rfl

/-- Answers of nodes are read back. -/
theorem ProofResponse.readBack : Json.ReadBack toJson ofJson? := by
  refine .record (fun r => [some (.fixed r.address), some (.quantity r.balance),
    some (.fixed r.codeHash), some (.quantity r.nonce), some (.fixed r.storageHash),
    some (.bytesList r.accountProof), some (.arr (r.storageProof.map (·.toJson)))]) (by decide)
    (fun _ => rfl) (fun _ => rfl) ?_
  intro form hform r
  simp only [List.map_cons, List.map_nil, Option.map_some,
    Json.defaulted_bind ((fixed 20).eq_some hform _),
    Json.required_bind ((quantity 256).eq_some hform _),
    Json.required_bind ((fixed 32).eq_some hform _),
    Json.required_bind ((quantity 64).eq_some hform _),
    Json.required_bind (bytesList.eq_some hform _),
    Json.required_bind (SlotResponse.readBack.list.eq_some hform _)]
  rfl

end

end StorageGateway
