import StorageGateway.Layout.Packed
import StorageGateway.Proofs.RlpExact

/-!
# Packed nodes are taken apart at the ends of their items

Packed nodes carry no separators. Where one ends is told by its own header, so what is unpacked is
what was packed exactly if every node is one whole item.

## Main statements

* `Packed.takeItem_eq_ok_iff`, `Packed.takeItems_eq_ok_iff` — items off the front.
* `Packed.pack_eq_ok_iff`, `Packed.eq_encoding_of_pack` — which lists can be packed.
* `Packed.unpack_eq_ok_iff` — unpacking is the inverse of packing, for whole items.
* `Packed.packing_exact` — packing is a bijection on whole items.
-/

namespace StorageGateway.Packed

variable {nodes account storage : List Bytes}

/-! ## Items -/

/-- An item is taken where it stands. -/
theorem takeItem_eq_ok_iff {buffer item rest : Bytes} :
    takeItem buffer = .ok (item, rest) ↔ Rlp.IsItem item ∧ buffer = item ++ rest := by
  rw [Rlp.isItem_iff]
  constructor
  · intro htake
    obtain ⟨⟨h, r⟩, hread, htake⟩ := Except.bind_eq_ok_iff.1 htake
    obtain ⟨hleads, hp⟩ := Rlp.Header.read_eq_ok_iff.1 hread
    cases htake
    have htake : (r.take h.payloadLength).length = h.payloadLength := by
      rw [List.length_take]
      omega
    refine ⟨⟨h, r.take h.payloadLength, ?_, htake⟩, by rw [List.take_append_drop]⟩
    cases hleads with
    | bare b t hb =>
      have hone : (b :: t).length - (b :: t).length + 1 = 1 := by omega
      rw [hone]
      exact .bare b [] hb
    | written _ _ hl hc =>
      have hlen : (h.encode ++ r).length - r.length = h.encode.length := by simp
      rw [hlen, List.take_length_add_append]
      refine .written h _ hl ?_
      intro hlist hone
      obtain ⟨c, t, rfl, hhigh⟩ := hc hlist hone
      exact ⟨c, [], by simp [hone], hhigh⟩
  · intro h
    obtain ⟨⟨h, payload, hleads, hp⟩, rfl⟩ := h
    have hread := Rlp.Header.read_eq_ok_iff.2 ⟨hleads.append rest, by simp [hp]⟩
    have hlen : (item ++ rest).length - (payload ++ rest).length + h.payloadLength =
        item.length := by
      have hle := hleads.length_le
      simp only [List.length_append]
      omega
    simp only [takeItem, hread, bind, Except.bind, hlen, List.take_left, List.drop_left]

/-- Items are taken where they stand one after the other. -/
theorem takeItems_eq_ok_iff {count : Nat} {buffer rest : Bytes} :
    takeItems count buffer = .ok (nodes, rest) ↔
      nodes.length = count ∧ (∀ node ∈ nodes, Rlp.IsItem node) ∧
        buffer = nodes.flatten ++ rest := by
  induction count generalizing nodes buffer rest with
  | zero =>
    rw [takeItems, Rlp.pure_apply, List.length_eq_zero_iff]
    constructor
    · intro h
      cases h
      exact ⟨rfl, nofun, rfl⟩
    · intro h
      obtain ⟨rfl, -, rfl⟩ := h
      rfl
  | succ count ih =>
    simp only [takeItems, Rlp.bind_eq_ok_iff, takeItem_eq_ok_iff, ih, Rlp.pure_apply]
    constructor
    · intro h
      obtain ⟨item, r, ⟨hitem, rfl⟩, items, r', ⟨rfl, hitems, rfl⟩, h⟩ := h
      cases h
      exact ⟨rfl, List.forall_mem_cons.2 ⟨hitem, hitems⟩, by simp⟩
    · intro h
      obtain ⟨hlen, hitems, rfl⟩ := h
      cases nodes with
      | nil => cases hlen
      | cons item items =>
        obtain ⟨hitem, hitems⟩ := List.forall_mem_cons.1 hitems
        exact ⟨item, items.flatten ++ rest, ⟨hitem, by simp⟩, items, rest,
          ⟨by simpa using hlen, hitems, rfl⟩, rfl⟩

/-! ## Lists -/

/-- A list is packed if one byte can tell its count. -/
theorem packList_eq_ok_iff {front : Bytes} :
    packList nodes = .ok front ↔
      nodes.length ≤ maxNodes ∧ front = UInt8.ofNat nodes.length :: nodes.flatten := by
  rw [packList]
  by_cases h : nodes.length ≤ maxNodes <;> simp [h, eq_comm]

theorem eq_encoding_of_packList {e : Error} (h : packList nodes = .error e) :
    ∃ reason, e = .encoding reason := by
  rw [packList] at h
  by_cases hn : nodes.length ≤ maxNodes
  · rw [if_pos hn] at h
    cases h
  · rw [if_neg hn] at h
    cases h
    exact ⟨_, rfl⟩

/-- A list is unpacked where it stands packed. -/
theorem unpackList_eq_ok_iff {data rest : Bytes} :
    unpackList data = .ok (nodes, rest) ↔
      (∀ node ∈ nodes, Rlp.IsItem node) ∧ ∃ front, packList nodes = .ok front ∧
        data = front ++ rest := by
  cases data with
  | nil =>
    constructor
    · intro h
      cases h
    · intro h
      obtain ⟨-, front, hfront, h⟩ := h
      rw [(packList_eq_ok_iff.1 hfront).2] at h
      cases h
  | cons count bs =>
    rw [unpackList, Result.ofRlp, Except.mapError_eq_ok_iff, takeItems_eq_ok_iff]
    have hcount := count.toNat_lt
    constructor
    · intro h
      obtain ⟨hlen, hitems, rfl⟩ := h
      have hle : nodes.length ≤ maxNodes := by
        rw [maxNodes]
        omega
      refine ⟨hitems, _, packList_eq_ok_iff.2 ⟨hle, rfl⟩, ?_⟩
      rw [hlen, UInt8.ofNat_toNat, List.cons_append]
    · intro h
      obtain ⟨hitems, front, hfront, h⟩ := h
      obtain ⟨hle, rfl⟩ := packList_eq_ok_iff.1 hfront
      cases h
      simp only [maxNodes] at hle
      have hcount : (UInt8.ofNat nodes.length).toNat = nodes.length := by simp; omega
      exact ⟨hcount.symm, hitems, rfl⟩

/-! ## Both lists -/

/-- The packed form of two lists, if each of them can be packed. -/
theorem pack_eq_ok_iff {data : Bytes} :
    pack account storage = .ok data ↔
      ∃ front back, packList account = .ok front ∧ packList storage = .ok back ∧
        data = front ++ back := by
  simp only [pack, Except.bind_eq_ok_iff, pure, Except.pure, Except.ok.injEq]
  constructor
  · intro h
    obtain ⟨front, hfront, back, hback, rfl⟩ := h
    exact ⟨front, back, hfront, hback, rfl⟩
  · intro h
    obtain ⟨front, back, hfront, hback, rfl⟩ := h
    exact ⟨front, hfront, back, hback, rfl⟩

/-- The packed form: the count of nodes and the nodes, twice. -/
theorem pack_eq_ok_iff_eq_append {data : Bytes} :
    pack account storage = .ok data ↔
      account.length ≤ maxNodes ∧ storage.length ≤ maxNodes ∧
        data = UInt8.ofNat account.length :: account.flatten ++
          UInt8.ofNat storage.length :: storage.flatten := by
  simp only [pack_eq_ok_iff, packList_eq_ok_iff]
  constructor
  · intro h
    obtain ⟨_, _, ⟨haccount, rfl⟩, ⟨hstorage, rfl⟩, rfl⟩ := h
    exact ⟨haccount, hstorage, rfl⟩
  · intro h
    obtain ⟨haccount, hstorage, rfl⟩ := h
    exact ⟨_, _, ⟨haccount, rfl⟩, ⟨hstorage, rfl⟩, rfl⟩

theorem exists_pack_iff :
    (∃ data, pack account storage = .ok data) ↔
      account.length ≤ maxNodes ∧ storage.length ≤ maxNodes := by
  simp only [pack_eq_ok_iff_eq_append]
  constructor
  · intro h
    obtain ⟨_, haccount, hstorage, -⟩ := h
    exact ⟨haccount, hstorage⟩
  · intro h
    exact ⟨_, h.1, h.2, rfl⟩

theorem exists_pack_error_iff :
    (∃ e, pack account storage = .error e) ↔
      maxNodes < account.length ∨ maxNodes < storage.length := by
  have hok : (∃ data, pack account storage = .ok data) ↔ _ := exists_pack_iff
  cases hpack : pack account storage with
  | error e =>
    have hnot : ¬ (account.length ≤ maxNodes ∧ storage.length ≤ maxNodes) := by
      rw [← hok, hpack]
      exact nofun
    exact ⟨fun _ => by omega, fun _ => ⟨e, rfl⟩⟩
  | ok data =>
    have hle := hok.1 ⟨data, hpack⟩
    refine ⟨nofun, fun h => ?_⟩
    omega

/-- Packing fails with an encoding error. -/
theorem eq_encoding_of_pack {e : Error} (h : pack account storage = .error e) :
    ∃ reason, e = .encoding reason := by
  rcases Except.bind_eq_error_iff.1 h with h | ⟨front, -, h⟩
  · exact eq_encoding_of_packList h
  rcases Except.bind_eq_error_iff.1 h with h | ⟨back, -, h⟩
  · exact eq_encoding_of_packList h
  · cases h

/-- What is unpacked are whole items, and they pack to what they were unpacked from. -/
theorem unpack_eq_ok_iff {data : Bytes} :
    unpack data = .ok (account, storage) ↔
      (∀ node ∈ account ++ storage, Rlp.IsItem node) ∧ pack account storage = .ok data := by
  rw [List.forall_mem_append, pack_eq_ok_iff]
  constructor
  · intro h
    obtain ⟨⟨nodes, r⟩, haccount, hrest⟩ := Except.bind_eq_ok_iff.1 h
    obtain ⟨⟨nodes', r'⟩, hstorage, hend⟩ := Except.bind_eq_ok_iff.1 hrest
    obtain ⟨hitems, front, hfront, rfl⟩ := unpackList_eq_ok_iff.1 haccount
    obtain ⟨hitems', back, hback, rfl⟩ := unpackList_eq_ok_iff.1 hstorage
    cases r' with
    | cons b bs => cases hend
    | nil =>
      cases hend
      exact ⟨⟨hitems, hitems'⟩, front, back, hfront, hback, by rw [List.append_nil]⟩
  · intro h
    obtain ⟨⟨hitems, hitems'⟩, front, back, hfront, hback, rfl⟩ := h
    have haccount : unpackList (front ++ back) = .ok (account, back) :=
      unpackList_eq_ok_iff.2 ⟨hitems, front, hfront, rfl⟩
    have hstorage : unpackList back = .ok (storage, []) :=
      unpackList_eq_ok_iff.2 ⟨hitems', back, hback, (List.append_nil back).symm⟩
    simp only [unpack, haccount, hstorage, bind, Except.bind]
    rfl

/-- **Packing is a bijection on whole items.** Two lists of at most 255 whole items each are packed
and unpacked again, other lists are not; whatever is unpacked are whole items, and it packs to what
it was unpacked from. Packing fails exactly if one of the lists has more nodes than one byte can
count, and says that they do not fit. -/
theorem packing_exact (account storage : List Bytes) :
    ((∃ data, pack account storage = .ok data ∧ unpack data = .ok (account, storage)) ↔
      account.length ≤ 255 ∧ storage.length ≤ 255 ∧
        ∀ node ∈ account ++ storage, Rlp.IsItem node) ∧
    (∀ data, unpack data = .ok (account, storage) ↔
      (∀ node ∈ account ++ storage, Rlp.IsItem node) ∧ pack account storage = .ok data) ∧
    (∀ data, pack account storage = .ok data ↔
      account.length ≤ 255 ∧ storage.length ≤ 255 ∧
        data = UInt8.ofNat account.length :: account.flatten ++
          UInt8.ofNat storage.length :: storage.flatten) ∧
    ((∃ e, pack account storage = .error e) ↔ 255 < account.length ∨ 255 < storage.length) ∧
    ∀ e, pack account storage = .error e → ∃ reason, e = .encoding reason := by
  refine ⟨?_, fun data => unpack_eq_ok_iff, fun data => pack_eq_ok_iff_eq_append,
    exists_pack_error_iff, fun e => eq_encoding_of_pack⟩
  constructor
  · intro h
    obtain ⟨data, hpack, hunpack⟩ := h
    obtain ⟨haccount, hstorage⟩ := exists_pack_iff.1 ⟨data, hpack⟩
    exact ⟨haccount, hstorage, (unpack_eq_ok_iff.1 hunpack).1⟩
  · intro h
    obtain ⟨haccount, hstorage, hitems⟩ := h
    obtain ⟨data, hpack⟩ := exists_pack_iff.2 ⟨haccount, hstorage⟩
    exact ⟨data, hpack, unpack_eq_ok_iff.2 ⟨hitems, hpack⟩⟩

theorem packing_exact_items :
    pack [Rlp.list [], Rlp.string [5]] [Rlp.string []] = .ok [2, 0xc0, 5, 1, 0x80] ∧
      unpack [2, 0xc0, 5, 1, 0x80] = .ok ([Rlp.list [], Rlp.string [5]], [Rlp.string []]) ∧
      ∃ reason, pack (List.replicate 256 [5]) [] = .error (.encoding reason) := by
  have hlong : 255 < (List.replicate 256 ([5] : Bytes)).length := by
    rw [List.length_replicate]
    decide
  have hitems : ∀ node ∈ [Rlp.list [], Rlp.string [5]] ++ [Rlp.string []], Rlp.IsItem node := by
    intro node hnode
    have hnode : node = Rlp.list [] ∨ node = Rlp.string [5] ∨ node = Rlp.string [] := by
      simpa using hnode
    rcases hnode with rfl | rfl | rfl
    · exact Rlp.isItem_list (by decide)
    · exact Rlp.isItem_string (by decide)
    · exact Rlp.isItem_string (by decide)
  have hpack : pack [Rlp.list [], Rlp.string [5]] [Rlp.string []] = .ok [2, 0xc0, 5, 1, 0x80] := rfl
  obtain ⟨-, hunpack, -⟩ := packing_exact [Rlp.list [], Rlp.string [5]] [Rlp.string []]
  obtain ⟨-, -, -, hfails, hencoding⟩ := packing_exact (List.replicate 256 [5]) []
  obtain ⟨e, he⟩ := hfails.2 (.inl hlong)
  obtain ⟨reason, rfl⟩ := hencoding e he
  exact ⟨hpack, (hunpack _).2 ⟨hitems, hpack⟩, reason, he⟩

end StorageGateway.Packed
