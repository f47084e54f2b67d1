import StorageGateway.Layout.Decoded
import StorageGateway.Proofs.Abi
import StorageGateway.Proofs.Rlp

/-!
# Proof layouts do not overlap

A byte string is a proof for at most one chain kind. The layouts differ in their sixth word, which
is an offset in some of them and a length in another, and where one layout has a number another has
the first bytes of a header, of packed nodes or of a node list, none of which can be zero.

## Main definitions

* `Layout.kindOf` — the only kind that a byte string can be a proof for.

## Main statements

* `Layout.kindOf_of_decode` — the kind of an accepted proof can be read off its bytes.
* `DecodedProof.kind_unique` — no byte string is a proof for two kinds.
-/

namespace StorageGateway

namespace Abi

/-! ## Words of an encoding -/

/-- What follows the first `count` words. -/
def after (count : Nat) (data : Bytes) : Bytes := data.drop (32 * count)

@[simp] theorem after_zero (data : Bytes) : after 0 data = data := rfl

theorem after_succ_append {w : Bytes} (hw : w.length = 32) (count : Nat) (rest : Bytes) :
    after (count + 1) (w ++ rest) = after count rest := by
  rw [after, Nat.mul_succ, Nat.add_comm, ← List.drop_drop, List.drop_left' hw, after]

theorem after_add (m n : Nat) (data : Bytes) : after (m + n) data = after n (after m data) := by
  rw [after, after, after, List.drop_drop, Nat.mul_add]

/-- What follows the word of a number. -/
@[simp] theorem after_sizeWord (count n : Nat) (rest : Bytes) :
    after (count + 1) (sizeWord n ++ rest) = after count rest :=
  after_succ_append (length_sizeWord n) count rest

/-- The word of a number starts with zeros if the number leaves them. -/
theorem exists_sizeWord_eq {n : Nat} (h : n < 256 ^ 30) :
    ∃ b bs, sizeWord n = 0 :: 0 :: b :: bs := by
  have hhigh : n / 256 ^ 30 = 0 := Nat.div_eq_of_lt h
  have hw : sizeWord n = [0, 0] ++ BigEndian.encode 30 n := by
    rw [sizeWord, show 32 = 2 + 30 from rfl, BigEndian.encode_add, hhigh]
    rfl
  cases hl : BigEndian.encode 30 n with
  | nil =>
    have := BigEndian.length_encode 30 n
    rw [hl] at this
    cases this
  | cons b bs => exact ⟨b, bs, by rw [hw, hl]; rfl⟩

/-! ## Sequences that start with words -/

section Words

variable (ws : List Word) (parts : List Part)

theorem heads_words (offset : Nat) :
    heads offset (ws.map Codec.word.part ++ parts) =
      ws.flatMap (·.toList) ++ heads offset parts := by
  induction ws with
  | nil => rfl
  | cons w ws ih =>
    have htail : (Codec.word.part w).tail = [] := rfl
    have hhead : (Codec.word.part w).head offset = w.toList := rfl
    simp only [List.map_cons, List.cons_append, heads, htail, hhead, List.length_nil,
      Nat.add_zero, ih, List.flatMap_cons, List.append_assoc]

theorem headsSize_words :
    headsSize (ws.map Codec.word.part ++ parts) = 32 * ws.length + headsSize parts := by
  induction ws with
  | nil => simp
  | cons w ws ih =>
    have hw : (Codec.word.part w).headSize = 32 := w.length_toList
    rw [List.map_cons, List.cons_append, headsSize_cons, hw, ih, List.length_cons]
    omega

theorem tails_words : tails (ws.map Codec.word.part ++ parts) = tails parts := by
  rw [tails, List.flatMap_append, List.flatMap_map]
  simp [Codec.part, Codec.word, Part.tail]

theorem after_words (rest : Bytes) :
    after ws.length (ws.flatMap (·.toList) ++ rest) = rest := by
  induction ws with
  | nil => rfl
  | cons w ws ih =>
    rw [List.length_cons, List.flatMap_cons, List.append_assoc,
      after_succ_append w.length_toList, ih]

/-- Words alone are encoded as they are. -/
theorem assemble_words : assemble (ws.map Codec.word.part) = ws.flatMap (·.toList) := by
  have hh := heads_words ws [] (headsSize (ws.map Codec.word.part))
  have ht := tails_words ws []
  rw [List.append_nil] at hh ht
  rw [assemble, hh]
  change _ ++ tails (ws.map Codec.word.part) = _
  rw [ht]
  simp [heads, tails]

/-- Words and a byte string: the byte string comes last, after its offset and its length. -/
theorem assemble_words_bytes (bs : Bytes) :
    ∃ rest, assemble (ws.map Codec.word.part ++ [Codec.bytes.part bs]) =
      ws.flatMap (·.toList) ++ (sizeWord (32 * ws.length + 32) ++
        (sizeWord bs.length ++ (bs ++ rest))) := by
  refine ⟨List.replicate ((32 - bs.length % 32) % 32) 0, ?_⟩
  have hsize : headsSize [Codec.bytes.part bs] = 32 := rfl
  rw [assemble, heads_words, headsSize_words, hsize]
  change _ ++ tails (ws.map Codec.word.part ++ [Codec.bytes.part bs]) = _
  rw [tails_words]
  simp [heads, tails, Codec.bytes, Codec.part, Part.head, Part.tail]

end Words

/-- Two values that are reached through offsets. -/
theorem assemble_pair (x y : Bytes) :
    assemble [⟨true, x⟩, ⟨true, y⟩] =
      sizeWord 64 ++ (sizeWord (64 + x.length) ++ (x ++ y)) := by
  have hsize : headsSize [⟨true, x⟩, ⟨true, y⟩] = 64 := rfl
  simp [assemble, hsize, heads, Part.head, Part.tail]

/-- The two values come after their offsets. -/
theorem encode_pair {α β : Type} {c : Codec α} {d : Codec β} (hc : c.isDynamic = true)
    (hd : d.isDynamic = true) (a : α) (b : β) :
    ∃ x, (Fields.cons c (Fields.single d)).encode (a, b) =
      sizeWord 64 ++ (sizeWord x ++ (c.encode a ++ d.encode b)) := by
  have hparts : (Fields.cons c (Fields.single d)).parts (a, b) =
      [⟨true, c.encode a⟩, ⟨true, d.encode b⟩] := by
    simp [Fields.cons, Fields.single, Codec.part, hc, hd]
  rw [Fields.encode, hparts]
  exact ⟨_, assemble_pair _ _⟩

end Abi

open Abi

/-! ## The bytes of each layout -/

namespace Layout

variable {data : Bytes} {name : String}

/-- A witness of words and a byte string, in front of the nodes. -/
theorem after_bytesWitness {α β : Type} {f : Fields α} {c : Codec β} (hf : f.isDynamic = true)
    (hc : c.isDynamic = true) {a : α} {b : β} {ws : List Word} {bs : Bytes}
    (hparts : f.parts a = ws.map Codec.word.part ++ [Codec.bytes.part bs]) :
    ∃ rest, after (2 + ws.length)
        ((Fields.cons (Codec.tuple f) (Fields.single c)).encode (a, b)) =
      sizeWord (32 * ws.length + 32) ++ (sizeWord bs.length ++ (bs ++ rest)) := by
  obtain ⟨x, he⟩ := encode_pair (c := Codec.tuple f) hf hc a b
  obtain ⟨rest, hw⟩ := assemble_words_bytes ws bs
  have hw : (Codec.tuple f).encode a = _ := (congrArg assemble hparts).trans hw
  refine ⟨rest ++ c.encode b, ?_⟩
  rw [he, after_add, after_sizeWord, after_sizeWord, after_zero, hw]
  simp only [List.append_assoc, after_words]

theorem after_arbitrum {w : Word × Word × Word × Bytes} {nodes : Bytes × List Bytes}
    (h : arbitrum.decode name data = .ok (w, nodes)) :
    ∃ n rest, after 5 data = sizeWord 128 ++ (sizeWord n ++ rest) ∧ n < limit64 := by
  obtain ⟨version, sendRoot, nodeIndex, header⟩ := w
  have hyields := Fields.Yields.cons
    (.tuple (.cons (.any .word) (.cons (.any .word) (.cons (.any .uint64) (.single .bytes)))))
    (.single (.any JoinedNodes.codec))
  have hl := (hyields.of_decode h).1.2.2.2
  have hparts : (Fields.cons .word (.cons .word (.cons .uint64 (.single .bytes)))).parts
      (version, sendRoot, nodeIndex, header) =
        [version, sendRoot, nodeIndex].map Codec.word.part ++ [Codec.bytes.part header] := rfl
  obtain ⟨rest, hr⟩ := after_bytesWitness rfl rfl hparts (c := JoinedNodes.codec) (b := nodes)
  exact ⟨_, header ++ rest, Fields.encode_of_decode h ▸ hr, hl⟩

theorem after_scroll {w : Word × Word × Bytes} {nodes : List Bytes × List (List Bytes)}
    (h : scroll.decode name data = .ok (w, nodes)) :
    ∃ rest, after 5 data = sizeWord w.2.2.length ++ (w.2.2 ++ rest) ∧
      w.2.2.length < limit64 := by
  obtain ⟨index, key, packed⟩ := w
  have hyields := Fields.Yields.cons
    (.tuple (.cons (.any .word) (.cons (.any .word) (.single .bytes))))
    (.single (.any NodeLists.codec))
  have hl := (hyields.of_decode h).1.2.2
  have hparts : (Fields.cons .word (.cons .word (.single .bytes))).parts (index, key, packed) =
      [index, key].map Codec.word.part ++ [Codec.bytes.part packed] := rfl
  obtain ⟨rest, hr⟩ := after_bytesWitness rfl rfl hparts (c := NodeLists.codec) (b := nodes)
  have hr := congrArg (after 1) (Fields.encode_of_decode h ▸ hr)
  rw [← after_add, after_sizeWord, after_zero] at hr
  exact ⟨rest, hr, hl⟩

theorem after_l1 {w : Word × Bytes} {nodes : List Bytes × List (List Bytes)}
    (h : l1.decode name data = .ok (w, nodes)) : ∃ rest, after 5 data = w.2 ++ rest := by
  obtain ⟨number, header⟩ := w
  have hparts : (Fields.cons .word (.single .bytes)).parts (number, header) =
      [number].map Codec.word.part ++ [Codec.bytes.part header] := rfl
  obtain ⟨rest, hr⟩ := after_bytesWitness rfl rfl hparts (c := NodeLists.codec) (b := nodes)
  have hr := congrArg (after 2) (Fields.encode_of_decode h ▸ hr)
  rw [← after_add, after_sizeWord, after_sizeWord, after_zero] at hr
  exact ⟨rest, hr⟩

/-- A witness of an index and an output root, in front of the nodes. -/
theorem after_indexedOutput {α : Type} {c : Codec α} (hc : c.isDynamic = true)
    (w : Word × Word × Word × Word × Word) (nodes : α) :
    after 5 ((Fields.cons indexedOutput (Fields.single c)).encode (w, nodes)) =
      sizeWord 192 ++ c.encode nodes := by
  obtain ⟨index, version, stateRoot, storageRoot, blockhash⟩ := w
  have houtput : outputRoot.part (version, stateRoot, storageRoot, blockhash) =
      ⟨false, [version, stateRoot, storageRoot, blockhash].flatMap (·.toList)⟩ := by
    rw [← assemble_words]
    rfl
  have hwitness : indexedOutput.encode (index, version, stateRoot, storageRoot, blockhash) =
      [index, version, stateRoot, storageRoot, blockhash].flatMap (·.toList) := by
    have hparts : indexedOutput.encode (index, version, stateRoot, storageRoot, blockhash) =
      assemble [Codec.word.part index,
        outputRoot.part (version, stateRoot, storageRoot, blockhash)] := rfl
    rw [hparts, houtput]
    simp [assemble, heads, Codec.word, Codec.part, Part.head, Part.tail]
  have hall : (Fields.cons indexedOutput (Fields.single c)).encode
      ((index, version, stateRoot, storageRoot, blockhash), nodes) =
        [index, version, stateRoot, storageRoot, blockhash].flatMap (·.toList) ++
          (sizeWord 192 ++ c.encode nodes) := by
    have hparts : (Fields.cons indexedOutput (Fields.single c)).parts
        ((index, version, stateRoot, storageRoot, blockhash), nodes) =
          [⟨false, indexedOutput.encode (index, version, stateRoot, storageRoot, blockhash)⟩,
            ⟨true, c.encode nodes⟩] := by
      simp [Fields.cons, Fields.single, Codec.part, hc]
      rfl
    rw [Fields.encode, hparts, hwitness]
    simp [assemble, heads, headsSize, Part.head, Part.tail, Part.headSize]
  rw [hall]
  exact after_words [index, version, stateRoot, storageRoot, blockhash] _

theorem after_outputOracle {w : Word × Word × Word × Word × Word} {nodes : Bytes × List Bytes}
    (h : outputOracle.decode name data = .ok (w, nodes)) :
    ∃ x n rest, after 5 data = sizeWord 192 ++ (sizeWord 64 ++ (sizeWord x ++ (sizeWord n ++
      (nodes.1 ++ rest)))) := by
  obtain ⟨account, storage⟩ := nodes
  obtain ⟨x, hn⟩ := encode_pair (c := .bytes) (d := .array .bytes) rfl rfl account storage
  have hn : JoinedNodes.codec.encode (account, storage) = _ := hn
  have ha := after_indexedOutput (c := JoinedNodes.codec) rfl w (account, storage)
  have hd := Fields.encode_of_decode h ▸ ha
  rw [hn] at hd
  simp only [Codec.bytes, List.append_assoc] at hd
  exact ⟨x, _, _, hd⟩

theorem headsSize_bytes (as : List Bytes) :
    headsSize (as.map Codec.bytes.part) = 32 * as.length := by
  induction as with
  | nil => rfl
  | cons a as ih =>
    have ha : (Codec.bytes.part a).headSize = 32 := rfl
    rw [List.map_cons, headsSize_cons, ha, ih, List.length_cons]
    omega

/-- An array of byte strings starts with its count and with the offset of its first element. -/
theorem encode_array_bytes {as : List Bytes} (h : as ≠ []) :
    ∃ rest, Codec.bytes.array.encode as =
      sizeWord as.length ++ (sizeWord (32 * as.length) ++ rest) := by
  obtain ⟨a, as, rfl⟩ := List.exists_cons_of_ne_nil h
  have hhead : ∀ offset, (Codec.bytes.part a).head offset = sizeWord offset := by
    intro offset
    rfl
  simp only [Codec.array, assemble, headsSize_bytes]
  simp only [List.map_cons, heads, hhead, List.append_assoc]
  exact ⟨_, rfl⟩

theorem after_disputeGame {w : Word × Word × Word × Word × Word}
    {nodes : List Bytes × List (List Bytes)}
    (h : disputeGame.decode name data = .ok (w, nodes)) :
    ∃ x n m rest, after 5 data = sizeWord 192 ++ (sizeWord 64 ++ (sizeWord x ++ (sizeWord n ++
      (sizeWord m ++ rest)))) ∧ m < 256 ^ 30 := by
  obtain ⟨account, storage⟩ := nodes
  have hyields := Fields.Yields.cons (.any indexedOutput)
    (.single (.tuple (.cons (.array .bytes) (.single (.array (.array .bytes))))))
  obtain ⟨-, haccount, hstorage⟩ := hyields.of_decode h
  simp only [limit64] at haccount hstorage
  obtain ⟨x, hn⟩ := encode_pair (c := .array .bytes) (d := .array (.array .bytes)) rfl rfl account
    storage
  have hn : NodeLists.codec.encode (account, storage) = _ := hn
  have ha := after_indexedOutput (c := NodeLists.codec) rfl w (account, storage)
  have hd := Fields.encode_of_decode h ▸ ha
  rw [hn] at hd
  by_cases hnil : account = []
  · subst hnil
    refine ⟨x, 0, storage.length, _, hd, by omega⟩
  · obtain ⟨rest, hr⟩ := encode_array_bytes hnil
    rw [hr] at hd
    simp only [List.append_assoc] at hd
    exact ⟨x, _, 32 * account.length, _, hd, by omega⟩

/-! ## The kind of a proof -/

/-- The only kind that a byte string can be a proof for. The sixth word tells most kinds apart: it
is an offset of 128 or 192 bytes, or the length of packed nodes, or starts a block header. Packed
nodes do not start with two zero bytes unless there is nothing else to them, and joined nodes do
not start with one. -/
def kindOf (data : Bytes) : ChainKind :=
  match readSize (after 5 data) with
  | .error _ => .l1
  | .ok (n, rest) =>
    if rest.take 2 ≠ [0, 0] then .scroll
    else if n = 128 then .arbitrum
    else if n = 192 then
      if (after 3 rest).head? = some 0 then .opDisputeGame else .opOutputOracle
    else .scroll

theorem kindOf_of_word {n : Nat} {rest : Bytes} (h : after 5 data = sizeWord n ++ rest)
    (hn : n < limit64) :
    kindOf data =
      if rest.take 2 ≠ [0, 0] then .scroll
      else if n = 128 then .arbitrum
      else if n = 192 then
        if (after 3 rest).head? = some 0 then .opDisputeGame else .opOutputOracle
      else .scroll := by
  rw [kindOf, readSize_eq_ok_iff.2 ⟨hn, h⟩]

/-- No number starts with a byte other than zero. -/
theorem kindOf_of_head {b : UInt8} {rest : Bytes} (h : after 5 data = b :: rest) (hb : b ≠ 0) :
    kindOf data = .l1 := by
  cases hr : readSize (after 5 data) with
  | error e => rw [kindOf, hr]
  | ok r =>
    obtain ⟨hn, hw⟩ := readSize_eq_ok_iff.1 hr
    unfold limit64 at hn
    obtain ⟨c, cs, hz⟩ := exists_sizeWord_eq (n := r.1) (by omega)
    rw [h, hz] at hw
    cases hw
    exact absurd rfl hb

end Layout

/-! ### What is inside a witness -/

/-- A header starts with a byte other than zero. -/
theorem BlockHeader.exists_of_ofBytes {bs : Bytes} {header : BlockHeader}
    (h : BlockHeader.ofBytes bs = .ok header) : ∃ b rest, bs = b :: rest ∧ b ≠ 0 := by
  rw [ofBytes, Result.ofRlp, Except.mapError_eq_ok_iff] at h
  cases hr : BlockHeader.read bs with
  | error e =>
    rw [hr] at h
    cases h
  | ok r =>
    obtain ⟨n, rest, hn, -⟩ := Rlp.bind_eq_ok_iff.1 hr
    exact Rlp.exists_of_readListHeader hn

/-- Joined nodes start with a byte other than zero. -/
theorem JoinedNodes.exists_of_splitList {bs : Bytes} {nodes : List Bytes}
    (h : splitList bs = .ok nodes) : ∃ b rest, bs = b :: rest ∧ b ≠ 0 := by
  obtain ⟨r, hr, -⟩ := Except.bind_eq_ok_iff.1 h
  obtain ⟨n, rest, hn, -⟩ := Rlp.bind_eq_ok_iff.1 hr
  exact Rlp.exists_of_readListHeader hn

/-- Packed nodes that start with two zero bytes are no nodes at all, and nothing follows. -/
theorem Packed.length_le_of_unpack {packed rest : Bytes} {nodes : List Bytes × List Bytes}
    (h : unpack packed = .ok nodes) (hz : (packed ++ rest).take 2 = [0, 0]) :
    packed.length ≤ 2 := by
  have hlist : ∀ rest, unpackList (0 :: rest) = .ok ([], rest) := by
    intro rest
    rfl
  match packed, h with
  | [], _ => simp
  | [_], _ => simp
  | a :: b :: bs, h =>
    simp only [List.cons_append, List.take_succ_cons, List.take_zero, List.cons.injEq,
      and_true] at hz
    obtain ⟨rfl, rfl⟩ := hz
    simp only [unpack, hlist, bind, Except.bind] at h
    cases bs with
    | nil => simp
    | cons c cs => cases h

namespace DecodedProof

theorem exists_of_decode {kind : ChainKind} {data : Bytes} {d : DecodedProof}
    (h : decode kind data = .ok d) :
    ∃ witness nodes, Layout.decode kind data = .ok (witness, nodes) ∧
      nodes.lists = .ok d.nodes ∧ witness.anchor = .ok d.anchor := by
  obtain ⟨⟨witness, nodes⟩, hw, h⟩ := Except.bind_eq_ok_iff.1 h
  obtain ⟨lists, hl, h⟩ := Except.bind_eq_ok_iff.1 h
  obtain ⟨anchor, ha, h⟩ := Except.bind_eq_ok_iff.1 h
  cases h
  exact ⟨witness, nodes, Except.mapError_eq_ok_iff.1 hw, hl, ha⟩

/-- The kind of an accepted proof can be read off its bytes. -/
theorem kindOf_of_decode {kind : ChainKind} {data : Bytes} {d : DecodedProof}
    (h : decode kind data = .ok d) : Layout.kindOf data = kind := by
  obtain ⟨witness, nodes, hw, hl, ha⟩ := exists_of_decode h
  have h192 : 192 < limit64 := by decide
  have h64 : 64 < 256 ^ 30 := by decide
  cases kind with
  | arbitrum =>
    obtain ⟨⟨w, t⟩, hd, -⟩ := Except.bind_eq_ok_iff.1 hw
    obtain ⟨n, rest, h5, hn⟩ := Layout.after_arbitrum hd
    unfold limit64 at hn
    obtain ⟨b, bs, hz⟩ := exists_sizeWord_eq (n := n) (by omega)
    rw [Layout.kindOf_of_word h5 (by decide), hz]
    rfl
  | opOutputOracle =>
    obtain ⟨⟨w, t⟩, hd, h⟩ := Except.bind_eq_ok_iff.1 hw
    cases h
    obtain ⟨x, n, rest, h5⟩ := Layout.after_outputOracle hd
    obtain ⟨account, haccount, -⟩ := Except.bind_eq_ok_iff.1 hl
    obtain ⟨b, bs, hb, hne⟩ :=
      JoinedNodes.exists_of_splitList (Except.mapError_eq_ok_iff.1 haccount)
    have hb : t.1 = b :: bs := hb
    obtain ⟨c, cs, hz⟩ := exists_sizeWord_eq h64
    rw [Layout.kindOf_of_word h5 h192]
    simp only [after_sizeWord, after_zero, hb, List.cons_append, List.head?_cons]
    simp [hz, hne]
  | opDisputeGame =>
    obtain ⟨⟨w, t⟩, hd, -⟩ := Except.bind_eq_ok_iff.1 hw
    obtain ⟨x, n, m, rest, h5, hm⟩ := Layout.after_disputeGame hd
    obtain ⟨c, cs, hz⟩ := exists_sizeWord_eq h64
    obtain ⟨c', cs', hm⟩ := exists_sizeWord_eq hm
    rw [Layout.kindOf_of_word h5 h192]
    simp only [after_sizeWord, after_zero, hm, List.cons_append, List.head?_cons]
    simp [hz]
  | scroll =>
    obtain ⟨⟨w, t⟩, hd, h⟩ := Except.bind_eq_ok_iff.1 hw
    cases h
    obtain ⟨rest, h5, hn⟩ := Layout.after_scroll hd
    obtain ⟨lists, hpacked, -⟩ := Except.bind_eq_ok_iff.1 ha
    rw [Layout.kindOf_of_word h5 hn]
    by_cases hz : (w.2.2 ++ rest).take 2 = [0, 0]
    · have hlen : w.2.2.length ≤ 2 := Packed.length_le_of_unpack hpacked hz
      have h1 : w.2.2.length ≠ 128 := by omega
      have h2 : w.2.2.length ≠ 192 := by omega
      simp [h1, h2]
    · simp [hz]
  | l1 =>
    obtain ⟨⟨w, t⟩, hd, h⟩ := Except.bind_eq_ok_iff.1 hw
    cases h
    obtain ⟨rest, h5⟩ := Layout.after_l1 hd
    obtain ⟨header, hheader, -⟩ := Except.bind_eq_ok_iff.1 ha
    obtain ⟨b, bs, hb, hne⟩ := BlockHeader.exists_of_ofBytes hheader
    have hb : w.2 = b :: bs := hb
    rw [hb] at h5
    exact Layout.kindOf_of_head h5 hne

/-- **No byte string is a proof for two chain kinds.** -/
theorem kind_unique {kind₁ kind₂ : ChainKind} {data : Bytes} {d₁ d₂ : DecodedProof}
    (h₁ : decode kind₁ data = .ok d₁) (h₂ : decode kind₂ data = .ok d₂) : kind₁ = kind₂ := by
  rw [← kindOf_of_decode h₁, kindOf_of_decode h₂]

/-- A proof for a dispute game, decoded as what its bytes say it is. -/
theorem kind_unique_disputeGame :
    ∃ data d, decode (Layout.kindOf data) data = .ok d ∧ decode .opDisputeGame data = .ok d ∧
      Layout.kindOf data = .opDisputeGame := by
  let zeros : Word × Word × Word × Word × Word := (.zero, .zero, .zero, .zero, .zero)
  let d : DecodedProof := ⟨.disputeGame 0 ⟨.zero, .zero, .zero, .zero⟩, ⟨[[1]], [[[2]]]⟩⟩
  refine ⟨Layout.disputeGame.encode (zeros, [[1]], [[[2]]]), d, ?_⟩
  have h₁ : decode (Layout.kindOf (Layout.disputeGame.encode (zeros, [[1]], [[[2]]])))
      (Layout.disputeGame.encode (zeros, [[1]], [[[2]]])) = .ok d := by
    decide +kernel
  have h₂ : decode .opDisputeGame (Layout.disputeGame.encode (zeros, [[1]], [[[2]]])) =
      .ok d := by
    decide +kernel
  exact ⟨h₁, h₂, kind_unique h₁ h₂⟩

end DecodedProof

end StorageGateway
