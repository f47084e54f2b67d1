import Mathlib.Data.List.Infix
import StorageGateway.Proofs.Decoding

/-!
# Proofs can be neither cut nor continued

A reader that has only the front of an input goes the way that it goes on the whole input, as far as
the front reaches: it sees the same offsets, counts and lengths. So it either runs over the end of
the front, or finds the same values, and these encode to the whole input and not to its front. Bytes
behind an input do not change what is read either, and are missing in what is encoded again.

## Main definitions

* `Abi.Cut` — what a reader can say about the front of an input.
* `Codec.Cuts` and `Fields.Cuts` — codecs whose readers say nothing else.

## Main statements

* `Fields.Cuts.decode_front` — fronts of accepted inputs are refused.
* `Fields.Lawful.decode_append` — accepted inputs with bytes behind them are refused.
* `Layout.decode_whole` — the proofs of all chain kinds.
-/

namespace StorageGateway

namespace Abi

variable {α β : Type}

/-! ## Readers on the front of an input -/

/-- What a reader can say about the front of an input in which it finds `a` with `rest` behind it:
the front ends too early, or `a` is there with a front of `rest`. -/
inductive Cut (a : α) (rest : Bytes) : Except Error (α × Bytes) → Prop where
  | overrun : Cut a rest (.error .overrun)
  | same (rest' : Bytes) (h : rest' <+: rest) : Cut a rest (.ok (a, rest'))

/-- A sequence of readers goes on with the front of what is left. -/
theorem Cut.bind {a : α} {rest : Bytes} {b : β} {more : Bytes} {r : Except Error (α × Bytes)}
    {f : α × Bytes → Except Error (β × Bytes)} (hr : Cut a rest r)
    (hf : ∀ rest', rest' <+: rest → Cut b more (f (a, rest'))) : Cut b more (r >>= f) := by
  cases hr with
  | overrun => exact .overrun
  | same rest' h => exact hf rest' h

theorem readWord_of_length_lt {input : Bytes} (h : input.length < 32) :
    readWord input = .error .overrun := by
  have htake : (input.take 32).length ≠ 32 := by
    rw [List.length_take]
    omega
  have hnone : FixedBytes.take? 32 input = none := by
    rw [FixedBytes.take?, FixedBytes.ofList?, dif_neg htake]
    rfl
  rw [readWord, hnone]

theorem cut_readWord {front input rest : Bytes} {w : Word} (hfront : front <+: input)
    (h : readWord input = .ok (w, rest)) : Cut w rest (readWord front) := by
  by_cases hshort : front.length < 32
  · rw [readWord_of_length_lt hshort]
    exact .overrun
  · have hinput := eq_append_of_readWord h
    have hword : w.toList <+: front := by
      refine List.prefix_of_prefix_length_le ?_ hfront (by rw [w.length_toList]; omega)
      rw [hinput]
      exact List.prefix_append _ _
    obtain ⟨rest', rfl⟩ := hword
    rw [readWord_append]
    rw [hinput, List.prefix_append_right_inj] at hfront
    exact .same rest' hfront

theorem cut_readSize {front input rest : Bytes} {n : Nat} (hfront : front <+: input)
    (h : readSize input = .ok (n, rest)) : Cut n rest (readSize front) := by
  obtain ⟨⟨w, rest'⟩, hw, h⟩ := Except.bind_eq_ok_iff.1 h
  refine (cut_readWord hfront hw).bind ?_
  intro cut hcut
  by_cases hn : w.toNat < limit64
  · simp only [hn, if_true, Except.ok.injEq, Prod.mk.injEq] at h ⊢
    obtain ⟨rfl, rfl⟩ := h
    exact .same cut hcut
  · simp only [hn, if_false] at h
    cases h

/-! ## Codecs -/

/-- A codec whose reader, on the front of an input, overruns it or reads as on the whole input. -/
structure Codec.Cuts (c : Codec α) : Prop where
  cut_read : ∀ {front input a rest}, front <+: input → c.read input = .ok (a, rest) →
    Cut a rest (c.read front)

/-- The same for a sequence; offsets then count from the start of a front, too. -/
structure Fields.Cuts (f : Fields α) : Prop where
  cut_read : ∀ {base front input a rest base'}, base' <+: base → front <+: input →
    f.read base input = .ok (a, rest) → Cut a rest (f.read base' front)

namespace Codec.Cuts

variable {c : Codec α} {base base' front input rest : Bytes}

theorem readHead (hc : c.Cuts) {a : α} (hbase : base' <+: base) (hfront : front <+: input)
    (h : c.readHead base input = .ok (a, rest)) : Cut a rest (c.readHead base' front) := by
  rw [Codec.readHead] at h ⊢
  by_cases hd : c.isDynamic
  · rw [if_pos hd] at h ⊢
    obtain ⟨⟨offset, rest'⟩, hsize, h⟩ := Except.bind_eq_ok_iff.1 h
    refine (cut_readSize hfront hsize).bind ?_
    intro cut hcut
    by_cases hover : base'.length < offset
    · simp only [hover, if_true]
      exact .overrun
    · have hle := hbase.length_le
      have hover' : ¬ base.length < offset := by omega
      simp only [hover, hover', if_false] at h ⊢
      obtain ⟨⟨b, more⟩, hread, h⟩ := Except.bind_eq_ok_iff.1 h
      cases h
      exact (hc.cut_read (hbase.drop offset) hread).bind fun _ _ => .same cut hcut
  · rw [if_neg hd] at h ⊢
    exact hc.cut_read hfront h

theorem readMany (hc : c.Cuts) {as : List α} {count : Nat} (hbase : base' <+: base)
    (hfront : front <+: input) (h : c.readMany base count input = .ok (as, rest)) :
    Cut as rest (c.readMany base' count front) := by
  induction count generalizing front input as rest with
  | zero =>
    cases h
    exact .same front hfront
  | succ count ih =>
    obtain ⟨⟨a, input'⟩, ha, h⟩ := Except.bind_eq_ok_iff.1 h
    obtain ⟨⟨as', rest'⟩, has, h⟩ := Except.bind_eq_ok_iff.1 h
    cases h
    refine (hc.readHead hbase hfront ha).bind ?_
    intro cut hcut
    exact (ih hcut has).bind fun cut' hcut' => .same cut' hcut'

theorem word : Codec.word.Cuts := ⟨cut_readWord⟩

theorem uint64 : Codec.uint64.Cuts := ⟨cut_readWord⟩

theorem bytes : Codec.bytes.Cuts := by
  refine ⟨?_⟩
  intro front input bs rest hfront h
  obtain ⟨⟨n, rest'⟩, hsize, h⟩ := Except.bind_eq_ok_iff.1 h
  refine (cut_readSize hfront hsize).bind ?_
  intro cut hcut
  by_cases hover : cut.length < n
  · simp only [hover, if_true]
    exact .overrun
  · obtain ⟨more, rfl⟩ := hcut
    have hover' : ¬ (cut ++ more).length < n := by
      rw [List.length_append]
      omega
    simp only [hover, hover', if_false] at h ⊢
    cases h
    rw [List.take_append_of_le_length (by omega)]
    exact .same _ ((List.prefix_append cut more).drop n)

theorem array (hc : c.Cuts) : c.array.Cuts := by
  refine ⟨?_⟩
  intro front input as rest hfront h
  obtain ⟨⟨n, rest'⟩, hsize, h⟩ := Except.bind_eq_ok_iff.1 h
  refine (cut_readSize hfront hsize).bind ?_
  intro cut hcut
  by_cases hcount : addressable ≤ n * c.footprint
  · simp only [hcount, if_true] at h
    cases h
  · simp only [hcount, if_false] at h ⊢
    exact hc.readMany hcut hcut h

theorem tuple {f : Fields α} (hf : f.Cuts) : (Codec.tuple f).Cuts :=
  ⟨fun hfront h => hf.cut_read hfront hfront h⟩

end Codec.Cuts

namespace Fields

theorem Cuts.single {c : Codec α} (hc : c.Cuts) : (Fields.single c).Cuts := ⟨hc.readHead⟩

theorem Cuts.cons {c : Codec α} {f : Fields β} (hc : c.Cuts) (hf : f.Cuts) :
    (Fields.cons c f).Cuts := by
  refine ⟨?_⟩
  intro base front input ab rest base' hbase hfront h
  obtain ⟨⟨a, input'⟩, ha, h⟩ := Except.bind_eq_ok_iff.1 h
  obtain ⟨⟨b, rest'⟩, hb, h⟩ := Except.bind_eq_ok_iff.1 h
  cases h
  refine (hc.readHead hbase hfront ha).bind ?_
  intro cut hcut
  exact (hf.cut_read hbase hcut hb).bind fun cut' hcut' => .same cut' hcut'

variable {f : Fields α} {name : String} {input front more : Bytes} {a : α}

/-- Values that encode to other bytes than they were read from are refused. -/
theorem decode_of_read_of_ne {rest : Bytes} (hread : f.read input input = .ok (a, rest))
    (hne : f.encode a ≠ input) : f.decode name input = .error .notCanonical := by
  simp only [decode, hread, hne, bind, Except.bind, ne_eq, not_false_eq_true, if_true]
  rfl

/-- The front of an accepted input is refused: it ends too early, or its values encode to more. -/
theorem Cuts.decode_front (hf : f.Cuts) (h : f.decode name input = .ok a)
    (hfront : front <+: input) (hne : front ≠ input) :
    f.decode name front = .error .overrun ∨ f.decode name front = .error .notCanonical := by
  obtain ⟨hencode, -, rest, hread⟩ := decode_eq_ok_iff.1 h
  have hcut := hf.cut_read hfront hfront hread
  cases hr : f.read front front with
  | error e =>
    rw [hr] at hcut
    cases hcut
    left
    simp only [decode, hr]
    rfl
  | ok r =>
    rw [hr] at hcut
    cases hcut
    exact .inr (decode_of_read_of_ne hr (by rw [hencode]; exact hne.symm))

/-- An accepted input with bytes behind it is refused: its values encode to less. -/
theorem Lawful.decode_append (hf : f.Lawful) (h : f.decode name input = .ok a)
    (hl : input.length < Codec.addressable) (hmore : more ≠ []) :
    f.decode name (input ++ more) = .error .notCanonical := by
  obtain ⟨hencode, -, -⟩ := decode_eq_ok_iff.1 h
  rw [← hencode] at hl ⊢
  have hread := hf.read_heads (placed_assemble hl more) (tails (f.parts a) ++ more)
  rw [← List.append_assoc] at hread
  exact decode_of_read_of_ne hread (by simpa [encode, assemble] using hmore)

end Fields

end Abi

/-! ## Layouts -/

open Abi

theorem JoinedNodes.cuts_codec : codec.Cuts := .tuple (.cons .bytes (.single (.array .bytes)))

theorem NodeLists.cuts_codec : codec.Cuts :=
  .tuple (.cons (.array .bytes) (.single (.array (.array .bytes))))

namespace Layout

theorem cuts_arbitrum : arbitrum.Cuts :=
  .cons (.tuple (.cons .word (.cons .word (.cons .uint64 (.single .bytes)))))
    (.single JoinedNodes.cuts_codec)

theorem cuts_indexedOutput : indexedOutput.Cuts :=
  .tuple (.cons .word (.single (.tuple (.cons .word (.cons .word (.cons .word (.single .word)))))))

theorem cuts_outputOracle : outputOracle.Cuts :=
  .cons cuts_indexedOutput (.single JoinedNodes.cuts_codec)

theorem cuts_disputeGame : disputeGame.Cuts :=
  .cons cuts_indexedOutput (.single NodeLists.cuts_codec)

theorem cuts_scroll : scroll.Cuts :=
  .cons (.tuple (.cons .word (.cons .word (.single .bytes)))) (.single NodeLists.cuts_codec)

theorem cuts_l1 : l1.Cuts :=
  .cons (.tuple (.cons .word (.single .bytes))) (.single NodeLists.cuts_codec)

/-- The proofs of each chain kind are one sequence of values, which is read back, and whose readers
go the same way on the front of an input. -/
theorem exists_fields (kind : ChainKind) :
    ∃ (α : Type) (f : Fields α) (name : String) (g : α → Witness × ProofNodes),
      f.Lawful ∧ f.Cuts ∧ ∀ data, decode kind data = (f.decode name data).map g := by
  cases kind with
  | arbitrum =>
    refine ⟨_, arbitrum, arbitrumName, fun t => (.arbitrum t.1.1 t.1.2.1
      (BitVec.ofNat 64 t.1.2.2.1.toNat) t.1.2.2.2, .joined (.ofTokens t.2)),
      lawful_arbitrum, cuts_arbitrum, fun data => ?_⟩
    rw [decode]
    cases arbitrum.decode arbitrumName data <;> rfl
  | opOutputOracle =>
    refine ⟨_, outputOracle, outputOracleName, fun t => (.outputOracle t.1.1.toUInt256
      (outputOfTokens t.1.2), .joined (.ofTokens t.2)),
      lawful_outputOracle, cuts_outputOracle, fun data => ?_⟩
    rw [decode]
    cases outputOracle.decode outputOracleName data <;> rfl
  | opDisputeGame =>
    refine ⟨_, disputeGame, disputeGameName, fun t => (.disputeGame t.1.1.toUInt256
      (outputOfTokens t.1.2), .raw (.ofTokens t.2)),
      lawful_disputeGame, cuts_disputeGame, fun data => ?_⟩
    rw [decode]
    cases disputeGame.decode disputeGameName data <;> rfl
  | scroll =>
    refine ⟨_, scroll, scrollName, fun t => (.scroll t.1.1.toUInt256 t.1.2.1 t.1.2.2,
      .raw (.ofTokens t.2)), lawful_scroll, cuts_scroll, fun data => ?_⟩
    rw [decode]
    cases scroll.decode scrollName data <;> rfl
  | l1 =>
    refine ⟨_, l1, l1Name, fun t => (.l1 t.1.1.toUInt256 t.1.2, .raw (.ofTokens t.2)),
      lawful_l1, cuts_l1, fun data => ?_⟩
    rw [decode]
    cases l1.decode l1Name data <;> rfl

/-- **A proof is accepted only as a whole.** Whatever the chain kind, if a byte string is accepted
as a proof, then all its proper fronts are refused, wherever it is cut: they end too early, or their
values encode to more bytes. It is also refused with any bytes behind it, since its values encode to
less. -/
theorem decode_whole {kind : ChainKind} {data : Bytes} {w : Witness} {nodes : ProofNodes}
    (h : decode kind data = .ok (w, nodes)) (hl : data.length < 2 ^ 60) :
    (∀ front, front <+: data → front ≠ data →
      decode kind front = .error .overrun ∨ decode kind front = .error .notCanonical) ∧
    ∀ more, more ≠ [] → decode kind (data ++ more) = .error .notCanonical := by
  obtain ⟨α, f, name, g, hlawful, hcuts, hdecode⟩ := exists_fields kind
  have haddressable : 2 ^ 60 < Codec.addressable := by decide
  simp only [hdecode, Except.map_eq_ok_iff, Except.map_eq_error_iff] at h ⊢
  obtain ⟨a, ha, -⟩ := h
  exact ⟨fun front => hcuts.decode_front ha,
    fun more => hlawful.decode_append ha (Nat.lt_trans hl haddressable)⟩

/-- A proof of one node, with a single byte where the header stands. -/
def singleNode : Bytes := l1.encode ((UInt256.toWord 9, [0xc0]), [[1]], [])

theorem decode_whole_singleNode :
    decode .l1 singleNode = .ok (.l1 9 [0xc0], .raw ⟨[[1]], []⟩) ∧ singleNode.length < 2 ^ 60 ∧
      (decode .l1 singleNode.dropLast = .error .overrun ∨
        decode .l1 singleNode.dropLast = .error .notCanonical) ∧
      decode .l1 (singleNode ++ [0]) = .error .notCanonical := by
  have hl : singleNode.length < 2 ^ 60 := by decide +kernel
  have hread := lawful_l1.decode_encode l1Name (Nat.lt_trans hl (by decide)) (valid_l1 _)
  have hdecode : decode .l1 singleNode = .ok (.l1 9 [0xc0], .raw ⟨[[1]], []⟩) := by
    rw [decode, singleNode, hread]
    simp only [bind, Except.bind, UInt256.toUInt256_toWord]
    rfl
  have hne : singleNode.dropLast ≠ singleNode := by decide +kernel
  obtain ⟨hfront, hmore⟩ := decode_whole hdecode hl
  exact ⟨hdecode, hl, hfront _ (List.dropLast_prefix _) hne, hmore [0] (by decide)⟩

end Layout

end StorageGateway
