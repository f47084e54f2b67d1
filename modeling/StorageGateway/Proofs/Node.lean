import Mathlib.Order.Bounds.Defs
import StorageGateway.Proofs.JsonRecords
import StorageGateway.Proofs.Run
import StorageGateway.Simulated.Node

/-!
# What a simulated node answers

A client writes block numbers, addresses and slots as JSON parameters, a simulated node reads them,
and the client reads the result. Nothing is lost on the way: the node answers about the very block,
address and slots that the client asks for, and records one request per question.

## Main definitions

* `SimulatedNode.after` — a node after some more requests.
* `SimulatedNode.headerCall`, `storageCall`, `proofCall` — the requests of a client.
* `SimulatedNode.Built` — a node with the numbers of the blocks that were pushed.

## Main statements

* `SimulatedNode.answer_header`, `answer_storageAt`, `answer_proofs` — the three questions.
* `SimulatedNode.lastNumber_eq_some_iff`, `lastNumber_eq_none_iff` — the last block.
* `SimulatedNode.Built.lastNumber_eq_some_iff`, `Built.headerAt_eq` — the blocks of a node.
-/

namespace StorageGateway.SimulatedNode

/-! ## Block tags -/

theorem withoutMarks_of_digits {cs : List Char} (h : Hex.Digits cs) : withoutMarks cs = cs := by
  unfold withoutMarks
  split
  · exact absurd (by simp) (h.not_mem (show Hex.value? 'x' = none by decide))
  · rfl

/-- Digits of a number of at most 64 bits are read as the number. -/
theorem hexNumber_of_digits {cs : List Char} (h : Hex.Digits cs) (n : Nat)
    (hl : Hex.value n cs < limit64) : hexNumber n cs = .ok (BitVec.ofNat 64 (Hex.value n cs)) := by
  induction cs generalizing n with
  | nil => rfl
  | cons c cs ih =>
    obtain ⟨⟨d, hd, rfl⟩, hcs⟩ := Hex.digits_cons.1 h
    rw [Hex.value_digit_cons n hd] at hl ⊢
    have hle := Hex.le_value (16 * n + d) cs
    have hlt : 16 * n + d < limit64 := Nat.lt_of_le_of_lt hle hl
    simp only [hexNumber, Hex.value?_digit hd, hlt, if_true, ih hcs _ hl]

/-- A block number is read back from its tag. -/
theorem tagNumber_quantity (n : BitVec 64) : tagNumber (Hex.quantity n.toNat) = .ok n := by
  have hdigits := Hex.digits_toDigits n.toNat
  have hvalue := Hex.value_toDigits n.toNat
  have hread : hexNumber 0 (Nat.toDigits 16 n.toNat) = .ok n := by
    rw [hexNumber_of_digits hdigits 0 (by rw [hvalue]; exact n.isLt), hvalue, BitVec.ofNat_toNat,
      BitVec.setWidth_eq]
  have hplus : '+' ∉ Nat.toDigits 16 n.toNat := hdigits.not_mem (by decide)
  have hne : Nat.toDigits 16 n.toNat ≠ [] := Nat.toDigits_ne_nil
  rw [tagNumber, Hex.toList_quantity, withoutMarks, withoutMarks_of_digits hdigits]
  generalize Nat.toDigits 16 n.toNat = cs at hplus hne hread
  split
  · exact absurd rfl hne
  · exact absurd List.mem_cons_self hplus
  · exact absurd List.mem_cons_self hplus
  · exact hread

/-! ## Requests -/

/-- The node after some more requests, the first one first. -/
def after (node : SimulatedNode) (issued : List RecordedCall) : SimulatedNode :=
  { node with calls := issued.reverse ++ node.calls }

theorem after_after (node : SimulatedNode) (first second : List RecordedCall) :
    (node.after first).after second = node.after (first ++ second) := by
  simp [after]

/-- The request for a header. -/
def headerCall (tag : BlockTag) : RecordedCall :=
  ("eth_getBlockByNumber", .arr [tag.toJson, .bool false])

/-- The request for the word at a slot. -/
def storageCall (number : BitVec 64) (address : Address) (slot : UInt256) : RecordedCall :=
  ("eth_getStorageAt",
    .arr [.fixed address, .fixed slot.toWord, (BlockTag.number number).toJson])

/-- The request for the proof of slots. -/
def proofCall (number : BitVec 64) (address : Address) (slots : List UInt256) : RecordedCall :=
  ("eth_getProof",
    .arr [.fixed address, .arr (slots.map fun slot => .fixed slot.toWord),
      (BlockTag.number number).toJson])

variable {node : SimulatedNode} {m n : BitVec 64} {α : Type}

/-- A request is recorded, whether it has a result or not. -/
theorem answer_request (node : SimulatedNode) (method : String) (params : List Json) :
    (client.request method (.arr params)).answer node =
      ((node.result method (.arr params)).mapError Refusal.message,
        node.after [(method, .arr params)]) := rfl

/-- A request is recorded, and answered if the result can be read. -/
theorem answer_call {method : String} {params : List Json} {read : Json → Option α}
    {result : Json} {a : α} (hr : node.result method (.arr params) = .ok result)
    (ha : read result = some a) :
    (client.call method params read).answer node = (.ok a, node.after [(method, .arr params)]) := by
  have hrequest : (client.request method (.arr params)).answer node =
      (.ok result, node.after [(method, .arr params)]) := by
    rw [answer_request, hr, Except.mapError_ok]
  rw [Client.call, Query.answer_bind_of_ok hrequest, ha]
  rfl

/-! ## Answers -/

/-- The header that a tag means, if there is such a block. -/
def headerFor (node : SimulatedNode) : BlockTag → Option BlockHeader
  | .latest | .finalized => node.lastNumber.bind node.headerAt
  | .number n => node.headerAt n

/-- The node reads the tag that the client writes. -/
theorem blockNumber_toJson (node : SimulatedNode) (tag : BlockTag) :
    (node.blockNumber tag.toJson).map (·.bind node.headerAt) = .ok (node.headerFor tag) := by
  cases tag with
  | latest => rfl
  | finalized => rfl
  | number n =>
    have hne : ∀ c cs, c ≠ '0' → (Hex.quantity n.toNat).toList ≠ c :: cs := by
      intro c cs hc he
      rw [Hex.toList_quantity] at he
      exact hc (List.cons.inj he).1.symm
    have hlatest : Hex.quantity n.toNat ≠ "latest" := fun he =>
      hne 'l' _ (by decide) (congrArg String.toList he)
    have hfinalized : Hex.quantity n.toNat ≠ "finalized" := fun he =>
      hne 'f' _ (by decide) (congrArg String.toList he)
    have hnumber : node.blockNumber (BlockTag.number n).toJson = .ok (some n) := by
      simp only [BlockTag.toJson, Json.quantity, blockNumber, hlatest, hfinalized, or_self,
        if_false, tagNumber_quantity]
      rfl
    rw [hnumber]
    rfl

theorem result_header (h : node.failRequests = false) (tag : BlockTag) :
    node.result "eth_getBlockByNumber" (.arr [tag.toJson, .bool false]) =
      .ok ((node.headerFor tag).elim .null BlockHeader.toJson) := by
  obtain ⟨number, hn, hf⟩ := Except.map_eq_ok_iff.1 (node.blockNumber_toJson tag)
  have hparameter : parameter (.arr [tag.toJson, .bool false]) 0 = tag.toJson := rfl
  simp only [result, h, Bool.false_eq_true, if_false, if_true, hparameter, hn]
  rw [← hf]
  rfl

/-- A header that the node has is read back by the client. -/
theorem nullable_header (found : Option BlockHeader) :
    Client.nullable BlockHeader.ofJson? (found.elim .null BlockHeader.toJson) = some found := by
  cases found with
  | none => rfl
  | some header =>
    have hread := BlockHeader.readBack.plain header
    rw [BlockHeader.toJson_eq] at hread
    change Client.nullable BlockHeader.ofJson? header.toJson = _
    rw [BlockHeader.toJson_eq, Client.nullable, hread]
    · rfl
    · exact nofun

/-- The header is the one of the block that the tag means. -/
theorem answer_header (h : node.failRequests = false) (tag : BlockTag) :
    (client.header tag).answer node =
      (match node.headerFor tag with
        | some header => .ok header
        | none => .error s!"Block {tag.describe} not found",
        node.after [headerCall tag]) := by
  have hcall := answer_call (result_header h tag) (nullable_header (node.headerFor tag))
  rw [Client.header, Query.answer_bind_of_ok hcall]
  cases node.headerFor tag <;> rfl

theorem readParameter_first {read : Json → Option α} {param : Json} {a : α}
    (h : read param = some a) (params : List Json) :
    readParameter read (.arr (param :: params)) 0 = .ok a := by
  have hparameter : parameter (.arr (param :: params)) 0 = param := rfl
  rw [readParameter, hparameter, h]

theorem readParameter_second {read : Json → Option α} {param : Json} {a : α}
    (h : read param = some a) (first : Json) (params : List Json) :
    readParameter read (.arr (first :: param :: params)) 1 = .ok a :=
  readParameter_first h params

/-- The word is the one at the slot of the contract. -/
theorem answer_storageAt (h : node.failRequests = false) (number : BitVec 64) (address : Address)
    (slot : UInt256) :
    (client.storageAt number address slot).answer node =
      (.ok (node.storage.word address slot), node.after [storageCall number address slot]) := by
  have hresult : node.result "eth_getStorageAt"
      (.arr [.fixed address, .fixed slot.toWord, (BlockTag.number number).toJson]) =
        .ok (.fixed (node.storage.word address slot)) := by
    simp only [result, h, readParameter_first (Json.fixed?_fixed address),
      readParameter_second (Json.quantity?_fixed slot), Bool.false_eq_true, if_false, if_true,
      String.reduceEq]
    rfl
  exact answer_call hresult (Json.fixed?_fixed _)

/-- The proof is for the contract and the slots. -/
theorem answer_proofs (h : node.failRequests = false) (number : BitVec 64) (address : Address)
    (slots : List UInt256) :
    (client.proofs number address slots).answer node =
      (.ok (node.proofResponse address slots).stateProof,
        node.after [proofCall number address slots]) := by
  have hslots : Json.list? (Json.quantity? 256) (.arr (slots.map fun slot => .fixed slot.toWord)) =
      some slots := Json.list?_map fun slot _ => Json.quantity?_fixed slot
  have hresult : node.result "eth_getProof"
      (.arr [.fixed address, .arr (slots.map fun slot => .fixed slot.toWord),
        (BlockTag.number number).toJson]) = .ok (node.proofResponse address slots).toJson := by
    simp only [result, h, readParameter_first (Json.fixed?_fixed address),
      readParameter_second hslots, Bool.false_eq_true, if_false, if_true, String.reduceEq]
    rfl
  have hcall := answer_call hresult (ProofResponse.readBack.plain _)
  rw [Client.proofs, Query.answer_bind_of_ok hcall]
  rfl

theorem keys_proofResponse (node : SimulatedNode) (address : Address) (slots : List UInt256) :
    (node.proofResponse address slots).stateProof.storageProofs.map (·.key) = slots := by
  simp [proofResponse, ProofResponse.stateProof, Function.comp_def]

theorem nodes_proofResponse (node : SimulatedNode) (address : Address) (slots : List UInt256) :
    (node.proofResponse address slots).stateProof.storageProofs.map (·.nodes) =
      slots.map fun slot => [slotNode slot] := by
  simp [proofResponse, ProofResponse.stateProof, Function.comp_def]

/-! ## Blocks -/

/-- The largest of some numbers, found from the first one on. -/
def largest (numbers : List (BitVec 64)) : Option (BitVec 64) :=
  numbers.foldl (fun last n => some (last.elim n fun m => if m < n then n else m)) none

theorem largest_cons_cons (k n : BitVec 64) (numbers : List (BitVec 64)) :
    largest (k :: n :: numbers) = largest ((if k < n then n else k) :: numbers) := rfl

theorem exists_largest (k : BitVec 64) (numbers : List (BitVec 64)) :
    ∃ m, largest (k :: numbers) = some m ∧ IsGreatest {n | n ∈ k :: numbers} m := by
  induction numbers generalizing k with
  | nil =>
    refine ⟨k, rfl, List.mem_cons_self, ?_⟩
    intro n hn
    rw [List.mem_singleton.1 hn]
    exact BitVec.le_refl k
  | cons n numbers ih =>
    obtain ⟨m, hlargest, hm, hle⟩ := ih (if k < n then n else k)
    rw [← largest_cons_cons] at hlargest
    have hfirst : (if k < n then n else k) ≤ m := hle List.mem_cons_self
    have hrest : ∀ x ∈ numbers, x ≤ m := fun x hx => hle (List.mem_cons_of_mem _ hx)
    refine ⟨m, hlargest, ?_, ?_⟩
    · rcases List.mem_cons.1 hm with rfl | hm
      · split <;> simp
      · exact List.mem_cons_of_mem _ (List.mem_cons_of_mem _ hm)
    · intro x hx
      have hx : x = k ∨ x = n ∨ x ∈ numbers := by simpa using hx
      -- the larger one of the first two bounds the other one
      rcases hx with rfl | rfl | hx
      · split at hfirst
        · bv_omega
        · exact hfirst
      · split at hfirst
        · exact hfirst
        · bv_omega
      · exact hrest x hx

theorem largest_eq_some_iff {numbers : List (BitVec 64)} :
    largest numbers = some m ↔ IsGreatest {n | n ∈ numbers} m := by
  cases numbers with
  | nil => simp [largest, IsGreatest]
  | cons k numbers =>
    obtain ⟨m', hlargest, hgreatest⟩ := exists_largest k numbers
    rw [hlargest, Option.some.injEq]
    constructor
    · intro he
      rwa [← he]
    · intro hm
      exact BitVec.le_antisymm (hm.2 hgreatest.1) (hgreatest.2 hm.1)

theorem largest_eq_none_iff {numbers : List (BitVec 64)} :
    largest numbers = none ↔ numbers = [] := by
  cases numbers with
  | nil => exact iff_of_true rfl rfl
  | cons k numbers =>
    obtain ⟨m, hlargest, -⟩ := exists_largest k numbers
    simp [hlargest]

theorem lastNumber_eq_largest (node : SimulatedNode) :
    node.lastNumber = largest (node.headers.map (·.1)) := by
  rw [lastNumber, largest, List.foldl_map]

theorem isSome_headerAt_iff : (node.headerAt n).isSome ↔ n ∈ node.headers.map (·.1) := by
  simp [headerAt]

/-- The last block is the one with the largest number. -/
theorem lastNumber_eq_some_iff :
    node.lastNumber = some m ↔ IsGreatest {n | (node.headerAt n).isSome} m := by
  simp only [isSome_headerAt_iff, lastNumber_eq_largest, largest_eq_some_iff]

/-- Only a node without blocks has no last block. -/
theorem lastNumber_eq_none_iff : node.lastNumber = none ↔ ∀ n, node.headerAt n = none := by
  have hnone : node.headers.map (·.1) = [] ↔ ∀ n, node.headerAt n = none := by
    simp only [List.eq_nil_iff_forall_not_mem, ← isSome_headerAt_iff, Option.not_isSome_iff_eq_none]
  rw [lastNumber_eq_largest, largest_eq_none_iff, hnone]

/-- A node whose blocks have the numbers in the list, the last one pushed first. Blocks and words
were stored in any order, and requests were made at any time. -/
inductive Built : List (BitVec 64) → SimulatedNode → Prop
  | empty : Built [] {}
  | pushBlock {pushed : List (BitVec 64)} {node : SimulatedNode} (number : BitVec 64)
    (h : Built pushed node) : Built (number :: pushed) (node.pushBlock number)
  | setStorage {pushed : List (BitVec 64)} {node : SimulatedNode} (address : Address)
    (slot : UInt256) (word : Word) (h : Built pushed node) :
    Built pushed { node with storage := node.storage.write address slot word }
  | request {pushed : List (BitVec 64)} {node : SimulatedNode} (call : RecordedCall)
    (h : Built pushed node) : Built pushed (node.after [call])

namespace Built

variable {pushed : List (BitVec 64)}

theorem failRequests_eq (h : Built pushed node) : node.failRequests = false := by
  induction h with
  | empty => rfl
  | pushBlock number _ ih => exact ih
  | setStorage address slot word _ ih => exact ih
  | request call _ ih => exact ih

theorem headers_eq (h : Built pushed node) :
    node.headers = pushed.map fun n => (n, newHeader n) := by
  induction h with
  | empty => rfl
  | pushBlock number _ ih => exact congrArg (List.cons (number, newHeader number)) ih
  | setStorage address slot word _ ih => exact ih
  | request call _ ih => exact ih

/-- A block that was pushed has the header that the push returned. -/
theorem headerAt_eq (h : Built pushed node) (n : BitVec 64) :
    node.headerAt n = if n ∈ pushed then some (newHeader n) else none := by
  rw [headerAt, h.headers_eq]
  clear h
  induction pushed with
  | nil => rfl
  | cons number pushed ih =>
    by_cases hn : number = n
    · subst hn
      simp
    · have hne : n ≠ number := fun he => hn he.symm
      simpa [hn, hne] using ih

theorem lastNumber_eq (h : Built pushed node) : node.lastNumber = largest pushed := by
  rw [lastNumber_eq_largest, h.headers_eq, List.map_map]
  exact congrArg largest (List.map_id pushed)

/-- The last block is the one with the largest number. -/
theorem lastNumber_eq_some_iff (h : Built pushed node) :
    node.lastNumber = some m ↔ IsGreatest {n | n ∈ pushed} m := by
  rw [h.lastNumber_eq, largest_eq_some_iff]

theorem after (h : Built pushed node) (issued : List RecordedCall) :
    Built pushed (node.after issued) := by
  induction issued generalizing node with
  | nil => exact h
  | cons call issued ih =>
    have hrest := ih (h.request call)
    rwa [after_after] at hrest

/-- The header of a block is found exactly if the block was pushed. -/
theorem answer_header_number (h : Built pushed node) (n : BitVec 64) :
    (client.header (.number n)).answer node =
      (if n ∈ pushed then .ok (newHeader n)
        else .error s!"Block {(BlockTag.number n).describe} not found",
        node.after [headerCall (.number n)]) := by
  have hfound : node.headerFor (.number n) = if n ∈ pushed then some (newHeader n) else none :=
    h.headerAt_eq n
  rw [answer_header h.failRequests_eq, hfound]
  by_cases hn : n ∈ pushed
  · rw [if_pos hn, if_pos hn]
  · rw [if_neg hn, if_neg hn]

end Built

end StorageGateway.SimulatedNode
