import Mathlib.Data.List.Induction
import StorageGateway.Proofs.Node

/-!
# A client sees what was done to its node

Blocks are pushed to a simulated node, words are stored, requests are made and fail for a while. A
client that asks such a node gets what the last change tells: the header that was last pushed for a
number, the word that was last stored at a slot. All of it passes through JSON twice, as parameters
on the way to the node and as a result on the way back, and nothing is lost. Questions change
nothing but the record of requests.

## Main definitions

* `SimulatedNode.Change` and `SimulatedNode.ofHistory` — what is done to a node, and the node after
  it.
* `SimulatedNode.pushedHeader`, `SimulatedNode.storedWord` — what a history tells about a block and
  about a slot.

## Main statements

* `SimulatedNode.headerAt_ofHistory`, `word_ofHistory` — blocks and words after a history.
* `SimulatedNode.headerFor_latest_ofHistory` — the latest block after a history.
* `SimulatedNode.answer_call_of_failing` — a node whose requests fail.
* `SimulatedNode.client_transparent` — the three questions of a client.
-/

namespace StorageGateway.SimulatedNode

/-! ## Histories -/

/-- Something that is done to a node. -/
inductive Change where
  /-- A block is added. -/
  | pushBlock (number : BitVec 64)
  /-- A word is stored. -/
  | setStorage (address : Address) (slot : UInt256) (word : Word)
  /-- Requests fail from now on, or no longer do. -/
  | failRequests (on : Bool)
  /-- Somebody makes a request, whatever the answer. -/
  | request (method : String) (params : Json)

namespace Change

/-- The node after a change. -/
def apply : Change → SimulatedNode → SimulatedNode
  | pushBlock number, node => node.pushBlock number
  | setStorage address slot word, node =>
    { node with storage := node.storage.write address slot word }
  | failRequests on, node => { node with failRequests := on }
  | request method params, node => (SimulatedNode.request method params node).2

/-- The header that a change stores for a block number. -/
def header? (number : BitVec 64) : Change → Option BlockHeader
  | pushBlock n => if n = number then some (newHeader n) else none
  | _ => none

/-- The word that a change stores at a slot of a contract. -/
def word? (address : Address) (slot : UInt256) : Change → Option Word
  | setStorage a n word => if slot = n ∧ address = a then some word else none
  | _ => none

end Change

/-- A node after some changes, the first one first. -/
def ofHistory (changes : List Change) : SimulatedNode :=
  changes.foldl (fun node change => change.apply node) {}

/-- What the last one of the changes tells that tell something. -/
def last? {α : Type} (tells : Change → Option α) (changes : List Change) : Option α :=
  changes.reverse.findSome? tells

/-- The header that was last pushed for a block number. -/
def pushedHeader (changes : List Change) (number : BitVec 64) : Option BlockHeader :=
  last? (·.header? number) changes

/-- The word that was last stored at a slot of a contract, or zero. -/
def storedWord (changes : List Change) (address : Address) (slot : UInt256) : Word :=
  (last? (·.word? address slot) changes).getD .zero

variable {node : SimulatedNode} {changes : List Change} {m n number : BitVec 64}
  {address : Address} {slot : UInt256}

theorem ofHistory_append_singleton (changes : List Change) (change : Change) :
    ofHistory (changes ++ [change]) = change.apply (ofHistory changes) := by
  simp [ofHistory]

theorem last?_append_singleton {α : Type} (tells : Change → Option α) (changes : List Change)
    (change : Change) :
    last? tells (changes ++ [change]) = (tells change).or (last? tells changes) := by
  rw [last?, List.reverse_append, List.reverse_singleton, List.singleton_append,
    List.findSome?_cons]
  cases tells change <;> rfl

/-! ### Blocks and words -/

theorem headerAt_apply (change : Change) (node : SimulatedNode) (number : BitVec 64) :
    (change.apply node).headerAt number = (change.header? number).or (node.headerAt number) := by
  cases change with
  | pushBlock n =>
    by_cases hn : n = number <;>
      simp [Change.apply, Change.header?, pushBlock, putHeader, headerAt, hn]
  | setStorage | failRequests | request => rfl

/-- The header for a block number is the one that was last pushed for it. -/
theorem headerAt_ofHistory (changes : List Change) (number : BitVec 64) :
    (ofHistory changes).headerAt number = pushedHeader changes number := by
  induction changes using List.reverseRecOn with
  | nil => rfl
  | append_singleton changes change ih =>
    rw [ofHistory_append_singleton, headerAt_apply, ih, pushedHeader, pushedHeader,
      last?_append_singleton]

theorem word_apply (change : Change) (node : SimulatedNode) (address : Address) (slot : UInt256) :
    (change.apply node).storage.word address slot =
      (change.word? address slot).getD (node.storage.word address slot) := by
  cases change with
  | setStorage a n word =>
    by_cases hn : slot = n ∧ address = a <;>
      simp [Change.apply, Change.word?, Storage.word_write, hn]
  | pushBlock | failRequests | request => rfl

/-- The word at a slot is the one that was last stored there, or zero. -/
theorem word_ofHistory (changes : List Change) (address : Address) (slot : UInt256) :
    (ofHistory changes).storage.word address slot = storedWord changes address slot := by
  induction changes using List.reverseRecOn with
  | nil => rfl
  | append_singleton changes change ih =>
    rw [ofHistory_append_singleton, word_apply, ih, storedWord, storedWord,
      last?_append_singleton, Option.getD_or]

/-- The header of the latest block is the one with the largest number among those pushed. -/
theorem headerFor_latest_ofHistory (h : (pushedHeader changes n).isSome) :
    ∃ m header, IsGreatest {n | (pushedHeader changes n).isSome} m ∧
      pushedHeader changes m = some header ∧
      (ofHistory changes).headerFor .latest = some header := by
  simp only [← headerAt_ofHistory] at h ⊢
  cases hlast : (ofHistory changes).lastNumber with
  | none =>
    rw [lastNumber_eq_none_iff.1 hlast n] at h
    cases h
  | some m =>
    have hgreatest := lastNumber_eq_some_iff.1 hlast
    obtain ⟨header, hheader⟩ := Option.isSome_iff_exists.1 hgreatest.1
    refine ⟨m, header, hgreatest, hheader, ?_⟩
    rw [headerFor, hlast, Option.bind_some, hheader]

theorem headerFor_latest_of_none (h : ∀ n, pushedHeader changes n = none) :
    (ofHistory changes).headerFor .latest = none := by
  have hlast : (ofHistory changes).lastNumber = none :=
    lastNumber_eq_none_iff.2 fun n => (headerAt_ofHistory changes n).trans (h n)
  rw [headerFor, hlast, Option.bind_none]

/-! ## Requests that fail -/

/-- A request is recorded, and nothing else changes, whatever comes of it. -/
theorem node_after_call {α : Type} (node : SimulatedNode) (method : String) (params : List Json)
    (read : Json → Option α) :
    ((client.call method params read).answer node).2 = node.after [(method, .arr params)] := by
  rw [Client.call, Query.answer_bind, answer_request]
  cases (node.result method (.arr params)).mapError Refusal.message with
  | error failure => rfl
  | ok result =>
    dsimp only
    cases read result <;> rfl

/-- While requests fail, each call fails, whatever it asks for. -/
theorem answer_call_of_failing {α : Type} (h : node.failRequests = true) (method : String)
    (params : List Json) (read : Json → Option α) :
    (client.call method params read).answer node =
      (.error "connection refused", node.after [(method, .arr params)]) := by
  have hresult : node.result method (.arr params) = .error .unreachable := by
    rw [result, if_pos h]
  have hrequest : (client.request method (.arr params)).answer node =
      (.error "connection refused", node.after [(method, .arr params)]) := by
    rw [answer_request, hresult]
    rfl
  exact Query.answer_bind_of_error hrequest

theorem answer_header_of_failing (h : node.failRequests = true) (tag : BlockTag) :
    (client.header tag).answer node =
      (.error "connection refused", node.after [headerCall tag]) :=
  Query.answer_bind_of_error (answer_call_of_failing h _ _ _)

theorem answer_proofs_of_failing (h : node.failRequests = true) (number : BitVec 64)
    (address : Address) (slots : List UInt256) :
    (client.proofs number address slots).answer node =
      (.error "connection refused", node.after [proofCall number address slots]) :=
  Query.answer_bind_of_error (answer_call_of_failing h _ _ _)

/-! ## The questions of a client -/

/-- **A client sees what was done to its node.** After any history, a client whose requests do not
fail gets the header that was last pushed for a number, or learns that there is none; as the latest
header the one with the largest number; the word that was last stored at a slot, or zero; and the
node's proofs of an account and of slots, in the order of the slots. While requests fail, it gets
nothing. Either way the node only records the request. -/
theorem client_transparent (changes : List Change) (number : BitVec 64) (address : Address)
    (slot : UInt256) (slots : List UInt256) :
    let node := ofHistory changes
    (node.failRequests = false →
      (client.header (.number number)).answer node =
          ((pushedHeader changes number).elim
            (.error s!"Block {(BlockTag.number number).describe} not found") .ok,
            node.after [headerCall (.number number)]) ∧
        ((∃ n, (pushedHeader changes n).isSome) →
          ∃ m header, IsGreatest {n | (pushedHeader changes n).isSome} m ∧
            pushedHeader changes m = some header ∧
            (client.header .latest).answer node = (.ok header, node.after [headerCall .latest])) ∧
        ((∀ n, pushedHeader changes n = none) →
          (client.header .latest).answer node =
            (.error "Block Latest not found", node.after [headerCall .latest])) ∧
        (client.storageAt number address slot).answer node =
          (.ok (storedWord changes address slot), node.after [storageCall number address slot]) ∧
        ∃ p, (client.proofs number address slots).answer node =
            (.ok p, node.after [proofCall number address slots]) ∧
          p.storageProofs.map (·.key) = slots ∧ p.check slots = .ok () ∧
          p.storageRoot = storageHash address ∧ p.accountNodes = [accountNode address] ∧
          p.storageProofs.map (·.nodes) = slots.map fun slot => [slotNode slot]) ∧
      (node.failRequests = true →
        (∀ tag, (client.header tag).answer node =
            (.error "connection refused", node.after [headerCall tag])) ∧
          (client.storageAt number address slot).answer node =
            (.error "connection refused", node.after [storageCall number address slot]) ∧
          (client.proofs number address slots).answer node =
            (.error "connection refused", node.after [proofCall number address slots])) ∧
      ∀ (α : Type) (method : String) (params : List Json) (read : Json → Option α),
        ((client.call method params read).answer node).2.storage = node.storage ∧
          ((client.call method params read).answer node).2.headers = node.headers := by
  intro node
  refine ⟨?_, ?_, ?_⟩
  · intro h
    refine ⟨?_, ?_, ?_, ?_, ?_⟩
    · rw [answer_header h, headerFor, headerAt_ofHistory]
      cases pushedHeader changes number <;> rfl
    · intro hsome
      obtain ⟨n, hn⟩ := hsome
      obtain ⟨m, header, hgreatest, hheader, hlatest⟩ := headerFor_latest_ofHistory hn
      refine ⟨m, header, hgreatest, hheader, ?_⟩
      rw [answer_header h, hlatest]
    · intro hnone
      rw [answer_header h, headerFor_latest_of_none hnone]
      rfl
    · rw [answer_storageAt h, word_ofHistory]
    · have hkeys := keys_proofResponse node address slots
      have hnodes := nodes_proofResponse node address slots
      exact ⟨_, answer_proofs h number address slots, hkeys, StateProof.check_eq_ok_iff.2 hkeys,
        rfl, rfl, hnodes⟩
  · intro h
    exact ⟨answer_header_of_failing h, answer_call_of_failing h _ _ _,
      answer_proofs_of_failing h number address slots⟩
  · intro α method params read
    rw [node_after_call]
    exact ⟨rfl, rfl⟩

/-- Two blocks around an outage, the first one pushed again, and a word that is overwritten. -/
def outage : List Change :=
  [.pushBlock 2, .setStorage .zero 0 (UInt256.toWord 5), .failRequests true,
   .request "eth_chainId" .null, .pushBlock 5, .failRequests false,
   .setStorage .zero 0 (UInt256.toWord 7), .pushBlock 2]

theorem isGreatest_outage : IsGreatest {n | (pushedHeader outage n).isSome} 5 := by
  simp only [← headerAt_ofHistory]
  exact lastNumber_eq_some_iff.1 rfl

theorem client_transparent_outage :
    let node := ofHistory outage
    let failing := ofHistory (outage.take 3)
    node.failRequests = false ∧ failing.failRequests = true ∧
      (∃ n, (pushedHeader outage n).isSome) ∧ (∀ n, pushedHeader [] n = none) ∧
      ((client.header .latest).answer node).1 = .ok (newHeader 5) ∧
      ((client.header (.number 2)).answer node).1 = .ok (newHeader 2) ∧
      ((client.storageAt 2 .zero 0).answer node).1 = .ok (UInt256.toWord 7) ∧
      ((client.header .latest).answer failing).1 = .error "connection refused" ∧
      ((client.header .latest).answer (ofHistory [])).1 = .error "Block Latest not found" := by
  intro node failing
  have hsome : ∃ n, (pushedHeader outage n).isSome := ⟨5, isGreatest_outage.1⟩
  have hnone : ∀ n, pushedHeader [] n = none := fun _ => rfl
  obtain ⟨hnumber, hlatest, -, hword, -⟩ := (client_transparent outage 2 .zero 0 []).1 rfl
  obtain ⟨m, header, hgreatest, hheader, hanswer⟩ := hlatest hsome
  obtain rfl : m = 5 := BitVec.le_antisymm (isGreatest_outage.2 hgreatest.1)
    (hgreatest.2 isGreatest_outage.1)
  have hfive : header = newHeader 5 := (Option.some.inj hheader).symm
  have hfailing := ((client_transparent (outage.take 3) 2 .zero 0 []).2.1 rfl).1 .latest
  have hempty := ((client_transparent [] 2 .zero 0 []).1 rfl).2.2.1 hnone
  rw [hfive] at hanswer
  exact ⟨rfl, rfl, hsome, hnone, congrArg Prod.fst hanswer, congrArg Prod.fst hnumber,
    congrArg Prod.fst hword, congrArg Prod.fst hfailing, congrArg Prod.fst hempty⟩

end StorageGateway.SimulatedNode
