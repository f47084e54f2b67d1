import StorageGateway.Proofs.Decoding
import StorageGateway.Proofs.Derivation
import StorageGateway.Proofs.Node
import StorageGateway.Proofs.Resolution
import StorageGateway.Rpc.Services

/-!
# The base chain is proven at the parent of its latest block

A gateway over a node picks the block before the latest one and stays with it: after the two
requests for headers, every request is about that block and about the contract of the caller. It
asks once for each slot that the commands lead to, and then, if all of them resolve, once for the
proof of these slots.

## Main definitions

* `SimulatedNode.baseGateway` — a gateway for the base chain over a node.
* `SimulatedNode.readCalls` — the requests up to the last read.
* `SimulatedNode.ProvesBlock` — what a decoded proof tells about its block.

## Main statements

* `SimulatedNode.answer_parentOfLatestBlock` — which block is picked.
* `SimulatedNode.prove_baseGateway` — all requests of a call, and its result.
-/

namespace StorageGateway

namespace SimulatedNode

variable {node : SimulatedNode} {pushed : List (BitVec 64)} {m : BitVec 64}

/-! ## The block -/

theorem headerFor_latest (hb : Built pushed node) (hm : IsGreatest {n | n ∈ pushed} m) :
    node.headerFor .latest = some (newHeader m) := by
  have hmem : m ∈ pushed := hm.1
  rw [headerFor, hb.lastNumber_eq_some_iff.2 hm, Option.bind_some, hb.headerAt_eq, if_pos hmem]

theorem answer_latest (hb : Built pushed node) (hm : IsGreatest {n | n ∈ pushed} m) :
    (client.header .latest).answer node = (.ok (newHeader m), node.after [headerCall .latest]) := by
  rw [answer_header hb.failRequests_eq, headerFor_latest hb hm]

/-- Without a block before the latest one, only the latest header is asked for. -/
theorem answer_parentOfLatestBlock_of_no_parent (hb : Built pushed node)
    (h : pushed = [] ∨ IsGreatest {n | n ∈ pushed} 0) :
    ∃ failure, client.parentOfLatestBlock.answer node =
      (.error failure, node.after [headerCall .latest]) := by
  rcases h with rfl | h
  · have hnone : node.headerFor .latest = none := by
      rw [headerFor, hb.lastNumber_eq]
      rfl
    have hheader : (client.header .latest).answer node =
        (.error "Block Latest not found", node.after [headerCall .latest]) := by
      rw [answer_header hb.failRequests_eq, hnone]
      rfl
    exact ⟨_, Query.answer_bind_of_error hheader⟩
  · refine ⟨"Chain has no block before genesis", ?_⟩
    rw [Client.parentOfLatestBlock, Query.answer_bind_of_ok (answer_latest hb h)]
    rfl

/-- Behind a latest block that is not the first one, the block with the number before it is asked
for. -/
theorem answer_parentOfLatestBlock (hb : Built pushed node) (hm : IsGreatest {n | n ∈ pushed} m)
    (h0 : m ≠ 0) :
    client.parentOfLatestBlock.answer node =
      (if m - 1 ∈ pushed then .ok (.l1 (newHeader (m - 1)))
        else .error s!"Block {(BlockTag.number (m - 1)).describe} not found",
        node.after [headerCall .latest, headerCall (.number (m - 1))]) := by
  have hnumber : (newHeader m).number ≠ 0 := h0
  have hparent := (hb.after [headerCall .latest]).answer_header_number (m - 1)
  rw [after_after] at hparent
  rw [Client.parentOfLatestBlock, Query.answer_bind_of_ok (answer_latest hb hm), if_neg hnumber]
  by_cases hm' : m - 1 ∈ pushed
  · rw [if_pos hm'] at hparent ⊢
    exact Query.answer_bind_of_ok hparent
  · rw [if_neg hm'] at hparent ⊢
    exact Query.answer_bind_of_error hparent

/-! ## The reads -/

/-- While nothing but requests happens to a node, it answers reads from its storage. -/
theorem answersFrom (node : SimulatedNode) (number : BitVec 64) (address : Address) :
    client.parentOfLatest.AnswersFrom (.l1 (newHeader number)) address
      (node.storage.word address)
      (fun t => t.failRequests = false ∧ t.storage = node.storage)
      (fun t slot => t.after [storageCall number address slot]) where
  returns_read := by
    intro t ht slot
    rw [← ht.2]
    exact Service.returns_ask.2 (answer_storageAt ht.1 number address slot)
  inv_after := by
    intro t ht slot
    exact ht

/-- The requests of reads are recorded in the order of the slots. -/
theorem foldl_after (node : SimulatedNode) (call : UInt256 → RecordedCall)
    (slots : List UInt256) :
    slots.foldl (fun t slot => t.after [call slot]) node = node.after (slots.map call) := by
  induction slots generalizing node with
  | nil => rfl
  | cons slot slots ih =>
    rw [List.foldl_cons, ih, after_after, List.map_cons, List.singleton_append]

/-! ## The proof -/

/-- What a proof for the base chain tells that was made for a block and so many slots: the block's
number, the header that was pushed for it, with its hash, and one storage proof per slot. -/
def ProvesBlock (blob : Bytes) (number : BitVec 64) (count : Nat) : Prop :=
  ∃ header nodes, Layout.decode .l1 blob = .ok (.l1 (number.setWidth 256) header, .raw nodes) ∧
    BlockHeader.ofBytes header = .ok (newHeader number) ∧
    keccak256 header = (newHeader number).hash ∧ nodes.storage.length = count

theorem provesBlock_of_encodeProof {number : BitVec 64} {p : StateProof} {blob : Bytes}
    (h : (AnchoredBlock.l1 (newHeader number)).encodeProof p = .ok blob)
    (hl : blob.length < Abi.Codec.addressable) :
    ProvesBlock blob number p.storageProofs.length := by
  obtain ⟨packed, -, hread⟩ := AnchoredBlock.layout_decode h hl
  have hheader := (Layout.fits_of_decode hread).1 _ rfl
  exact ⟨_, _, hread, BlockHeader.ofBytes_encode hheader, rfl, List.length_map _⟩

/-! ## The call -/

/-- A gateway for the base chain over a node. -/
def baseGateway (config : Config) : Gateway SimulatedNode AnchoredBlock :=
  ⟨client.parentOfLatest, config⟩

/-- The requests up to the last read: for the header of the latest block, for the one of its parent,
and for the word at each slot, all words at the parent. -/
def readCalls (latest : BitVec 64) (address : Address) (reads : List UInt256) :
    List RecordedCall :=
  headerCall .latest :: headerCall (.number (latest - 1)) ::
    reads.map (storageCall (latest - 1) address)

variable {config : Config} {address : Address} {commands : List Command} {constants : List Bytes}

theorem fails_prove_of_block {failure : Failure} {node' : SimulatedNode}
    (hc : commands.length ≤ config.maxCommands)
    (h : client.parentOfLatestBlock.answer node = (.error failure, node')) :
    ((baseGateway config).prove address commands constants).Fails node (.io failure) node' := by
  have hblock : (baseGateway config).service.block.Fails node (.io failure) node' :=
    Service.fails_ask.2 ⟨failure, rfl, h⟩
  exact Run.fails_bind_pure.2 (Gateway.fails_proveTarget_of_block hc hblock)

theorem returns_block (hb : Built pushed node) (hm : IsGreatest {n | n ∈ pushed} m) (h0 : m ≠ 0)
    (hp : m - 1 ∈ pushed) :
    (baseGateway config).service.block.Returns node (.l1 (newHeader (m - 1)))
      (node.after (readCalls m address [])) := by
  refine Service.returns_ask.2 ?_
  have h := answer_parentOfLatestBlock hb hm h0
  rwa [if_pos hp] at h

/-- The reads at the block that is proven leave their requests behind the two for headers. -/
theorem foldl_after_readCalls (node : SimulatedNode) (m : BitVec 64) (address : Address)
    (slots : List UInt256) :
    slots.foldl (fun t slot => t.after [storageCall (m - 1) address slot])
      (node.after (readCalls m address [])) = node.after (readCalls m address slots) := by
  rw [foldl_after, after_after]
  rfl

/-- Commands that get stuck fail after the reads of their resolution. -/
theorem fails_prove_of_resolution {e : Error} (hb : Built pushed node)
    (hc : commands.length ≤ config.maxCommands) (hm : IsGreatest {n | n ∈ pushed} m) (h0 : m ≠ 0)
    (hp : m - 1 ∈ pushed) {reads : List UInt256}
    (he : resolution config.maxValueLength constants (node.storage.word address) [] commands =
      (reads, .error e)) :
    ((baseGateway config).prove address commands constants).Fails node e
      (node.after (readCalls m address reads)) := by
  have hmemory := answersFrom (node.after (readCalls m address [])) (m - 1) address
  have hquiet : (node.after (readCalls m address [])).failRequests = false := hb.failRequests_eq
  have hresolve := Gateway.fails_resolveCommands_of_resolution (g := baseGateway config) hmemory
    ⟨hquiet, rfl⟩ (congrArg Prod.snd he)
  have hreads : (resolution config.maxValueLength constants (node.storage.word address) []
      commands).1 = reads := congrArg Prod.fst he
  have hafter := foldl_after_readCalls node m address reads
  rw [Gateway.prove, Run.fails_bind_pure, ← hafter, ← hreads]
  exact Gateway.fails_proveTarget hc (returns_block hb hm h0 hp) hresolve

/-- Commands that resolve are proven after their reads. -/
theorem returns_prove_of_resolution {rs : List Resolved} (hb : Built pushed node)
    (hc : commands.length ≤ config.maxCommands) (hm : IsGreatest {n | n ∈ pushed} m) (h0 : m ≠ 0)
    (hp : m - 1 ∈ pushed)
    (hr : (resolution config.maxValueLength constants (node.storage.word address) [] commands).2 =
      .ok rs) :
    ∃ blob, ((baseGateway config).prove address commands constants).Returns node blob
        (node.after (readCalls m address (slotsOf rs) ++
          [proofCall (m - 1) address (slotsOf rs)])) ∧
      (AnchoredBlock.l1 (newHeader (m - 1))).encodeProof
        (node.proofResponse address (slotsOf rs)).stateProof = .ok blob ∧
      (blob.length < Abi.Codec.addressable → ProvesBlock blob (m - 1) (slotsOf rs).length) := by
  have hmemory := answersFrom (node.after (readCalls m address [])) (m - 1) address
  have hquiet : ∀ issued, (node.after issued).failRequests = false := fun _ => hb.failRequests_eq
  have hreads := hmemory.returns_readInTurn ⟨hquiet _, rfl⟩ (slotsOf rs)
  have hproof := answer_proofs (hquiet (readCalls m address (slotsOf rs))) (m - 1) address
    (slotsOf rs)
  have hkeys := keys_proofResponse node address (slotsOf rs)
  have hcount := congrArg List.length hkeys
  rw [foldl_after_readCalls] at hreads
  rw [after_after] at hproof
  rw [List.length_map] at hcount
  rw [← hcount]
  exact ⟨_, Gateway.returns_prove.2 ⟨_, Gateway.returns_proveTarget.2 ⟨hc, _, _, rs, _, _, _,
    returns_block hb hm h0 hp, hreads, resolution_eq_ok_iff_replay.1 hr, rfl,
    Service.returns_ask.2 hproof, hkeys, rfl⟩⟩, rfl, provesBlock_of_encodeProof rfl⟩

/-- **Proofs of the base chain are made at the parent of the latest block.** If no block was pushed,
or only the first one, or not the parent of the latest one, then the call fails with an error of the
node, and nothing but headers is asked for. Otherwise the stored words decide, by the resolution of
the commands. The word at each slot of the resolution is asked for, in order, at the parent, and if
all commands resolve, the proof of these very slots is, once; then the call returns a blob that
tells the number of the parent, its header and its hash, and has one storage proof per slot. A byte
string in memory has fewer than `2 ^ 63` bytes, so every blob that a gateway returns can be read. -/
theorem prove_baseGateway (hb : Built pushed node) (hc : commands.length ≤ config.maxCommands)
    (address : Address) (constants : List Bytes) :
    let call := (baseGateway config).prove address commands constants
    (pushed = [] ∨ IsGreatest {n | n ∈ pushed} 0 →
      ∃ failure, call.Fails node (.io failure) (node.after [headerCall .latest])) ∧
    ∀ m, IsGreatest {n | n ∈ pushed} m → m ≠ 0 →
      (m - 1 ∉ pushed →
        ∃ failure, call.Fails node (.io failure) (node.after (readCalls m address []))) ∧
      (m - 1 ∈ pushed → ∃ reads outcome,
        resolution config.maxValueLength constants (node.storage.word address) [] commands =
          (reads, outcome) ∧
        (∀ e, outcome = .error e → call.Fails node e (node.after (readCalls m address reads))) ∧
        ∀ rs, outcome = .ok rs → reads = slotsOf rs ∧ ∃ blob,
          call.Returns node blob
            (node.after (readCalls m address reads ++ [proofCall (m - 1) address reads])) ∧
          (AnchoredBlock.l1 (newHeader (m - 1))).encodeProof
            (node.proofResponse address reads).stateProof = .ok blob ∧
          (blob.length < Abi.Codec.addressable → ProvesBlock blob (m - 1) reads.length)) := by
  refine ⟨?_, ?_⟩
  · intro h
    obtain ⟨failure, hblock⟩ := answer_parentOfLatestBlock_of_no_parent hb h
    exact ⟨failure, fails_prove_of_block hc hblock⟩
  intro m hm h0
  refine ⟨?_, ?_⟩
  · intro hp
    have hblock := answer_parentOfLatestBlock hb hm h0
    rw [if_neg hp] at hblock
    exact ⟨_, fails_prove_of_block hc hblock⟩
  · intro hp
    refine ⟨_, _, rfl, ?_, ?_⟩
    · intro e he
      exact fails_prove_of_resolution hb hc hm h0 hp (Prod.ext rfl he)
    · intro rs hr
      rw [reads_of_resolution hr]
      exact ⟨rfl, returns_prove_of_resolution hb hc hm h0 hp hr⟩

/-- A node with two blocks, and with a word at slot zero of the zero address. -/
def twoBlocks : SimulatedNode :=
  let blocks := (pushBlock {} 0).pushBlock 1
  { blocks with storage := blocks.storage.write .zero 0 (UInt256.toWord 5) }

theorem built_twoBlocks : Built [1, 0] twoBlocks :=
  .setStorage .zero 0 (UInt256.toWord 5) (.pushBlock 1 (.pushBlock 0 .empty))

theorem prove_baseGateway_twoBlocks :
    ∃ blob, ((baseGateway {}).prove .zero [.ofByte 0 0] [[]]).Returns twoBlocks blob
      (twoBlocks.after [headerCall .latest, headerCall (.number 0), storageCall 0 .zero 0,
        proofCall 0 .zero [0]]) ∧ ProvesBlock blob 0 1 := by
  have hm : IsGreatest {n | n ∈ [(1 : BitVec 64), 0]} 1 := largest_eq_some_iff.1 rfl
  have hc : [Command.ofByte 0 0].length ≤ ({} : Config).maxCommands := by decide
  have hr : resolution ({} : Config).maxValueLength [[]] (twoBlocks.storage.word .zero) []
      [.ofByte 0 0] = ([0], .ok [⟨[0], (UInt256.toWord 5).toList⟩]) := rfl
  have hlength : ∀ blob, (AnchoredBlock.l1 (newHeader 0)).encodeProof
      (twoBlocks.proofResponse .zero [0]).stateProof = .ok blob →
        blob.length < Abi.Codec.addressable := by
    intro blob he
    rw [← Except.ok.inj he]
    decide +kernel
  obtain ⟨reads, outcome, hresolution, -, hok⟩ :=
    ((prove_baseGateway built_twoBlocks hc .zero [[]]).2 1 hm (by decide)).2 (by decide)
  obtain ⟨rfl, rfl⟩ := Prod.ext_iff.1 (hr.symm.trans hresolution)
  obtain ⟨-, blob, hreturns, hencode, hproves⟩ := hok _ rfl
  exact ⟨blob, hreturns, hproves (hlength blob hencode)⟩

end SimulatedNode

end StorageGateway
