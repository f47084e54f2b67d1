import StorageGateway.BlockHeader
import StorageGateway.ChainKind
import StorageGateway.Layout.Packed
import StorageGateway.OutputRoot
import StorageGateway.StateProof

/-!
# Proof layouts

A proof goes to a verifier as two tuples: the witness, which anchors the state root to something
that the verifier's chain knows, and the trie nodes. Each chain kind has its own witness, and
takes the nodes in the raw or in the joined layout.

## Main definitions

* `AnchoredBlock` — a block with what anchors it, and `AnchoredBlock.encodeProof`.
* `Witness` and `ProofNodes` — the two tuples, and `Layout.decode` — reading them for a kind.
-/

namespace StorageGateway

/-- A block whose state can be proven, with what anchors it. -/
inductive AnchoredBlock where
  /-- A block confirmed by a node of the rollup contract. -/
  | arbitrum (sendRoot : Word) (nodeIndex : BitVec 64) (header : BlockHeader)
  /-- A block proposed in an output of the output oracle. -/
  | outputOracle (number : BitVec 64) (outputIndex : UInt256) (output : OutputRoot)
  /-- A block whose output root is the root claim of a dispute game. -/
  | disputeGame (number : BitVec 64) (gameIndex : UInt256) (output : OutputRoot)
  /-- A block committed in a batch. -/
  | scroll (number : BitVec 64) (batchIndex : UInt256)
  /-- A block of the base chain. -/
  | l1 (header : BlockHeader)
deriving DecidableEq

/-- What anchors a proof, as it stands in the proof. -/
inductive Witness where
  | arbitrum (version sendRoot : Word) (nodeIndex : BitVec 64) (header : Bytes)
  | outputOracle (outputIndex : UInt256) (output : OutputRoot)
  | disputeGame (gameIndex : UInt256) (output : OutputRoot)
  | scroll (batchIndex : UInt256) (storageKey : Word) (packed : Bytes)
  | l1 (number : UInt256) (header : Bytes)
deriving DecidableEq

/-- The trie nodes of a proof, in the layout of its kind. -/
inductive ProofNodes where
  | joined (nodes : JoinedNodes)
  | raw (nodes : NodeLists)
deriving DecidableEq

/-- The node lists of a proof. -/
def ProofNodes.lists : ProofNodes → Result NodeLists
  | joined nodes => nodes.split
  | raw nodes => .ok nodes

namespace Layout

/-! ## Arbitrum -/

/-- The two tuples of a proof for Arbitrum. -/
def arbitrum : Abi.Fields ((Word × Word × Word × Bytes) × Bytes × List Bytes) :=
  .cons (.tuple (.cons .word (.cons .word (.cons .uint64 (.single .bytes)))))
    (.single JoinedNodes.codec)

/-- The names of the tuples. -/
def arbitrumName : String := "(ArbWitnessData,MerkleTrieProof)"

/-! ## OP Stack -/

/-- The words of an output root as they stand in a proof. -/
def outputRoot : Abi.Codec (Word × Word × Word × Word) :=
  .tuple (.cons .word (.cons .word (.cons .word (.single .word))))

/-- The words of an output root. -/
def outputTokens (o : OutputRoot) : Word × Word × Word × Word :=
  (o.version, o.stateRoot, o.messagePasserStorageRoot, o.latestBlockhash)

/-- An output root from its words. -/
def outputOfTokens (t : Word × Word × Word × Word) : OutputRoot := ⟨t.1, t.2.1, t.2.2.1, t.2.2.2⟩

/-- The witness of a proof for an OP Stack chain: an index and an output root. -/
def indexedOutput : Abi.Codec (Word × Word × Word × Word × Word) :=
  .tuple (.cons .word (.single outputRoot))

/-- The two tuples of a proof against the output oracle. -/
def outputOracle : Abi.Fields ((Word × Word × Word × Word × Word) × Bytes × List Bytes) :=
  .cons indexedOutput (.single JoinedNodes.codec)

/-- The names of the tuples. -/
def outputOracleName : String := "(OutputOracleWitnessData,MerkleTrieProof)"

/-- The two tuples of a proof against a dispute game. -/
def disputeGame :
    Abi.Fields ((Word × Word × Word × Word × Word) × List Bytes × List (List Bytes)) :=
  .cons indexedOutput (.single NodeLists.codec)

/-- The names of the tuples. -/
def disputeGameName : String := "(DisputeGameWitnessData,StateTrieProof)"

/-! ## Scroll -/

/-- The two tuples of a proof for Scroll. -/
def scroll : Abi.Fields ((Word × Word × Bytes) × List Bytes × List (List Bytes)) :=
  .cons (.tuple (.cons .word (.cons .word (.single .bytes)))) (.single NodeLists.codec)

/-- The names of the tuples. -/
def scrollName : String := "(ScrollWitnessData,StateTrieProof)"

/-! ## The base chain -/

/-- The two tuples of a proof for the base chain. -/
def l1 : Abi.Fields ((Word × Bytes) × List Bytes × List (List Bytes)) :=
  .cons (.tuple (.cons .word (.single .bytes))) (.single NodeLists.codec)

/-- The names of the tuples. -/
def l1Name : String := "(L1WitnessData,StateTrieProof)"

/-! ## All kinds -/

/-- The two tuples of a proof for a chain kind. -/
def decode (kind : ChainKind) (data : Bytes) : Except Abi.Error (Witness × ProofNodes) := do
  match kind with
  | .arbitrum =>
    let ((version, sendRoot, nodeIndex, header), nodes) ← arbitrum.decode arbitrumName data
    pure (.arbitrum version sendRoot (BitVec.ofNat 64 nodeIndex.toNat) header,
      .joined (.ofTokens nodes))
  | .opOutputOracle =>
    let ((index, output), nodes) ← outputOracle.decode outputOracleName data
    pure (.outputOracle index.toUInt256 (outputOfTokens output), .joined (.ofTokens nodes))
  | .opDisputeGame =>
    let ((index, output), nodes) ← disputeGame.decode disputeGameName data
    pure (.disputeGame index.toUInt256 (outputOfTokens output), .raw (.ofTokens nodes))
  | .scroll =>
    let ((index, key, packed), nodes) ← scroll.decode scrollName data
    pure (.scroll index.toUInt256 key packed, .raw (.ofTokens nodes))
  | .l1 =>
    let ((number, header), nodes) ← l1.decode l1Name data
    pure (.l1 number.toUInt256 header, .raw (.ofTokens nodes))

end Layout

namespace AnchoredBlock

/-- The chain kind of a block. -/
def kind : AnchoredBlock → ChainKind
  | arbitrum .. => .arbitrum
  | outputOracle .. => .opOutputOracle
  | disputeGame .. => .opDisputeGame
  | scroll .. => .scroll
  | l1 .. => .l1

/-- The number of a block. -/
def number : AnchoredBlock → BitVec 64
  | arbitrum _ _ header | l1 header => header.number
  | outputOracle number .. | disputeGame number .. | scroll number _ => number

/-- The word of a number of 64 bits. -/
def word64 (n : BitVec 64) : Word := UInt256.toWord (n.setWidth 256)

/-- The proof of state at a block, in the layout of its chain's verifier. -/
def encodeProof (block : AnchoredBlock) (p : StateProof) : Result Bytes :=
  let raw := p.nodes.toTokens
  let joined := p.nodes.join.toTokens
  match block with
  | arbitrum sendRoot nodeIndex header =>
    .ok (Layout.arbitrum.encode ((.zero, sendRoot, word64 nodeIndex, header.encode), joined))
  | outputOracle _ index output =>
    .ok (Layout.outputOracle.encode ((index.toWord, Layout.outputTokens output), joined))
  | disputeGame _ index output =>
    .ok (Layout.disputeGame.encode ((index.toWord, Layout.outputTokens output), raw))
  | scroll _ index => do
    let first := p.storageProofs.head?
    let key := (first.map (·.key)).getD 0
    let packed ← Packed.pack p.accountNodes ((first.map (·.nodes)).getD [])
    pure (Layout.scroll.encode ((index.toWord, key.toWord, packed), raw))
  | l1 header =>
    .ok (Layout.l1.encode ((word64 header.number, header.encode), raw))

end AnchoredBlock

end StorageGateway
