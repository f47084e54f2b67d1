import StorageGateway.BlockHeader.Json
import StorageGateway.Layout

/-!
# Decoded proofs

A proof taken apart again: what anchors it, with the header or the packed nodes inside the witness
decoded too, and the trie nodes.

## Main definitions

* `Anchor` — a decoded witness.
* `DecodedProof`, with `DecodedProof.decode` and `DecodedProof.toJson`.
-/

namespace StorageGateway

/-- What anchors a proof, decoded. -/
inductive Anchor where
  | arbitrum (version sendRoot : Word) (nodeIndex : BitVec 64) (header : BlockHeader)
  | outputOracle (outputIndex : UInt256) (output : OutputRoot)
  | disputeGame (gameIndex : UInt256) (output : OutputRoot)
  | scroll (batchIndex : UInt256) (storageKey : Word) (account storage : List Bytes)
  | l1 (number : UInt256) (header : BlockHeader)
deriving DecidableEq

/-- A proof taken apart. -/
structure DecodedProof where
  /-- What anchors it. -/
  anchor : Anchor
  /-- Its trie nodes. -/
  nodes : NodeLists
deriving DecidableEq

/-- The header at the front of a byte string. -/
def BlockHeader.ofBytes (bs : Bytes) : Result BlockHeader :=
  Result.ofRlp ((BlockHeader.read bs).map (·.1))

namespace Witness

/-- Decodes what is inside a witness. -/
def anchor : Witness → Result Anchor
  | arbitrum version sendRoot nodeIndex header => do
    let header ← BlockHeader.ofBytes header
    pure (.arbitrum version sendRoot nodeIndex header)
  | outputOracle index output => pure (.outputOracle index output)
  | disputeGame index output => pure (.disputeGame index output)
  | scroll index key packed => do
    let (account, storage) ← Packed.unpack packed
    pure (.scroll index key account storage)
  | l1 number header => do
    let header ← BlockHeader.ofBytes header
    pure (.l1 number header)

end Witness

namespace OutputRoot

/-- An output root as a JSON object, with the commitment. -/
def toJson (o : OutputRoot) : Json :=
  .obj
    [("version", .fixed o.version), ("stateRoot", .fixed o.stateRoot),
     ("messagePasserStorageRoot", .fixed o.messagePasserStorageRoot),
     ("latestBlockhash", .fixed o.latestBlockhash), ("outputRoot", .fixed o.root)]

end OutputRoot

namespace Anchor

/-- The chain kind of an anchor. -/
def kind : Anchor → ChainKind
  | arbitrum .. => .arbitrum
  | outputOracle .. => .opOutputOracle
  | disputeGame .. => .opDisputeGame
  | scroll .. => .scroll
  | l1 .. => .l1

/-- An anchor as a JSON object. -/
def toJson : Anchor → Json
  | arbitrum version sendRoot nodeIndex header => .obj
    [("version", .fixed version), ("sendRoot", .fixed sendRoot),
     ("nodeIndex", .nat nodeIndex.toNat), ("block", header.toJson)]
  | outputOracle index output => .obj
    [("l2OutputIndex", .quantity index), ("outputRootProof", output.toJson)]
  | disputeGame index output => .obj
    [("disputeGameIndex", .quantity index), ("outputRootProof", output.toJson)]
  | scroll index key account storage => .obj
    [("batchIndex", .quantity index), ("storageKey", .fixed key),
     ("compressedProof", .obj
       [("accountProof", .bytesList account), ("storageProof", .bytesList storage)])]
  | l1 number header => .obj [("blockNo", .quantity number), ("blockHeader", header.toJson)]

end Anchor

namespace DecodedProof

/-- Takes a proof for a chain kind apart. The node lists are decoded before the witness. -/
def decode (kind : ChainKind) (data : Bytes) : Result DecodedProof := do
  let (witness, nodes) ← Result.ofAbi (Layout.decode kind data)
  let nodes ← nodes.lists
  let anchor ← witness.anchor
  pure ⟨anchor, nodes⟩

/-- A decoded proof as a JSON object; the members of the anchor are in alphabetical order. -/
def toJson (d : DecodedProof) : Json :=
  .obj
    [("chain", .str d.anchor.kind.name), ("witness", d.anchor.toJson.sorted),
     ("accountProof", .bytesList d.nodes.account),
     ("storageProofs", .arr (d.nodes.storage.map .bytesList))]

end DecodedProof

end StorageGateway
