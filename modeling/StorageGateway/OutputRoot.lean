import StorageGateway.Error

/-!
# Output roots

An OP Stack chain posts one word per proposal to its base chain, the output root. It commits to
the state root of a block, to the storage root of the contract that passes messages down, and to
the block hash.

## Main definitions

* `OutputRoot` — the words that are committed to, and `OutputRoot.root` — the commitment.
* `OutputRoot.check` — comparison with a posted root.
-/

namespace StorageGateway

/-- The words that an output root commits to. -/
structure OutputRoot where
  /-- The version of the commitment. -/
  version : Word
  /-- The state root of the block. -/
  stateRoot : Word
  /-- The storage root of the message passer. -/
  messagePasserStorageRoot : Word
  /-- The hash of the block. -/
  latestBlockhash : Word
deriving DecidableEq

namespace OutputRoot

/-- The words one after the other. -/
def preimage (o : OutputRoot) : Bytes :=
  o.version.toList ++ o.stateRoot.toList ++ o.messagePasserStorageRoot.toList ++
    o.latestBlockhash.toList

/-- The output root. -/
def root (o : OutputRoot) : Word := keccak256 o.preimage

/-- Compares with the root that was posted. -/
def check (o : OutputRoot) (posted : Word) : Result Unit :=
  if o.root = posted then .ok ()
  else
    let actual := Hex.ofBytes o.root.toList
    let expected := Hex.ofBytes posted.toList
    .error (.inconsistentState
      s!"output root {actual} does not match the posted root {expected}")

/-- The contract that passes messages down to the base chain. -/
def messagePasser : Address := FixedBytes.ofNat 20 0x4200000000000000000000000000000000000016

end OutputRoot

end StorageGateway
