import StorageGateway.Layout
import StorageGateway.Rpc

/-!
# Services over a node

Services that read and prove through a node. They differ in the block that they prove against.

## Main definitions

* `Client.parentOfLatest` — proves the base chain at the parent of its latest block, the most
  recent block whose hash a verifier call can still see.
* `Client.pinned` — proves against a block that is given.
-/

namespace StorageGateway.Client

variable {σ : Type}

/-- The block before the latest one. -/
def parentOfLatestBlock (c : Client σ) : Query σ AnchoredBlock := do
  let latest ← c.header .latest
  if latest.number = 0 then throw "Chain has no block before genesis"
  let header ← c.header (.number (latest.number - 1))
  pure (.l1 header)

/-- A service that proves against the block that `provableBlock` gives. -/
def service (c : Client σ) (provableBlock : Query σ AnchoredBlock) :
    Service σ AnchoredBlock where
  provableBlock := provableBlock
  storageAt block := c.storageAt block.number
  proofs block := c.proofs block.number
  encodeProof := AnchoredBlock.encodeProof

/-- The service of the base chain. -/
def parentOfLatest (c : Client σ) : Service σ AnchoredBlock := c.service c.parentOfLatestBlock

/-- The service that always proves against one block. -/
def pinned (c : Client σ) (block : AnchoredBlock) : Service σ AnchoredBlock :=
  c.service (pure block)

end StorageGateway.Client
