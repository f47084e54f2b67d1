import StorageGateway.Error

/-!
# Packed nodes

Scroll's verifier takes the nodes of one account proof and one storage proof in a single byte
string: the count of account nodes in one byte, these nodes, the count of storage nodes in one
byte, and these nodes. Where a node ends is told by its own encoding, so each has to be one RLP
item.

## Main definitions

* `Packed.pack` and `Packed.unpack`.
-/

namespace StorageGateway.Packed

/-- The most nodes that a count can tell. -/
def maxNodes : Nat := 255

/-- The count of nodes, then the nodes. -/
def packList (nodes : List Bytes) : Result Bytes :=
  if nodes.length ≤ maxNodes then .ok (UInt8.ofNat nodes.length :: nodes.flatten)
  else .error (.encoding s!"{nodes.length} proof nodes exceed the 255 node limit")

/-- The packed form of an account proof and a storage proof. -/
def pack (account storage : List Bytes) : Result Bytes := do
  let front ← packList account
  let back ← packList storage
  pure (front ++ back)

/-- Takes one RLP item, header included, off the front. What is inside the item is not looked
at. -/
def takeItem : Rlp.Reader Bytes := fun buffer => do
  let (h, rest) ← Rlp.Header.read buffer
  let n := buffer.length - rest.length + h.payloadLength
  .ok (buffer.take n, buffer.drop n)

/-- Takes `count` RLP items off the front. -/
def takeItems : (count : Nat) → Rlp.Reader (List Bytes)
  | 0 => pure []
  | count + 1 => do
    let item ← takeItem
    let items ← takeItems count
    pure (item :: items)

/-- Takes a count and as many nodes off the front. -/
def unpackList : Bytes → Result (List Bytes × Bytes)
  | [] => .error (.encoding "missing node count")
  | count :: rest => Result.ofRlp (takeItems count.toNat rest)

/-- The account proof and the storage proof of a packed form. -/
def unpack (packed : Bytes) : Result (List Bytes × List Bytes) := do
  let (account, rest) ← unpackList packed
  let (storage, rest) ← unpackList rest
  if rest.isEmpty then pure (account, storage)
  else throw (.encoding s!"{rest.length} trailing bytes after compressed proof")

end StorageGateway.Packed
