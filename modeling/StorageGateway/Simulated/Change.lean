import StorageGateway.Simulated.Chain

/-!
# Changes to a simulated chain

What happens to a simulated chain between the questions it is asked: words and byte strings are
written to the storage of contracts, and failures are switched on and off.

## Main definitions

* `StorageWrite` — a write to the storage of a contract.
* `SimulatedChain.Change` — a change to a chain.
-/

namespace StorageGateway

/-- A write to the storage of a contract. -/
inductive StorageWrite where
  /-- A word at a slot. -/
  | word (address : Address) (slot : UInt256) (word : Word)
  /-- A byte string of any length at its base slot. -/
  | bytes (address : Address) (slot : UInt256) (value : Bytes)
deriving DecidableEq

namespace StorageWrite

/-- The contract that is written to. -/
def address : StorageWrite → Address
  | .word address .. => address
  | .bytes address .. => address

/-- The storage after the write. -/
def apply : StorageWrite → Storage → Storage
  | .word address slot w, s => s.write address slot w
  | .bytes address slot value, s => s.writeDynamic address slot value

/-- The storage after some writes, one after the other. -/
def applyAll (writes : List StorageWrite) (s : Storage) : Storage :=
  writes.foldl (fun s write => write.apply s) s

end StorageWrite

namespace SimulatedChain

/-- A change to a chain. -/
inductive Change where
  /-- A write to storage. -/
  | write (write : StorageWrite)
  /-- Reads fail from now on, or no longer do. -/
  | failReads (on : Bool)
  /-- Proofs lack their last storage proof from now on, or no longer do. -/
  | dropProof (on : Bool)
deriving DecidableEq

/-- The chain after a change. -/
def Change.apply : Change → SimulatedChain → SimulatedChain
  | .write w, c => { c with storage := w.apply c.storage }
  | .failReads on, c => { c with failReads := on }
  | .dropProof on, c => { c with dropProof := on }

end SimulatedChain

end StorageGateway
