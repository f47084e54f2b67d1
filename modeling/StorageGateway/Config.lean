/-!
# Configuration

The limits that a gateway puts on each request.
-/

namespace StorageGateway

/-- Limits of a gateway, and how it reads long values. -/
structure Config where
  /-- The most commands of one target. -/
  maxCommands : Nat := 32
  /-- The most bytes of a long value; each 32 of them take a read and a proof. -/
  maxValueLength : Nat := 1048576
  /-- Whether the slots of a long value are read several at a time. -/
  parallelReads : Bool := true
deriving DecidableEq, Repr

end StorageGateway
