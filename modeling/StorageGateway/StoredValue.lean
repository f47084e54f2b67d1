import StorageGateway.Command.Derivation
import StorageGateway.Config
import StorageGateway.Service
import StorageGateway.Storage.LengthWord

/-!
# Stored values

One value in the storage of a contract: the slots that prove it and the way to its bytes. The
bytes are read when they are first asked for; every later asking gets the outcome of that first
time, a failure included.

## Main definitions

* `StoredValue` — the slots, the way to the bytes, and the outcome of the first reading.
* `StoredValue.resolve` — the value at a base slot.
* `StoredValue.value` — its bytes.
-/

namespace StorageGateway

/-- The way to the bytes of a value. -/
inductive Access where
  /-- They are the word at the base slot. -/
  | word
  /-- The base slot holds them, and was read already. -/
  | inline (value : Bytes)
  /-- There are `length` of them in the data slots. -/
  | span (length : Nat)
deriving DecidableEq

/-- One value in the storage of a contract. -/
structure StoredValue where
  /-- The contract. -/
  address : Address
  /-- The base slot. -/
  base : UInt256
  /-- The data slots of a long value. -/
  data : List UInt256
  /-- Whether the value has a dynamic length. -/
  isDynamic : Bool
  /-- The way to the bytes. -/
  access : Access
  /-- Whether the data slots are read several at a time. -/
  parallelReads : Bool
  /-- The outcome of the first reading. -/
  outcome : Option (Result Bytes) := none

namespace StoredValue

variable {σ β : Type}

/-- The slots that prove the value, the base slot first. -/
def slots (v : StoredValue) : List UInt256 := v.base :: v.data

/-- A value of fixed length. -/
def ofFixed (config : Config) (address : Address) (base : UInt256) : StoredValue :=
  ⟨address, base, [], false, .word, config.parallelReads, none⟩

/-- A value of dynamic length, for what its length word tells. -/
def ofLength (config : Config) (address : Address) (base : UInt256) : LengthWord → StoredValue
  | .short value => ⟨address, base, [], true, .inline value, config.parallelReads, none⟩
  | .long length data => ⟨address, base, data, true, .span length, config.parallelReads, none⟩

/-- The value at a base slot. If its length is dynamic, the base slot is read, which tells how
long it is. -/
def resolve (s : Service σ β) (config : Config) (block : β) (address : Address)
    (base : BaseSlot) : Run σ StoredValue :=
  if base.isDynamic then do
    let word ← s.read block address base.slot
    let length ← Run.ofResult (LengthWord.ofWord base.slot word config.maxValueLength)
    pure (ofLength config address base.slot length)
  else pure (ofFixed config address base.slot)

/-- Reads the bytes. Data slots that are read several at a time finish in the order of a schedule,
the oldest one first if nothing else is said. -/
def fetch (s : Service σ β) (block : β) (v : StoredValue)
    (schedule : ReadWindow.Schedule := ReadWindow.oldestFirst) : Run σ Bytes :=
  let read := s.read block v.address
  match v.access with
  | .word => do
    let word ← read v.base
    pure word.toList
  | .inline value => pure value
  | .span length => do
    let words ← if v.parallelReads then ReadWindow.read read schedule v.data
      else readInTurn read v.data
    pure ((words.flatMap (·.toList)).take length)

/-- The bytes, and the value with the outcome recorded. -/
def value (s : Service σ β) (block : β) (v : StoredValue)
    (schedule : ReadWindow.Schedule := ReadWindow.oldestFirst) :
    StateM σ (Result Bytes × StoredValue) := do
  match v.outcome with
  | some outcome => pure (outcome.mapError .memoized, v)
  | none =>
    let outcome ← (v.fetch s block schedule).run
    pure (outcome.mapError .memoized, { v with outcome := some outcome })

end StoredValue

end StorageGateway
