import StorageGateway.StoredValue

/-!
# The gateway

A gateway proves values in the storage of contracts. For one target it picks a block, executes the
commands in order, each with the values of the commands before it, and fetches one proof for all
the slots that were found. A request may name several targets; their values accumulate, and a
target may stand for the address that an earlier value holds.

## Main definitions

* `Gateway.proveTarget` — one target, given the values resolved before it.
* `Gateway.prove` — a request for one target.
* `Gateway.proveAll` — a request for several targets.
-/

namespace StorageGateway

/-- What is asked about one target. -/
structure TargetRequest where
  /-- The contract, or a stand-in for an earlier value. -/
  target : Address
  /-- One command per value, in the order in which they depend on each other. -/
  commands : List Command
  /-- The constants that the commands select from. -/
  constants : List Bytes
  /-- The caller's number for the request; the gateway does not look at it. -/
  operationIndex : UInt256
deriving DecidableEq

/-- A target that is at most this number stands for an earlier value. -/
def maxTargetReference : Nat := 256

/-- The contract that a target means: the target itself, or the address in the first value. -/
def resolveTarget (target : Address) (values : List Bytes) : Result Address :=
  if maxTargetReference < target.toNat then .ok target
  else
    match values.head?.bind (FixedBytes.ofList? 32) with
    | none => .error (.invalidTargetReference target)
    | some word =>
      if (word.toList.take 12).all (· == 0) then .ok (Address.ofWord word)
      else .error (.invalidTargetReference target)

/-- A service and the limits for its requests. -/
structure Gateway (σ β : Type) where
  /-- The access to the chain. -/
  service : Service σ β
  /-- The limits. -/
  config : Config := {}

namespace Gateway

variable {σ β : Type}

/-- The slots and the value of a command. -/
def resolveCommand (g : Gateway σ β) (block : β) (address : Address) (tables : Tables)
    (command : Command) : Run σ (List UInt256 × Bytes) := do
  let base ← Run.ofResult (tables.derive command)
  let stored ← StoredValue.resolve g.service g.config block address base
  let (outcome, stored) ← ExceptT.lift (stored.value g.service block ReadWindow.oldestFirst)
  let value ← Run.ofResult outcome
  pure (stored.slots, value)

/-- The slots of all commands, and the values resolved before them together with theirs. -/
def resolveCommands (g : Gateway σ β) (block : β) (address : Address) (constants : List Bytes) :
    (values : List Bytes) → List Command → Run σ (List UInt256 × List Bytes)
  | values, [] => pure ([], values)
  | values, command :: commands => do
    let (slots, value) ← g.resolveCommand block address ⟨constants, values⟩ command
    let (more, values) ← g.resolveCommands block address constants (values ++ [value]) commands
    pure (slots ++ more, values)

/-- Proves one target. The result holds the encoded proof and the values resolved so far, the ones
of this target last. -/
def proveTarget (g : Gateway σ β) (address : Address) (commands : List Command)
    (constants values : List Bytes) : Run σ (Bytes × List Bytes) := do
  if g.config.maxCommands < commands.length then
    throw (.tooManyCommands commands.length g.config.maxCommands)
  let block ← g.service.block
  let (slots, values) ← g.resolveCommands block address constants values commands
  let proof ← g.service.prove block address slots
  Run.ofResult (proof.check slots)
  let encoded ← Run.ofResult (g.service.encodeProof block proof)
  pure (encoded, values)

/-- Answers a request for one target. -/
def prove (g : Gateway σ β) (address : Address) (commands : List Command)
    (constants : List Bytes) : Run σ Bytes := do
  let (proof, _) ← g.proveTarget address commands constants []
  pure proof

/-- The proofs of several targets, given the values resolved before them. -/
def proveRequests (g : Gateway σ β) : (values : List Bytes) → List TargetRequest →
    Run σ (List Bytes)
  | _, [] => pure []
  | values, request :: requests => do
    let target ← Run.ofResult (resolveTarget request.target values)
    let (proof, values) ← g.proveTarget target request.commands request.constants values
    let proofs ← g.proveRequests values requests
    pure (proof :: proofs)

/-- Answers a request for several targets: one proof per target, in order. -/
def proveAll (g : Gateway σ β) (requests : List TargetRequest) : Run σ (List Bytes) :=
  g.proveRequests [] requests

end Gateway

end StorageGateway
