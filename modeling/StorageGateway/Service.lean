import StorageGateway.StateProof

/-!
# Services

A gateway never talks to a chain itself. A service picks the block to prove against, reads storage
words while commands are resolved, fetches the proof of all slots at once, and packs it for the
chain's verifier. A service has a state, which its answers may depend on and may change.

## Main definitions

* `Query` — a question to a collaborator, and `Run` — a computation that asks some.
* `Service` — the four operations, and `Service.block`, `Service.read`, `Service.prove` — the
  first three as computations.
* `readInTurn` and `ReadWindow` — reading several slots one after the other, or several at a time.
-/

namespace StorageGateway

/-- A computation over a state `σ` that may fail; the changes to the state stay in either case. -/
abbrev Run (σ : Type) := ExceptT Error (StateM σ)

/-- An outcome that calls no service. -/
def Run.ofResult {σ α : Type} (r : Result α) : Run σ α := ExceptT.mk (pure r)

/-- A question to a collaborator with a state `σ`, which may fail to answer. -/
abbrev Query (σ : Type) := ExceptT Failure (StateM σ)

/-- What a gateway needs of a chain whose blocks are of type `β`. -/
structure Service (σ β : Type) where
  /-- The most recent block whose state can be proven. -/
  provableBlock : Query σ β
  /-- The word at a slot of a contract at a block. -/
  storageAt : β → Address → UInt256 → Query σ Word
  /-- The proof of a contract and of slots in its storage at a block. -/
  proofs : β → Address → List UInt256 → Query σ StateProof
  /-- The proof in the layout of the chain's verifier. -/
  encodeProof : β → StateProof → Result Bytes

namespace Service

variable {σ β : Type}

/-- Asks a collaborator, whose failure is the failure of the computation. -/
def ask {α : Type} (query : Query σ α) : Run σ α := ExceptT.adapt Error.io query

/-- The block to prove against. -/
def block (s : Service σ β) : Run σ β := ask s.provableBlock

/-- The word at a slot. -/
def read (s : Service σ β) (block : β) (address : Address) (slot : UInt256) : Run σ Word :=
  ask (s.storageAt block address slot)

/-- The proof of slots. -/
def prove (s : Service σ β) (block : β) (address : Address) (slots : List UInt256) :
    Run σ StateProof :=
  ask (s.proofs block address slots)

end Service

/-! ## Reading several slots -/

variable {σ : Type}

/-- Reads slots one after the other, up to the first failure. -/
def readInTurn (read : UInt256 → Run σ Word) : List UInt256 → Run σ (List Word)
  | [] => pure []
  | slot :: slots => do
    let word ← read slot
    let words ← readInTurn read slots
    pure (word :: words)

/-- Reads of several slots, some of them under way at the same time. Reads start in the order of
the slots and their words are handed on in that order, but they may finish in any order. -/
structure ReadWindow where
  /-- The slots whose reads have not started. -/
  waiting : List UInt256
  /-- The reads that have started and are not handed on, each with its outcome once finished. -/
  started : List (UInt256 × Option (Result Word))
  /-- The words handed on, the last one first. -/
  words : List Word

namespace ReadWindow

/-- How many reads may be started and not handed on. -/
def capacity : Nat := 16

/-- A window before any read. -/
def start (slots : List UInt256) : ReadWindow := ⟨slots, [], []⟩

/-- Starts as many reads as there is room for. -/
def fill (w : ReadWindow) : ReadWindow :=
  let room := capacity - w.started.length
  { w with
    waiting := w.waiting.drop room
    started := w.started ++ (w.waiting.take room).map (·, none) }

/-- The places of the reads that are under way. -/
def underWay (w : ReadWindow) : List Nat :=
  (w.started.zipIdx.filter fun ((_, outcome), _) => outcome.isNone).map (·.2)

/-- Hands on the words of finished reads, up to the first unfinished one or the first failure. -/
def drain : List (UInt256 × Option (Result Word)) → List Word →
    Result (List (UInt256 × Option (Result Word)) × List Word)
  | (_, some (.ok word)) :: rest, words => drain rest (word :: words)
  | (_, some (.error e)) :: _, _ => .error e
  | started, words => .ok (started, words)

/-- The read at a place finishes. -/
def finish (w : ReadWindow) (place : Nat) (outcome : Result Word) : Result ReadWindow :=
  (drain (w.started.modify place fun (slot, _) => (slot, some outcome)) w.words).map
    fun (started, words) => { w with started, words }

/-- Which of the reads under way finishes next: an index into their list, for each count of reads
that have yet to finish. An index that is too large stands for the last one. -/
abbrev Schedule := Nat → Nat

/-- The order of reads that are answered at once: the oldest read finishes first. -/
def oldestFirst : Schedule := fun _ => 0

/-- Lets `count` more reads finish, in the order of a schedule. -/
def complete (read : UInt256 → Run σ Word) (schedule : Schedule) :
    (count : Nat) → ReadWindow → Run σ (List Word)
  | 0, w => pure w.words.reverse
  | count + 1, w => do
    let w := w.fill
    let places := w.underWay
    let place := places.getD (min (schedule count) (places.length - 1)) 0
    match w.started[place]? with
    | none => pure w.words.reverse
    | some (slot, _) =>
      let outcome ← ExceptT.mk (Except.ok <$> (read slot).run)
      let w ← Run.ofResult (w.finish place outcome)
      complete read schedule count w

/-- Reads slots through a window. -/
def read (read : UInt256 → Run σ Word) (schedule : Schedule) (slots : List UInt256) :
    Run σ (List Word) :=
  complete read schedule slots.length (start slots)

end ReadWindow

end StorageGateway
