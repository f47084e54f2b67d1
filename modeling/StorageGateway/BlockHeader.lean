import StorageGateway.Rlp

/-!
# Block headers

A block header has fifteen fields from the start of the chain and six that later forks added, in
this order; a header of an old block lacks them. The encoding ends before the first fork field
that is absent, so a header whose fork fields have a gap encodes like its `trim`.

The block hash is the digest of the encoding.

## Main definitions

* `BlockHeader` — the fields, and `BlockHeader.trim` — the header without the fields after a gap.
* `BlockHeader.encode`, `BlockHeader.read` — the encoding.
* `BlockHeader.length` — its length, computed from the lengths of the fields.
* `BlockHeader.hash` — the block hash.
-/

namespace StorageGateway

/-- A block header. -/
structure BlockHeader where
  parentHash : Word := default
  sha3Uncles : Word := default
  miner : Address := default
  stateRoot : Word := default
  transactionsRoot : Word := default
  receiptsRoot : Word := default
  logsBloom : FixedBytes 256 := default
  difficulty : UInt256 := 0
  number : BitVec 64 := 0
  gasLimit : BitVec 64 := 0
  gasUsed : BitVec 64 := 0
  timestamp : BitVec 64 := 0
  extraData : Bytes := []
  mixHash : Word := default
  nonce : FixedBytes 8 := default
  baseFeePerGas : Option UInt256 := none
  withdrawalsRoot : Option Word := none
  blobGasUsed : Option (BitVec 64) := none
  excessBlobGas : Option (BitVec 64) := none
  parentBeaconBlockRoot : Option Word := none
  requestsHash : Option Word := none
deriving DecidableEq

/-! ## Fields -/

/-- A field as it is encoded. -/
inductive HeaderField where
  /-- A byte string. -/
  | string (bs : Bytes)
  /-- A number of at most 256 bits. -/
  | number (n : UInt256)

namespace HeaderField

/-- The encoding of a field. -/
def encode : HeaderField → Bytes
  | string bs => Rlp.string bs
  | number n => Rlp.number n

/-- The length of the encoding of a field. -/
def length : HeaderField → Nat
  | string bs => Rlp.stringLength bs
  | number n => Rlp.numberLength n.toNat

/-- A byte string of fixed length. -/
def fixed {n : Nat} (a : FixedBytes n) : HeaderField := string a.toList

/-- A number of 64 bits. -/
def number64 (n : BitVec 64) : HeaderField := number (n.setWidth 256)

end HeaderField

namespace BlockHeader

open HeaderField

/-- The fields of every header. -/
def baseFields (h : BlockHeader) : List HeaderField :=
  [fixed h.parentHash, fixed h.sha3Uncles, fixed h.miner, fixed h.stateRoot,
   fixed h.transactionsRoot, fixed h.receiptsRoot, fixed h.logsBloom, .number h.difficulty,
   number64 h.number, number64 h.gasLimit, number64 h.gasUsed, number64 h.timestamp,
   .string h.extraData, fixed h.mixHash, fixed h.nonce]

/-- The fields that forks added, in the order of the forks. -/
def forkFields (h : BlockHeader) : List (Option HeaderField) :=
  [h.baseFeePerGas.map .number, h.withdrawalsRoot.map fixed, h.blobGasUsed.map number64,
   h.excessBlobGas.map number64, h.parentBeaconBlockRoot.map fixed, h.requestsHash.map fixed]

/-- The entries before the first one that is absent. -/
def untilAbsent {α : Type} : List (Option α) → List α
  | some a :: rest => a :: untilAbsent rest
  | _ => []

/-- The fields that are encoded. -/
def fields (h : BlockHeader) : List HeaderField := h.baseFields ++ untilAbsent h.forkFields

/-- The header without the fork fields after the first one that is absent. -/
def trim (h : BlockHeader) : BlockHeader :=
  let w := h.baseFeePerGas.isSome
  let b := w && h.withdrawalsRoot.isSome
  let e := b && h.blobGasUsed.isSome
  let p := e && h.excessBlobGas.isSome
  let r := p && h.parentBeaconBlockRoot.isSome
  { h with
    withdrawalsRoot := if w then h.withdrawalsRoot else none
    blobGasUsed := if b then h.blobGasUsed else none
    excessBlobGas := if e then h.excessBlobGas else none
    parentBeaconBlockRoot := if p then h.parentBeaconBlockRoot else none
    requestsHash := if r then h.requestsHash else none }

/-! ## Encoding -/

/-- The length of the encoded fields. -/
def payloadLength (h : BlockHeader) : Nat := h.fields.foldr (fun field n => field.length + n) 0

/-- The length of the encoding. -/
def length (h : BlockHeader) : Nat := Rlp.headerLength h.payloadLength + h.payloadLength

/-- The encoded fields. -/
def payload (h : BlockHeader) : Bytes := h.fields.flatMap (·.encode)

/-- The encoding of a header: the list of its fields. -/
def encode (h : BlockHeader) : Bytes := Rlp.Header.encode ⟨true, h.payloadLength⟩ ++ h.payload

/-- The block hash. -/
def hash (h : BlockHeader) : Word := keccak256 h.encode

/-! ## Decoding -/

/-- Reads a fork field, which is absent where the payload has ended. -/
def readFork {α : Type} (read : Rlp.Reader α) : Rlp.Reader (Option α) := fun payload =>
  if payload.isEmpty then .ok (none, payload) else (read.map some) payload

/-- Reads the fields of a header. -/
def readFields : Rlp.Reader BlockHeader := do
  let parentHash ← Rlp.readFixed 32
  let sha3Uncles ← Rlp.readFixed 32
  let miner ← Rlp.readFixed 20
  let stateRoot ← Rlp.readFixed 32
  let transactionsRoot ← Rlp.readFixed 32
  let receiptsRoot ← Rlp.readFixed 32
  let logsBloom ← Rlp.readFixed 256
  let difficulty ← Rlp.readNumber 256
  let number ← Rlp.readNumber 64
  let gasLimit ← Rlp.readNumber 64
  let gasUsed ← Rlp.readNumber 64
  let timestamp ← Rlp.readNumber 64
  let extraData ← Rlp.readString
  let mixHash ← Rlp.readFixed 32
  let nonce ← Rlp.readFixed 8
  let baseFeePerGas ← readFork (Rlp.readNumber 256)
  let withdrawalsRoot ← readFork (Rlp.readFixed 32)
  let blobGasUsed ← readFork (Rlp.readNumber 64)
  let excessBlobGas ← readFork (Rlp.readNumber 64)
  let parentBeaconBlockRoot ← readFork (Rlp.readFixed 32)
  let requestsHash ← readFork (Rlp.readFixed 32)
  pure
    { parentHash, sha3Uncles, miner, stateRoot, transactionsRoot, receiptsRoot, logsBloom,
      difficulty, number, gasLimit, gasUsed, timestamp, extraData, mixHash, nonce, baseFeePerGas,
      withdrawalsRoot, blobGasUsed, excessBlobGas, parentBeaconBlockRoot, requestsHash }

/-- Reads a header. -/
def read : Rlp.Reader BlockHeader := do
  let n ← Rlp.readListHeader
  let payload ← Rlp.readRaw n
  let (h, rest) ← readFields payload
  if rest.isEmpty then pure h else throw (.listLengthMismatch n (n - rest.length))

end BlockHeader

end StorageGateway
