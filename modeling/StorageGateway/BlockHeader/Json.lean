import StorageGateway.BlockHeader
import StorageGateway.Json.Parser
import StorageGateway.Json.Reading

/-!
# Block headers in JSON

Nodes answer with headers as JSON objects, one member per field. Fork fields that are absent have
no member; a gap among them stays as it is.

## Main definitions

* `BlockHeader.toJson`, `BlockHeader.ofJson?` and `BlockHeader.parse?`.
-/

namespace StorageGateway.BlockHeader

/-- The fields as members of an object, in order. -/
def jsonFields : List (String × Json.Shape) :=
  [("parentHash", .fixed 32), ("sha3Uncles", .fixed 32), ("miner", .fixed 20),
   ("stateRoot", .fixed 32), ("transactionsRoot", .fixed 32), ("receiptsRoot", .fixed 32),
   ("logsBloom", .fixed 256), ("difficulty", .any), ("number", .any), ("gasLimit", .any),
   ("gasUsed", .any), ("timestamp", .any), ("extraData", .any), ("mixHash", .fixed 32),
   ("nonce", .fixed 8), ("baseFeePerGas", .any), ("withdrawalsRoot", .fixed 32),
   ("blobGasUsed", .any), ("excessBlobGas", .any), ("parentBeaconBlockRoot", .fixed 32),
   ("requestsHash", .fixed 32)]

/-- The values of the fields, in order. -/
def fieldValues (h : BlockHeader) : List (Option Json) :=
  [some (.fixed h.parentHash), some (.fixed h.sha3Uncles), some (.fixed h.miner),
   some (.fixed h.stateRoot), some (.fixed h.transactionsRoot), some (.fixed h.receiptsRoot),
   some (.fixed h.logsBloom), some (.quantity h.difficulty), some (.quantity h.number),
   some (.quantity h.gasLimit), some (.quantity h.gasUsed), some (.quantity h.timestamp),
   some (.bytes h.extraData), some (.fixed h.mixHash), some (.fixed h.nonce),
   h.baseFeePerGas.map .quantity, h.withdrawalsRoot.map .fixed, h.blobGasUsed.map .quantity,
   h.excessBlobGas.map .quantity, h.parentBeaconBlockRoot.map .fixed, h.requestsHash.map .fixed]

/-- A header as a JSON object. -/
def toJson (h : BlockHeader) : Json :=
  .obj ((jsonFields.zip h.fieldValues).filterMap fun ((name, _), value) => value.map (name, ·))

/-- Reads the fields of a header. -/
def fieldReader : Json.FieldReader BlockHeader := do
  let parentHash ← Json.required (Json.fixed? 32)
  let sha3Uncles ← Json.required (Json.fixed? 32)
  let miner ← Json.required (Json.fixed? 20)
  let stateRoot ← Json.required (Json.fixed? 32)
  let transactionsRoot ← Json.required (Json.fixed? 32)
  let receiptsRoot ← Json.required (Json.fixed? 32)
  let logsBloom ← Json.required (Json.fixed? 256)
  let difficulty ← Json.required (Json.quantity? 256)
  let number ← Json.required (Json.quantity? 64)
  let gasLimit ← Json.required (Json.quantity? 64)
  let gasUsed ← Json.required (Json.quantity? 64)
  let timestamp ← Json.required (Json.quantity? 64)
  let extraData ← Json.required Json.bytes?
  let mixHash ← Json.required (Json.fixed? 32)
  let nonce ← Json.required (Json.fixed? 8)
  let baseFeePerGas ← Json.optional (Json.quantity? 256)
  let withdrawalsRoot ← Json.optional (Json.fixed? 32)
  let blobGasUsed ← Json.optional (Json.quantity? 64)
  let excessBlobGas ← Json.optional (Json.quantity? 64)
  let parentBeaconBlockRoot ← Json.optional (Json.fixed? 32)
  let requestsHash ← Json.optional (Json.fixed? 32)
  pure
    { parentHash, sha3Uncles, miner, stateRoot, transactionsRoot, receiptsRoot, logsBloom,
      difficulty, number, gasLimit, gasUsed, timestamp, extraData, mixHash, nonce, baseFeePerGas,
      withdrawalsRoot, blobGasUsed, excessBlobGas, parentBeaconBlockRoot, requestsHash }

/-- A header from a JSON object. -/
def ofJson? (j : Json) : Option BlockHeader := Json.record? jsonFields fieldReader j

/-- A header from JSON text. -/
def parse? (text : String) : Option BlockHeader :=
  (Json.parseAs? (.record jsonFields) text).bind ofJson?

end StorageGateway.BlockHeader
