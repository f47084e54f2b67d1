import StorageGateway.Config
import StorageGateway.Json.Parser
import StorageGateway.Json.Reading

/-!
# Configurations in JSON

A configuration file is a JSON object; the fields that it leaves out keep their defaults.

## Main definitions

* `Config.ofJson?`, `Config.parse?` and `Config.toJson`.
-/

namespace StorageGateway.Config

/-- The fields of a configuration. -/
def fields : List (String × Json.Shape) :=
  [("maxCommands", .any), ("maxValueLength", .any), ("parallelReads", .any)]

/-- A configuration from a JSON object. -/
def ofJson? : Json → Option Config :=
  Json.record? fields do
    let standard : Config := {}
    let maxCommands ← Json.defaulted standard.maxCommands Json.nat?
    let maxValueLength ← Json.defaulted standard.maxValueLength Json.nat?
    let parallelReads ← Json.defaulted standard.parallelReads Json.bool?
    pure { maxCommands, maxValueLength, parallelReads }

/-- A configuration from JSON text. -/
def parse? (text : String) : Option Config := (Json.parseAs? (.record fields) text).bind ofJson?

/-- A configuration as a JSON object. -/
def toJson (c : Config) : Json :=
  .obj
    [("maxCommands", .nat c.maxCommands), ("maxValueLength", .nat c.maxValueLength),
     ("parallelReads", .bool c.parallelReads)]

end StorageGateway.Config
