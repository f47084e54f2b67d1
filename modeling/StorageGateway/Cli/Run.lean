import StorageGateway.Cli.Arguments
import StorageGateway.Config.Json
import StorageGateway.Gateway.Calls
import StorageGateway.Json.Printer
import StorageGateway.Layout.Decoded

/-!
# Doing a task

What the command line program prints and writes, given the texts of the files that it may read.
The program ends with 0 after its task, with 1 after an error, and with 2 if the arguments are not
understood.

## Main definitions

* `Cli.deriveSlots` — the base slots of commands, as the gateway would derive them.
* `Cli.Outcome` and `Cli.run`.
-/

namespace StorageGateway.Cli

/-- The files that can be read: the text at a path, or why there is none. -/
abbrev Files := String → Except String String

/-- How the program ends. -/
structure Outcome where
  /-- The exit code. -/
  exit : Nat
  /-- What is printed. -/
  stdout : String := ""
  /-- What went wrong. -/
  message : Option String := none
  /-- The file to be written: its path and its text. -/
  write : Option (String × String) := none
deriving DecidableEq

namespace Outcome

/-- An error. -/
def failure (message : String) : Outcome := { exit := 1, message := some message }

/-- The outcome where the file at a path cannot be written. -/
def writeFailed (path : String) : Outcome := failure s!"Failed to write decoded proof to {path}"

end Outcome

/-! ## Files -/

/-- The blanks that may stand around hexadecimal text. -/
def isBlank (c : Char) : Bool :=
  let n := c.toNat
  (9 ≤ n && n ≤ 13) || n = 32 || n = 0x85 || n = 0xa0 || n = 0x1680 ||
    (0x2000 ≤ n && n ≤ 0x200a) || n = 0x2028 || n = 0x2029 || n = 0x202f || n = 0x205f ||
    n = 0x3000

/-- The text without the blanks around it. -/
def strip (text : String) : String :=
  String.ofList ((text.toList.dropWhile isBlank).reverse.dropWhile isBlank).reverse

/-- The configuration in a file, or the standard one. -/
def loadConfig (files : Files) : Option String → Except String Config
  | none => .ok {}
  | some path =>
    match files path with
    | .error reason => .error s!"Failed to read configuration {path}: {reason}"
    | .ok text =>
      match Config.parse? text with
      | some config => .ok config
      | none => .error "invalid configuration"

/-- The proof of a source. -/
def loadProof (files : Files) : ProofSource → Except String Bytes
  | .argument proof => .ok proof
  | .file path =>
    match files path with
    | .error reason => .error reason
    | .ok text =>
      (Hex.read (strip text)).mapError fun flaw => s!"Invalid hex in {path}: {flaw.message}"

/-! ## Tasks -/

/-- Refuses the commands that a gateway with a configuration would refuse. -/
def checkCount (config : Config) (commands : List Command) : Result Unit :=
  if config.maxCommands < commands.length then
    .error (.tooManyCommands commands.length config.maxCommands)
  else .ok ()

/-- The base slots of commands, each with its command. -/
def deriveSlots (config : Config) (commands : List Command) (constants values : List Bytes) :
    Result (List (Command × BaseSlot)) := do
  checkCount config commands
  commands.mapM fun command => do
    let base ← Tables.derive ⟨constants, values⟩ command
    pure (command, base)

/-- A derived slot as a JSON object. -/
def slotJson (entry : Command × BaseSlot) : Json :=
  .obj
    [("command", .fixed entry.1), ("isDynamic", .bool entry.2.isDynamic),
     ("slot", .quantity entry.2.slot)]

/-- Does a task. -/
def perform (files : Files) (config : Config) : Task → Outcome
  | .slot commands constants values =>
    match deriveSlots config commands constants values with
    | .ok slots => { exit := 0, stdout := (Json.arr (slots.map slotJson)).pretty ++ "\n" }
    | .error e => .failure e.message
  | .calldata target commands constants =>
    match checkCount config commands with
    | .ok () =>
      { exit := 0, stdout := Hex.ofBytes (SingleCall.encode ⟨target, commands, constants⟩) ++ "\n" }
    | .error e => .failure e.message
  | .decode chain source output =>
    match loadProof files source with
    | .error message => .failure message
    | .ok proof =>
      match DecodedProof.decode chain proof, output with
      | .error e, _ => .failure e.message
      | .ok decoded, none => { exit := 0, stdout := decoded.toJson.pretty ++ "\n" }
      | .ok decoded, some path => { exit := 0, write := some (path, decoded.toJson.pretty) }

/-- What the program does for its arguments. -/
def run (files : Files) (args : List String) : Outcome :=
  match Invocation.parse args with
  | .error .invalid => { exit := 2 }
  | .error (.version program) => { exit := 0, stdout := program ++ " " ++ programVersion ++ "\n" }
  | .ok invocation =>
    match loadConfig files invocation.config with
    | .error message => .failure message
    | .ok config => perform files config invocation.task

end StorageGateway.Cli
