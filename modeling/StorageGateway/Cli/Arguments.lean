import StorageGateway.ChainKind
import StorageGateway.Command

/-!
# Command line arguments

The command line names one task and its options. An option's value follows it or is joined to it
by an equals sign; a value that follows may not look like an option. Options of which only one is
wanted may not be repeated. Arguments are judged from left to right, and asking for the version
ends the reading.

`--config` may stand before the task, among its options, or in both places, where the latter
counts. `-v` may be repeated before the task and only makes the log longer.

## Main definitions

* `Task` and `Invocation` — what is to be done.
* `Invocation.parse` — reading the arguments.
-/

namespace StorageGateway.Cli

/-- Where a proof comes from. -/
inductive ProofSource where
  /-- The bytes of an argument. -/
  | argument (proof : Bytes)
  /-- A file with hexadecimal text. -/
  | file (path : String)
deriving DecidableEq

/-- What is to be done. -/
inductive Task where
  /-- Derive the base slots of commands. -/
  | slot (commands : List Command) (constants values : List Bytes)
  /-- Encode a call for one target. -/
  | calldata (target : Address) (commands : List Command) (constants : List Bytes)
  /-- Decode a proof. -/
  | decode (chain : ChainKind) (source : ProofSource) (output : Option String)
deriving DecidableEq

/-- A task and the configuration to do it with. -/
structure Invocation where
  /-- The file of the configuration. -/
  config : Option String
  /-- The task. -/
  task : Task
deriving DecidableEq

/-- Why there is no task to do. -/
inductive Usage where
  /-- The arguments are not understood. -/
  | invalid
  /-- The version of the program with this name is asked for. -/
  | version (program : String)
deriving DecidableEq

/-- The name of the program. -/
def programName : String := "evmgate"

/-- The version of the program. -/
def programVersion : String := "0.1.0"

/-! ## Options -/

/-- An option with its value. -/
abbrev Setting := String × String

/-- The characters of an argument that follow two dashes, split at the first equals sign. -/
def splitLong (cs : List Char) : String × Option String :=
  let name := cs.takeWhile (· ≠ '=')
  match cs.dropWhile (· ≠ '=') with
  | [] => (String.ofList name, none)
  | _ :: value => (String.ofList name, some (String.ofList value))

/-- Whether an argument may be the value of the option before it: it is a lone dash or starts with
another character. -/
def isValue (arg : String) : Bool := arg = "-" || arg.toList.head? ≠ some '-'

/-- An option that a task has. -/
structure Rule where
  /-- The name, without its dashes. -/
  name : String
  /-- Whether a text can be the value. -/
  accepts : String → Bool
  /-- Whether the option may be repeated. -/
  repeats : Bool

namespace Rule

/-- An option with a command as its value. -/
def command : Rule := ⟨"command", fun text => (Hex.fixed? 32 text).isSome, true⟩

/-- An option with any text as its value. -/
def text (name : String) : Rule := ⟨name, fun _ => true, true⟩

/-- An option with the path of a file as its value. -/
def path (name : String) : Rule := ⟨name, (· ≠ ""), false⟩

/-- The option with the configuration. -/
def config : Rule := path "config"

/-- Adds a setting to the ones before it, unless it breaks the rules. -/
def add (rules : List Rule) (settings : List Setting) (setting : Setting) :
    Except Usage (List Setting) :=
  match rules.find? (·.name = setting.1) with
  | none => .error .invalid
  | some rule =>
    if rule.accepts setting.2 ∧ (rule.repeats ∨ settings.all (·.1 ≠ rule.name)) then
      .ok (settings ++ [setting])
    else .error .invalid

end Rule

/-- The options of a task after those already read, each with its value, in order. Two dashes may
only end them. -/
def scan (rules : List Rule) (program : String) :
    (settings : List Setting) → List String → Except Usage (List Setting)
  | settings, [] => .ok settings
  | settings, arg :: args =>
    match arg.toList, args with
    | ['-', '-'], args => if args.isEmpty then .ok settings else .error .invalid
    | '-' :: '-' :: cs, args =>
      match splitLong cs, args with
      | ("version", none), _ => .error (.version program)
      | (name, some value), args =>
        match Rule.add rules settings (name, value) with
        | .ok settings => scan rules program settings args
        | .error usage => .error usage
      | (name, none), value :: args =>
        match isValue value, Rule.add rules settings (name, value) with
        | true, .ok settings => scan rules program settings args
        | _, _ => .error .invalid
      | (_, none), [] => .error .invalid
    | '-' :: 'V' :: _, _ => .error (.version program)
    | _, _ => .error .invalid

/-- The values of an option. -/
def valuesOf (settings : List Setting) (name : String) : List String :=
  (settings.filter (·.1 = name)).map (·.2)

/-- The value of an option that is not repeated, if it is given. -/
def valueOf? (settings : List Setting) (name : String) : Option String :=
  (valuesOf settings name).head?

/-- What is read from a value, unless it cannot be. -/
def orInvalid {α : Type} (value : Option α) : Except Usage α :=
  match value with
  | some a => .ok a
  | none => .error .invalid

/-- The commands, of which at least one is needed. -/
def commands (settings : List Setting) : Except Usage (List Command) := do
  let commands ← orInvalid ((valuesOf settings "command").mapM (Hex.fixed? 32))
  if commands.isEmpty then throw .invalid else pure commands

/-- Byte strings, each of them the bytes of an argument. -/
def texts (settings : List Setting) (name : String) : List Bytes :=
  (valuesOf settings name).map Bytes.ofText

/-! ## Tasks -/

/-- The name of a task as a program of its own. -/
def taskProgram (name : String) : String := programName ++ "-" ++ name

/-- The options of the task `slot`. -/
def slotRules : List Rule := [.command, .text "constant", .text "value", .config]

/-- The options of the task `calldata`. -/
def calldataRules : List Rule :=
  [⟨"target", fun text => (Hex.fixed? 20 text).isSome, false⟩, .command, .text "constant", .config]

/-- The options of the task `decode`. -/
def decodeRules : List Rule :=
  [⟨"chain", fun text => (ChainKind.ofName? text).isSome, false⟩, ⟨"proof", fun _ => true, false⟩,
   .path "input", .path "output", .config]

/-- Reads the options of a task, and with them the file of a configuration. -/
def parseTask (name : String) (args : List String) : Except Usage (Task × Option String) := do
  if name = "slot" then
    let settings ← scan slotRules (taskProgram name) [] args
    let commands ← commands settings
    pure (.slot commands (texts settings "constant") (texts settings "value"),
      valueOf? settings "config")
  else if name = "calldata" then
    let settings ← scan calldataRules (taskProgram name) [] args
    let target ← orInvalid ((valueOf? settings "target").bind (Hex.fixed? 20))
    let commands ← commands settings
    pure (.calldata target commands (texts settings "constant"), valueOf? settings "config")
  else if name = "decode" then
    let settings ← scan decodeRules (taskProgram name) [] args
    let chain ← orInvalid ((valueOf? settings "chain").bind ChainKind.ofName?)
    let output := valueOf? settings "output"
    let config := valueOf? settings "config"
    match valueOf? settings "proof", valueOf? settings "input" with
    | some proof, none => pure (.decode chain (.argument (Bytes.ofText proof)) output, config)
    | none, some input => pure (.decode chain (.file input) output, config)
    | _, _ => throw .invalid
  else throw .invalid

/-- Reads a run of one-letter options after a dash. -/
def parseLetters : List Char → Except Usage Unit
  | [] => .ok ()
  | 'v' :: cs => parseLetters cs
  | 'V' :: _ => .error (.version programName)
  | _ :: _ => .error .invalid

/-- A value of the option `--config` before the task, given what was read before. -/
def acceptConfig (config : Option String) (value : String) : Except Usage (Option String) :=
  if config.isSome ∨ value = "" then .error .invalid else .ok (some value)

/-- Reads the arguments before the task, then the task. -/
def parseFrom (config : Option String) : List String → Except Usage Invocation
  | [] => .error .invalid
  | arg :: args =>
    match arg.toList, args with
    | '-' :: '-' :: cs, args =>
      match splitLong cs, args with
      | ("version", none), _ => .error (.version programName)
      | ("v", none), args => parseFrom config args
      | ("config", some value), args =>
        match acceptConfig config value with
        | .ok config => parseFrom config args
        | .error usage => .error usage
      | ("config", none), value :: args =>
        match isValue value, acceptConfig config value with
        | true, .ok config => parseFrom config args
        | _, _ => .error .invalid
      | _, _ => .error .invalid
    | '-' :: c :: cs, args =>
      match parseLetters (c :: cs) with
      | .ok () => parseFrom config args
      | .error usage => .error usage
    | _, args => (parseTask arg args).map fun (task, inner) => ⟨inner.or config, task⟩

/-- Reads the arguments. -/
def Invocation.parse (args : List String) : Except Usage Invocation := parseFrom none args

end StorageGateway.Cli
