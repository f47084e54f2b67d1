import StorageGateway.Cli.Run

/-!
# The program

Reads the files that the arguments name, and prints and writes what `Cli.run` decides.
-/

namespace StorageGateway.Cli

/-- The text of a file, or why there is none. -/
def readText (path : String) : IO (Except String String) := do
  try
    let bytes ← IO.FS.readBinFile path
    match String.fromUTF8? bytes with
    | some text => pure (.ok text)
    | none => pure (.error "the file is no text")
  catch e => pure (.error e.toString)

/-- The paths of the files that the arguments name. -/
def namedFiles (args : List String) : List String :=
  match Invocation.parse args with
  | .error _ => []
  | .ok invocation =>
    invocation.config.toList ++
      match invocation.task with
      | .decode _ (.file path) _ => [path]
      | _ => []

/-- Prints what is to be printed and gives the exit code. -/
def report (outcome : Outcome) : IO UInt32 := do
  IO.print outcome.stdout
  if let some message := outcome.message then
    IO.eprintln ("Error: " ++ message)
  pure (UInt32.ofNat outcome.exit)

/-- Writes what is to be written, then reports. -/
def finish (outcome : Outcome) : IO UInt32 := do
  match outcome.write with
  | none => report outcome
  | some (path, text) =>
    try
      IO.FS.writeFile path text
      report outcome
    catch _ => report (.writeFailed path)

end StorageGateway.Cli

open StorageGateway.Cli in
/-- Does what the arguments ask for. -/
def main (args : List String) : IO UInt32 := do
  let texts ← (namedFiles args).mapM fun path => do
    let text ← readText path
    pure (path, text)
  finish (run (fun path => (texts.lookup path).getD (.error "the file was not read")) args)
