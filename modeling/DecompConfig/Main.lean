import DecompConfig.CommandLine.Execution

namespace DecompConfig.CommandLine

/-- The content of a file that can be read and is a text. -/
def contentOf? (path : String) : IO (Option String) := do
  try return some (← IO.FS.readFile path)
  catch _ => return none

/-- Writes a file and tells whether that was possible. -/
def tryWrite (path content : String) : IO Bool := do
  try
    IO.FS.writeFile path content
    return true
  catch _ => return false

/-- Prints a text and tells whether that was possible. -/
def tryPrint (text : String) : IO Bool := do
  try
    let stdout ← IO.getStdout
    stdout.putStr text
    stdout.flush
    return true
  catch _ => return false

/-- Shows what goes beside the standard output. -/
def Result.showErrors (result : Result) : IO Unit := do
  for event in result.log do
    IO.eprintln (event.level.label ++ " " ++ event.message)
  IO.eprint result.stderr

end DecompConfig.CommandLine

open DecompConfig.CommandLine in
/-- The files that the command names are read first. Whether its output can be written and whether the
standard output takes what is printed are found out by trying. -/
def main (args : List String) : IO UInt32 := do
  let paths := ((Invocation.ofArguments? args).map (·.command.paths)).getD []
  let contents ← paths.mapM fun path => do return (path, ← contentOf? path)
  let files (canWrite : Bool) : Files := ⟨fun path => (contents.lookup path).join, fun _ => canWrite⟩
  let attempt := runOn .accepting (files true) args
  let canWrite ← match attempt.written with
    | some (path, content) => tryWrite path content
    | none => pure true
  let expected := runOn .accepting (files canWrite) args
  let result := if ← tryPrint expected.stdout then expected else runOn .refusing (files canWrite) args
  result.showErrors
  return .ofNat result.status
