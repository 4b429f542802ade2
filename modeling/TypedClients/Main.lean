import TypedClients.CommandLine.Execute

namespace TypedClients.CommandLine

/-- The real disk. A path that leads through a file (system code 20) names nothing. -/
def realDisk : Disk IO where
  read path := do
    try return .text (← IO.FS.readFile path)
    catch
      | .noFileOrDirectory .. => return .missing
      | .inappropriateType _ 20 _ => return .missing
      | e => return .unreadable (toString e)
  createDirectories path := do
    if path = "" then return none
    try
      IO.FS.createDirAll path
      return none
    catch e => return some (toString e)
  write path content := do
    try
      IO.FS.writeFile path content
      return none
    catch e => return some (toString e)

def printFailure (failure : Failure) : IO Unit := do
  match failure.flatMap Cause.messages with
  | [] => return
  | [text] => IO.eprintln ("Error: " ++ text)
  | [text, cause] => IO.eprintln ("Error: " ++ text ++ "\n\nCaused by:\n    " ++ cause)
  | text :: causes =>
    IO.eprintln ("Error: " ++ text ++ "\n\nCaused by:")
    for (cause, i) in causes.zipIdx do IO.eprintln ("    " ++ toString i ++ ": " ++ cause)

end TypedClients.CommandLine

open TypedClients.CommandLine in
def main (arguments : List String) : IO UInt32 := do
  match readArguments arguments with
  | .error e =>
    IO.eprintln "usage: apigen <generate | validate | inspect | init> [options]"
    return UInt32.ofNat e.exitCode
  | .ok command =>
    let outcome ← execute realDisk command
    IO.print outcome.stdout
    IO.eprint outcome.stderr
    printFailure outcome.failure
    return UInt32.ofNat outcome.exitCode
