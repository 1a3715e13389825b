import Std.Time.DateTime.Timestamp
import WorldLocks.CommandLine.Run
import WorldLocks.Json.Reader

/-!
# The command line

Reads the files that the command line names, runs the command, and prints the result to standard
output and everything else to standard error.
-/

set_option autoImplicit false

open WorldLocks

def readDocument (file : Text) : IO FileContent := do
  try
    let content ← IO.FS.readFile ⟨String.ofList file⟩
    pure ((Json.read content.toList).elim .unreadable .document)
  catch _ => pure .missing

def reportFailure (failure : Failure) : IO UInt32 := do
  IO.eprintln (String.ofList failure.message)
  pure failure.exitCode.toUInt32

def main (args : List String) : IO UInt32 := do
  match Arguments.read (args.map String.toList) with
  | none => reportFailure .usage
  | some arguments =>
    let configFile ← match arguments.configFile with
      | some file => readDocument file
      | none => pure .missing
    let worldFile ← readDocument arguments.world
    let now ← Std.Time.Timestamp.now
    let report := arguments.run configFile worldFile now.toSecondsSinceUnixEpoch.val
    for message in report.told do
      IO.eprintln (String.ofList (RunReport.messageText message))
    match report.result with
    | .ok result =>
      IO.print (String.ofList (result.line arguments.json))
      pure 0
    | .error failure => reportFailure failure
