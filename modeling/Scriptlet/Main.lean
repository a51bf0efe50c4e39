import Scriptlet.Cli

/-!
# The command

Reads the arguments and the file that they name, and writes the outcome.
-/

namespace Scriptlet

/-- The text of a file, if it exists and is a text. -/
def readText (name : String) : IO (Option String) := do
  try
    return String.fromUTF8? (← IO.FS.readBinFile name)
  catch _ => return none

/-- Runs the command line `args`; gives the exit code. -/
def command (args : List String) : IO UInt32 := do
  match Cli.Options.ofArgs? args with
  | none =>
    (← IO.getStderr).putStrLn
      ("usage: [-f | --file] [--strict-returns] [--ignore-unknown-functions] " ++
        "[--tokens] [--ast] [--log FILTER] SCRIPT")
    return 2
  | some options =>
    let text ← if options.file then readText (options.script.getD "") else pure none
    let outcome := Cli.run options fun _ => text
    (← IO.getStdout).putStr outcome.stdout
    (← IO.getStderr).putStr outcome.stderr
    return outcome.exit.toUInt32

end Scriptlet

/-- The command. -/
def main (args : List String) : IO UInt32 :=
  Scriptlet.command args
