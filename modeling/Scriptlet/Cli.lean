import Scriptlet.Program
import Scriptlet.Report
import Scriptlet.Tree.Outline

/-!
# Command line

## Main definitions

* `Cli.Options` — what the arguments ask for
* `Cli.Options.ofArgs?` — reads the arguments
* `Cli.Outcome` — exit code and output
* `Cli.run` — runs a script as the options say

## Design decisions

* Reading a file is the only effect, and `run` takes it as a function, so that the
  rest is a function of the arguments.
* Options may stand before and behind the script.  Each may be given once.
-/

namespace Scriptlet

namespace Cli

/-- **Options.** -/
structure Options where
  /-- The script is the name of a file. -/
  file : Bool := false
  /-- Only a `return` ends a block. -/
  strictReturns : Bool := false
  /-- Calls that nobody answers are passed over. -/
  ignoreUnknown : Bool := false
  /-- Lists the tokens in place of running the script. -/
  tokens : Bool := false
  /-- Outlines the tree in place of running the script. -/
  tree : Bool := false
  /-- What is logged. -/
  log : Option String := none
  /-- The script, or the name of its file. -/
  script : Option String := none
deriving DecidableEq, Inhabited

namespace Options

/-- Sets a switch, which must not be set yet. -/
def switch? (o : Options) (name : String) : Option Options :=
  match name with
  | "file" => if o.file then none else some { o with file := true }
  | "strict-returns" => if o.strictReturns then none else some { o with strictReturns := true }
  | "ignore-unknown-functions" =>
    if o.ignoreUnknown then none else some { o with ignoreUnknown := true }
  | "tokens" => if o.tokens then none else some { o with tokens := true }
  | "ast" => if o.tree then none else some { o with tree := true }
  | _ => none

/-- Takes the script, of which there is only one. -/
def script? (o : Options) (arg : String) : Option Options :=
  if o.script.isSome then none else some { o with script := some arg }

/-- Takes the log filter, of which there is only one. -/
def log? (o : Options) (filter : String) : Option Options :=
  if o.log.isSome then none else some { o with log := some filter }

/-- Whether an argument is an option: a dash with something behind it. -/
def isOption (arg : List Char) : Bool :=
  match arg with
  | '-' :: _ :: _ => true
  | _ => false

/-- Reads arguments.  Behind a double dash all of them are scripts. -/
def readArgs? (o : Options) : List String → Option Options
  | [] => some o
  | "--" :: rest => rest.foldlM script? o
  | ["--log"] => none
  | "--log" :: filter :: rest =>
    if isOption filter.toList then none
    else (o.log? filter).bind fun o => readArgs? o rest
  | "-f" :: rest => (o.switch? "file").bind fun o => readArgs? o rest
  | arg :: rest =>
    let next :=
      match arg.toList with
      | '-' :: '-' :: 'l' :: 'o' :: 'g' :: '=' :: filter => o.log? (String.ofList filter)
      | '-' :: '-' :: name => o.switch? (String.ofList name)
      | cs => if isOption cs then none else o.script? arg
    next.bind fun o => readArgs? o rest

/-- **Options of a command line**, or `none` if the arguments make no sense: an
unknown or repeated option, a value for a switch or none for the log filter, no
script or more than one. -/
def ofArgs? (args : List String) : Option Options :=
  (readArgs? {} args).filter fun o => o.script.isSome

/-- The settings of the evaluation. -/
def config (o : Options) : Config where
  blockResults := if o.strictReturns then .explicitReturn else .firstValue
  unknownFunctions := if o.ignoreUnknown then .ignore else .error

end Options

/-- **Outcome** of a command. -/
structure Outcome where
  /-- The exit code. -/
  exit : Nat
  /-- What is written to the standard output. -/
  stdout : String
  /-- What is written to the standard error output. -/
  stderr : String
deriving DecidableEq, Inhabited

/-- The outcome of a failed script. -/
def failed (e : Error) (source stdout : String) : Outcome :=
  ⟨1, stdout, Report.render e source ++ "\n"⟩

/-- Lists the tokens. -/
def listing (tokens : List Token) : String :=
  String.join (tokens.map fun t => t.text ++ "\n")

/-- **Inspection** of a script: its tokens, its tree or both. -/
def inspect (o : Options) (source file : String) : Outcome :=
  match tokenize source file with
  | .error e => failed (.lex e) source ""
  | .ok tokens =>
    let stdout := if o.tokens then listing tokens else ""
    if o.tree then
      match parse tokens with
      | .error e => failed (.parse e) source stdout
      | .ok program => ⟨0, stdout ++ program.outline.text ++ "\n", ""⟩
    else ⟨0, stdout, ""⟩

/-- **Execution** of a script. -/
def execute (o : Options) (source file : String) : Outcome :=
  let printed (m : Machine Sink) : String := Text.decodeCut m.world.host.bytes
  match Program.run Standard.host o.config Program.ampleFuel source file (.ofLimit none)
      .silent with
  | .ok _ m => ⟨0, printed m, ""⟩
  | .error (.error e) m => failed e source (printed m)
  | .error .outOfFuel m => ⟨1, printed m, "the script does not come to an end\n"⟩

/-- What is done with the source of a script. -/
def runSource (o : Options) (source file : String) : Outcome :=
  if o.tokens || o.tree then inspect o source file else execute o source file

/-- **Command.**  Files are read with `read`, which gives nothing for a file that
does not exist or is no text. -/
def run (o : Options) (read : String → Option String) : Outcome :=
  let script := o.script.getD ""
  if o.file then
    match read script with
    | some source => runSource o source script
    | none =>
      ⟨1, "", "Failed to read the input file '" ++ script ++
        "'. Perhaps this file does not exist?\n"⟩
  else runSource o script "<inline>"

end Cli

end Scriptlet
