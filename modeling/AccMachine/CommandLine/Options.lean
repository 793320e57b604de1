/-
**Command lines.**

The command takes the path of one script and two switches, in any order.  Short switches may be
joined behind one dash.  Behind two dashes that stand alone everything is a path, and so is a
single dash.  Arguments are read from the left, and the first one that asks for help, asks for
the version, or is in error decides.

Main definitions:

* `Options` — the script and the switches;
* `Request` — what a command line asks for;
* `Request.ofArguments` — reads the arguments;
* `helpText`, `versionText` — the answers to the two questions.
-/

set_option relaxedAutoImplicit false
set_option autoImplicit false

namespace AccMachine.CommandLine

/-- The script to run, and whether the trace is shown or collected. -/
structure Options where
  script : String
  debug : Bool
  dryRun : Bool
  deriving DecidableEq, Repr

/-- What a command line asks for. -/
inductive Request where
  | run (options : Options)
  | help
  | version
  /-- The arguments make no sense. -/
  | misuse
  deriving DecidableEq, Repr

/-- What was read so far: the script, if it was named, and the switches. -/
structure Parsed where
  script : Option String := none
  debug : Bool := false
  dryRun : Bool := false

namespace Parsed

/-- Adds the path of the script, which must not be empty and is named only once. -/
def addScript (p : Parsed) (path : String) : Except Request Parsed :=
  if p.script.isSome || path = "" then .error .misuse else .ok { p with script := some path }

/-- Adds the debug switch, which is given at most once. -/
def addDebug (p : Parsed) : Except Request Parsed :=
  if p.debug then .error .misuse else .ok { p with debug := true }

/-- Adds the dry-run switch, which is given at most once. -/
def addDryRun (p : Parsed) : Except Request Parsed :=
  if p.dryRun then .error .misuse else .ok { p with dryRun := true }

/-- Reads a switch by its long name. -/
def addLong (p : Parsed) (name : String) : Except Request Parsed :=
  if name = "--debug" then p.addDebug
  else if name = "--dry-run" then p.addDryRun
  else if name = "--help" then .error .help
  else if name = "--version" then .error .version
  else .error .misuse

/-- Reads a switch by its letter. -/
def addShort (p : Parsed) (letter : Char) : Except Request Parsed :=
  if letter = 'd' then p.addDebug
  else if letter = 'r' then p.addDryRun
  else if letter = 'h' then .error .help
  else if letter = 'V' then .error .version
  else .error .misuse

/-- Reads joined switches from the left. -/
def addShorts (p : Parsed) : List Char → Except Request Parsed
  | [] => .ok p
  | letter :: rest =>
    match p.addShort letter with
    | .error request => .error request
    | .ok p' => p'.addShorts rest

/-- Reads one argument that stands before any pair of lone dashes. -/
def addArgument (p : Parsed) (argument : String) : Except Request Parsed :=
  match argument.toList with
  | '-' :: '-' :: _ => p.addLong argument
  | '-' :: letter :: rest => p.addShorts (letter :: rest)
  | _ => p.addScript argument

/-- What the arguments ask for once all of them were read. -/
def finish (p : Parsed) : Request :=
  match p.script with
  | some script => .run ⟨script, p.debug, p.dryRun⟩
  | none => .misuse

end Parsed

namespace Request

/-- Reads arguments that are all paths. -/
def readPaths (p : Parsed) : List String → Request
  | [] => p.finish
  | path :: rest =>
    match p.addScript path with
    | .error request => request
    | .ok p' => readPaths p' rest

/-- Reads arguments. -/
def read (p : Parsed) : List String → Request
  | [] => p.finish
  | argument :: rest =>
    if argument = "--" then readPaths p rest
    else
      match p.addArgument argument with
      | .error request => request
      | .ok p' => read p' rest

/-- What the arguments of a command line ask for. -/
def ofArguments (arguments : List String) : Request := read {} arguments

end Request

/-- The answer to a question for help. -/
def helpText : String :=
  "Usage: accvm [OPTIONS] <SCRIPT>\n" ++
  "\n" ++
  "Arguments:\n" ++
  "  <SCRIPT>  the program to run\n" ++
  "\n" ++
  "Options:\n" ++
  "  -d, --debug    print every instruction together with the accumulator before executing it\n" ++
  "  -r, --dry-run  collect the same trace as --debug and write it to dryrun.txt on HALT\n" ++
  "  -h, --help     Print help\n" ++
  "  -V, --version  Print version\n"

/-- The answer to a question for the version. -/
def versionText : String := "accvm 0.1.0\n"

end AccMachine.CommandLine
