/-
**Invocations of the command.**

An invocation reads its arguments, loads the script as a root machine and runs it, with standard
input as the machine's input and standard output as its console.  The script is run at any host; in
memory, a whole invocation is a function of its arguments, the files and standard input.

Main definitions:

* `loadFailureText`, `runtimeFailureText` — what is written about a failure;
* `Reply` — the exit code, and what the command writes besides the outputs of machines;
* `runScript` — loads a script and runs it;
* `Report` — exit code, the two output streams, and the files afterwards;
* `invoke` — a whole invocation in memory.
-/

import AccMachine.CommandLine.Options
import AccMachine.CommandLine.Terminal
import AccMachine.Machine.Run

set_option relaxedAutoImplicit false
set_option autoImplicit false

namespace AccMachine.CommandLine

/-! ### Failures -/

/-- A numbered cause; the further lines of its text stand under the first. -/
def numberedCause (number : Nat) (text : String) : String :=
  "    " ++ Decimal.renderNat number ++ ": " ++
    "\n       ".intercalate ((text.toList.splitOn '\n').map String.ofList)

/-- What is written about a script that cannot be loaded: the task, and below it the causes, each
being the reason for the one above. -/
def loadFailureText (script : String) (fault : DeviceFault) : String :=
  "Error: loading " ++ script ++ "\n\nCaused by:\n" ++
    numberedCause 0 (Cause.load script fault).message ++ "\n" ++
    numberedCause 1 fault.message ++ "\n"

/-- What is written about a run that failed. -/
def runtimeFailureText (failure : Failure) : String :=
  "Runtime error: " ++ failure.message ++ "\n"

/-- The tracer that the switches select. -/
def Options.tracer (options : Options) : Tracer :=
  ⟨TraceMode.ofFlags options.debug options.dryRun, "", "dryrun.txt"⟩

/-! ### Replies -/

/-- The exit code, and what the command writes to its two output streams besides the outputs of
machines; the text about misuse is not part of it. -/
structure Reply where
  exitCode : Nat
  stdout : String
  stderr : Option String

namespace Reply

def misuse : Reply := ⟨2, "", none⟩

def help : Reply := ⟨0, helpText, some ""⟩

def version : Reply := ⟨0, versionText, some ""⟩

/-- The reply about a script that cannot be loaded. -/
def ofFault (script : String) (fault : DeviceFault) : Reply :=
  ⟨1, "", some (loadFailureText script fault)⟩

/-- The reply about a run that has ended. -/
def ofEnding : Ending → Reply
  | .failed failure => ⟨1, "", some (runtimeFailureText failure)⟩
  | _ => ⟨0, "", some ""⟩

end Reply

/-- Loads a script and runs it, for at most `fuel` lines. -/
@[specialize] def runScript {M : Type → Type} [Monad M] [Host M] (fuel : Nat) (script : String) :
    M (Option Reply) := do
  match ← Host.load script with
  | .error fault => return some (.ofFault script fault)
  | .ok program =>
    match ← Host.run fuel (Machine.ofProgram program) with
    | none => return none
    | some (ending, _) => return some (.ofEnding ending)

/-! ### Invocations in memory -/

/-- What an invocation leaves behind; the text about misuse is not part of it. -/
structure Report where
  exitCode : Nat
  stdout : String
  stderr : Option String
  files : FileTree

/-- The report of a reply, after the outputs of machines. -/
def Reply.report (r : Reply) (outputs : String) (files : FileTree) : Report :=
  ⟨r.exitCode, outputs ++ r.stdout, r.stderr, files⟩

/-- The session of an invocation. -/
def session (options : Options) (files : FileTree) (stdin : List UInt8) (coloured : Bool) :
    Session Terminal where
  shelf := .files
  files := files
  console := ⟨stdin, "", coloured⟩
  tracer := options.tracer
  log := #[]

/-- A whole invocation of the command, for at most `fuel` lines. -/
def invoke (fuel : Nat) (arguments : List String) (files : FileTree) (stdin : List UInt8)
    (coloured : Bool) : Option Report :=
  match Request.ofArguments arguments with
  | .misuse => some (Reply.misuse.report "" files)
  | .help => some (Reply.help.report "" files)
  | .version => some (Reply.version.report "" files)
  | .run options =>
    match (runScript fuel options.script : StateM (Session Terminal) _).run
        (session options files stdin coloured) with
    | (none, _) => none
    | (some reply, s) => some (reply.report s.console.stdout s.files)

end AccMachine.CommandLine
