/-
**The command.**

The command runs a script on the real terminal and the real files.  The process is a host like any
other: it shows outputs and reads input at the moment a machine asks for it, and all else is done as
in memory.

Main definitions:

* `CommandLine.Streams` — the streams of the process;
* `CommandLine.Process` — a process as a host;
* `main` — reads the arguments and runs the script.
-/

import AccMachine.CommandLine.Invocation

set_option relaxedAutoImplicit false
set_option autoImplicit false

namespace AccMachine.CommandLine

/-- The streams of the process, and whether outputs have colours. -/
structure Streams where
  input : IO.FS.Stream
  output : IO.FS.Stream
  errors : IO.FS.Stream
  coloured : Bool

/-- The number of an error of the operating system, which may be given negated. -/
def errorNumber (code : UInt32) : Nat :=
  if code.toNat < 0x80000000 then code.toNat else 0x100000000 - code.toNat

/-- A fault of the operating system as a fault of a device. -/
def faultOf : IO.Error → DeviceFault
  | .noFileOrDirectory _ _ _ => .notFound
  | .inappropriateType _ code _ =>
    if errorNumber code = 20 then .notDirectory else .isDirectory
  | .invalidArgument _ code details =>
    if errorNumber code = 36 then .nameTooLong else .other details
  | e => .other e.toString

/-- The result of an action, or the fault it met. -/
def attempt {α : Type} (action : IO α) : IO (Except DeviceFault α) := do
  try
    return .ok (← action)
  catch e =>
    return .error (faultOf e)

/-- The text of a file. -/
def readSource (path : String) : IO (Except DeviceFault String) := do
  match ← attempt (IO.FS.readBinFile path) with
  | .error fault => return .error fault
  | .ok content => return FileTree.decodeText content

namespace Streams

/-- Writes a text at once. -/
def display (t : Streams) (text : String) : IO (Except DeviceFault Unit) :=
  attempt do
    t.output.putStr text
    t.output.flush

/-- Shows an output on a line of its own. -/
def say (t : Streams) (output : Output) : IO (Except DeviceFault Unit) :=
  t.display (output.line t.coloured ++ "\n")

/-- Reads bytes up to and including a line feed, or up to the end of the input. -/
partial def readBytes (t : Streams) (bytes : ByteArray) : IO ByteArray := do
  let next ← t.input.read 1
  if next.isEmpty then return bytes
  else if next.toList = [Terminal.lineFeed] then return bytes ++ next
  else t.readBytes (bytes ++ next)

/-- Prompts and reads a line. -/
def readLine (t : Streams) : IO (Except DeviceFault (Option String)) := do
  match ← t.display (promptText t.coloured) with
  | .error fault => return .error fault
  | .ok () =>
    match ← attempt (t.readBytes ByteArray.empty) with
    | .error fault => return .error fault
    | .ok bytes =>
      if bytes.isEmpty then return .ok none
      else return (FileTree.decodeText bytes).map some

end Streams

/-- What a process does, with its streams at hand and a tracer of its own. -/
abbrev Process := ReaderT Streams (StateT Tracer IO)

instance : Host Process where
  emit output := do (← read).say output
  readLine := do (← read).readLine
  source path := readSource path
  save path text := attempt (IO.FS.writeFile path text)
  tracer := get
  collect entry := modify (·.append entry)
  note _ := return

/-- More lines than a process lives to execute. -/
def lifetime : Nat := 0x4000000000000000

end AccMachine.CommandLine

open AccMachine.CommandLine in
/-- Reads the arguments and runs the script. -/
def main (arguments : List String) : IO UInt32 := do
  let output ← IO.getStdout
  let streams : Streams := ⟨← IO.getStdin, output, ← IO.getStderr, ← output.isTty⟩
  let reply ←
    match Request.ofArguments arguments with
    | .misuse => pure (some .misuse)
    | .help => pure (some .help)
    | .version => pure (some .version)
    | .run options =>
      ((runScript lifetime options.script : Process _).run streams).run' options.tracer
  match reply with
  | none => return 1
  | some reply =>
    streams.output.putStr reply.stdout
    streams.errors.putStr (reply.stderr.getD helpText)
    return reply.exitCode.toUInt32
