/-
**Hosts.**

A machine needs something around it that shows its outputs, hands out lines of input, finds source
texts, and keeps the trace and the log.  This may be a session in memory as well as a process with
a terminal and files.  Here it is any monad with these few services; all that is made of them is
said once, and is the same wherever a machine runs.

Main definitions:

* `Host` — the services that a machine needs;
* `Host.load`, `Host.trace`, `Host.writeSheet` — what is made of them;
* `Dialogue.hold` — holds a dialogue with a host.
-/

import AccMachine.Dialogue
import AccMachine.Source
import AccMachine.Trace

set_option relaxedAutoImplicit false
set_option autoImplicit false

namespace AccMachine

/-- The services that a machine needs, each an action of the monad.  A host may refuse the first
four. -/
class Host (M : Type → Type) where
  /-- Shows an output. -/
  emit : Output → M (Except DeviceFault Unit)
  /-- Hands out the next line of input; there may be none left. -/
  readLine : M (Except DeviceFault (Option String))
  /-- The source text under a reference. -/
  source : String → M (Except DeviceFault String)
  /-- Writes a text to the file of a path. -/
  save : String → String → M (Except DeviceFault Unit)
  /-- The tracer, as it is. -/
  tracer : M Tracer
  /-- Adds an entry to the sheet. -/
  collect : String → M Unit
  note : LogEvent → M Unit

namespace Host

variable {M : Type → Type} [Monad M] [Host M]

/-- Notes events in order. -/
def noteAll : List LogEvent → M Unit
  | [] => pure ()
  | event :: events => do
    note event
    noteAll events

/-- The program under a reference; that it was loaded is noted. -/
def load (reference : String) : M (Except DeviceFault Program) := do
  match ← source reference with
  | .error fault => return .error fault
  | .ok text =>
    let program := Program.ofLines reference (Source.lines text)
    note (.loaded reference program.size program.labels.size)
    return .ok program

/-- Records a line that is about to be executed, as the mode says. -/
def trace (words : List String) (accumulator : Int64) : M (Except DeviceFault Unit) := do
  match (← tracer).mode with
  | .off => return .ok ()
  | .debug => emit (.trace (traceEntry words accumulator))
  | .dryRun =>
    collect (traceEntry words accumulator)
    return .ok ()

/-- Writes the sheet to its file in a dry run, and does nothing in the other modes. -/
def writeSheet : M (Except DeviceFault Unit) := do
  let tracer ← tracer
  match tracer.mode with
  | .off | .debug => return .ok ()
  | .dryRun =>
    note (.writingSheet tracer.path)
    save tracer.path tracer.sheet

end Host

/-- Holds a dialogue: every turn is answered by the service that it asks for, and a refusal ends the
dialogue with that fault. -/
def Dialogue.hold {M : Type → Type} [Monad M] [Host M] {α : Type} :
    Dialogue α → M (Except Cause α)
  | .done a => return .ok a
  | .fail cause => return .error cause
  | .trace words accumulator next => do
    match ← Host.trace words accumulator with
    | .error fault => return .error (.device fault)
    | .ok () => next.hold
  | .emit output next => do
    match ← Host.emit output with
    | .error fault => return .error (.device fault)
    | .ok () => next.hold
  | .read next => do
    match ← Host.readLine with
    | .error fault => return .error (.device fault)
    | .ok line => (next line).hold
  | .load reference next => do
    match ← Host.load reference with
    | .error fault => return .error (.load reference fault)
    | .ok program => (next program).hold
  | .note event next => do
    Host.note event
    next.hold

end AccMachine
