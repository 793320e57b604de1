/-
**A console in memory.**

The lines of input are given beforehand, and the outputs are kept in order.  Nothing is refused.

Main definitions:

* `Buffer` — remaining lines and outputs so far;
* `Buffer.renderedLines` — the outputs as lines of text.

Main results:

* `Buffer.outputs_emit` — an output is added at the end.
-/

import AccMachine.Console

set_option relaxedAutoImplicit false
set_option autoImplicit false

namespace AccMachine

/-- A console in memory: the lines to come, and the outputs so far. -/
structure Buffer where
  input : List String
  outputs : Array Output := #[]
  deriving DecidableEq

namespace Buffer

instance : Inhabited Buffer := ⟨⟨[], #[]⟩⟩

/-- Keeps an output. -/
def emit (b : Buffer) (o : Output) : Except DeviceFault Unit × Buffer :=
  (.ok (), { b with outputs := b.outputs.push o })

/-- Hands out the next line. -/
def read (b : Buffer) : Except DeviceFault (Option String) × Buffer :=
  match b.input with
  | [] => (.ok none, b)
  | line :: rest => (.ok (some line), { b with input := rest })

instance : Console Buffer := ⟨emit, read⟩

/-- The outputs so far as lines of text. -/
def renderedLines (b : Buffer) : List String := b.outputs.toList.map Output.render

/-- An output is added at the end. -/
theorem outputs_emit (b : Buffer) (o : Output) :
    (Console.emit b o).2.outputs.toList = b.outputs.toList ++ [o] := by
  simp [Console.emit, emit]

end Buffer

end AccMachine
