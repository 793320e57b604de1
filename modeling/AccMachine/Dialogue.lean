/-
**Dialogues.**

What a machine does on one line is a short dialogue with its session: it may record the line in
the trace, say something, ask for a line of input or for a program, and note an event; in the end
it comes to a result or fails.  A dialogue is a value, so a machine can be studied apart from any
session, and the same dialogue can be held with a simulated session or with a real terminal.

A dialogue cannot go on after a refusal: there is no answer for it to go on with.

Main definitions:

* `Dialogue` — the finite dialogues with a result in a type;
* `Dialogue.bind` — holding one dialogue after another.

Main results:

* `Dialogue.bind_assoc` — the order of holding dialogues is all that matters.
-/

import AccMachine.Fault
import AccMachine.Log
import AccMachine.Output
import AccMachine.Program

set_option relaxedAutoImplicit false
set_option autoImplicit false

namespace AccMachine

/-- A finite dialogue with a session, ending in a value or in a failure. -/
inductive Dialogue (α : Type) where
  | done (value : α)
  | fail (cause : Cause)
  /-- Records a line that is about to be executed. -/
  | trace (words : List String) (accumulator : Int64) (next : Dialogue α)
  | emit (output : Output) (next : Dialogue α)
  /-- Asks for a line of input; there may be none left. -/
  | read (next : Option String → Dialogue α)
  /-- Asks for the program under a reference. -/
  | load (reference : String) (next : Program → Dialogue α)
  | note (event : LogEvent) (next : Dialogue α)

namespace Dialogue

variable {α β γ : Type}

/-- Goes on with `k` where `d` ends in a value. -/
def bind (d : Dialogue α) (k : α → Dialogue β) : Dialogue β :=
  match d with
  | done a => k a
  | fail cause => fail cause
  | trace words accumulator next => trace words accumulator (next.bind k)
  | emit output next => emit output (next.bind k)
  | read next => read fun line => (next line).bind k
  | load reference next => load reference fun program => (next program).bind k
  | note event next => note event (next.bind k)

instance : Monad Dialogue where
  pure := done
  bind := bind

/-! ### The single turns -/

/-- Records a line. -/
def record (words : List String) (accumulator : Int64) : Dialogue Unit :=
  trace words accumulator (done ())

/-- Says something. -/
def say (output : Output) : Dialogue Unit := emit output (done ())

/-- Asks for a line of input. -/
def ask : Dialogue (Option String) := read done

/-- Asks for a program. -/
def fetch (reference : String) : Dialogue Program := load reference done

/-- Notes an event. -/
def log (event : LogEvent) : Dialogue Unit := note event (done ())

/-! ### Laws -/

@[simp] theorem pure_eq (a : α) : (pure a : Dialogue α) = done a := rfl

@[simp] theorem bind_eq (d : Dialogue α) (k : α → Dialogue β) : (d >>= k) = d.bind k := rfl

@[simp] theorem say_bind (output : Output) (k : Unit → Dialogue β) :
    (say output).bind k = emit output (k ()) := rfl

@[simp] theorem ask_bind (k : Option String → Dialogue β) : ask.bind k = read k := rfl

@[simp] theorem fetch_bind (reference : String) (k : Program → Dialogue β) :
    (fetch reference).bind k = load reference k := rfl

@[simp] theorem log_bind (event : LogEvent) (k : Unit → Dialogue β) :
    (log event).bind k = note event (k ()) := rfl

/-- Holding dialogues one after another does not depend on how they are grouped. -/
theorem bind_assoc (d : Dialogue α) (j : α → Dialogue β) (k : β → Dialogue γ) :
    (d.bind j).bind k = d.bind fun a => (j a).bind k := by
  induction d with
  | done a => rfl
  | fail cause => rfl
  | trace words accumulator next ih => simp only [bind, ih]
  | emit output next ih => simp only [bind, ih]
  | read next ih => simp only [bind, ih]
  | load reference next ih => simp only [bind, ih]
  | note event next ih => simp only [bind, ih]

end Dialogue

end AccMachine
