/-
**Acts.**

A machine executes an instruction in several steps: it holds dialogues with its host, and in between
it changes.  A step that fails, or that is refused, ends the act at once, and the machine is left as
it is at that moment, with every change that was made before.  So it matters in which order an act
asks and changes.

Main definitions:

* `Act` — the acts of a machine, with a result in a type;
* `Act.bind` — one act after another;
* `Act.carryOut` — carries out an act on a machine, at a host.
-/

import AccMachine.Host
import AccMachine.Machine.Basic

set_option relaxedAutoImplicit false
set_option autoImplicit false

namespace AccMachine

/-- What a machine does, step by step. -/
inductive Act (α : Type) : Type 1 where
  | done (value : α)
  /-- Holds a dialogue about the machine as it is, and goes on with what it comes to. -/
  | consult {β : Type} (d : Machine → Dialogue β) (next : β → Act α)
  | change (f : Machine → Machine) (next : Act α)

namespace Act

variable {α β : Type}

/-- Goes on with `k` where `a` has come to a value. -/
def bind (a : Act α) (k : α → Act β) : Act β :=
  match a with
  | done value => k value
  | consult d next => consult d fun answer => (next answer).bind k
  | change f next => change f (next.bind k)

instance : Monad Act where
  pure := done
  bind := bind

/-! ### The single steps -/

/-- Holds a dialogue about the machine. -/
def ask (d : Machine → Dialogue α) : Act α := consult d done

/-- Holds a dialogue that is the same for every machine. -/
def hold (d : Dialogue α) : Act α := ask fun _ => d

/-- Looks at the machine. -/
def look : Act Machine := ask .done

/-- Changes the machine. -/
def update (f : Machine → Machine) : Act Unit := change f (done ())

def fail (cause : Cause) : Act α := hold (.fail cause)

/-! ### Carrying out -/

/-- Carries out an act on a machine.  The result comes with the machine that the act leaves, also
if it has failed. -/
def carryOut {M : Type → Type} [Monad M] [Host M] :
    Act α → Machine → M (Except Cause α × Machine)
  | done value, m => return (.ok value, m)
  | consult d next, m => do
    match ← (d m).hold with
    | .error cause => return (.error cause, m)
    | .ok answer => (next answer).carryOut m
  | change f next, m => next.carryOut (f m)

end Act

end AccMachine
