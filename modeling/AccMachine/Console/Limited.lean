/-
**A console that wears out.**

Any console can be limited to a number of outputs and a number of reads.  The ones beyond are
refused, and a refusal changes nothing.

Main definitions:

* `Limited` — a console together with what it still accepts.
-/

import AccMachine.Console

set_option relaxedAutoImplicit false
set_option autoImplicit false

namespace AccMachine

/-- A console and how many outputs and reads it still accepts, without limit if `none`. -/
structure Limited (κ : Type) where
  inner : κ
  emits : Option Nat := none
  reads : Option Nat := none

namespace Limited

variable {κ : Type} [Console κ]

/-- Passes an output on unless the limit is reached. -/
def emit (c : Limited κ) (o : Output) : Except DeviceFault Unit × Limited κ :=
  let ⟨inner, emits, reads⟩ := c
  match emits with
  | some 0 => (.error .emitRefused, ⟨inner, some 0, reads⟩)
  | emits =>
    let (answer, inner) := Console.emit inner o
    (answer, ⟨inner, emits.map (· - 1), reads⟩)

/-- Passes a read on unless the limit is reached. -/
def read (c : Limited κ) : Except DeviceFault (Option String) × Limited κ :=
  let ⟨inner, emits, reads⟩ := c
  match reads with
  | some 0 => (.error .readRefused, ⟨inner, emits, some 0⟩)
  | reads =>
    let (answer, inner) := Console.read inner
    (answer, ⟨inner, emits, reads.map (· - 1)⟩)

instance : Console (Limited κ) := ⟨emit, read⟩

end Limited

end AccMachine
