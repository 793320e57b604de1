/-
**Accumulator machines.**

A machine executes one program.  Its state is an accumulator, named storage slots, a program
counter, and the subroutines it declared, which are machines of their own.  A machine that is not
declared by another is a root.

Main definitions:

* `Machine` — the state of a machine and, through it, of all subroutines below;
* `Machine.ofProgram`, `Machine.subroutine` — a fresh root, and a fresh subroutine;
* `Machine.slot`, `Machine.valueOf` — reading storage, and the value of an operand;
* `Machine.here` — the line that the program counter points to, as a location.
-/

import AccMachine.Fault
import AccMachine.Operand
import AccMachine.Program

set_option relaxedAutoImplicit false
set_option autoImplicit false

namespace AccMachine

/-- The state of a machine: its program, the accumulator, the slots that were stored, the index
of the current line, the subroutines by the reference they were declared with, the reference of
the program that declared it, and whether a caller is waiting for it to return. -/
structure Machine where
  program : Program
  accumulator : Int64
  storage : Table Int64
  pc : Nat
  subroutines : Table Machine
  parent : Option String
  awaited : Bool

namespace Machine

/-! ### Fresh machines -/

/-- A fresh root for a program. -/
def ofProgram (program : Program) : Machine where
  program := program
  accumulator := 0
  storage := Table.empty
  pc := 0
  subroutines := Table.empty
  parent := none
  awaited := false

instance : Inhabited Machine := ⟨ofProgram default⟩

/-- A fresh subroutine of `owner` for a program. -/
def subroutine (owner : Machine) (program : Program) : Machine :=
  { ofProgram program with parent := some owner.program.reference }

/-- Whether the machine was declared by no other. -/
def isRoot (m : Machine) : Bool := m.parent.isNone

/-! ### Reading the state -/

/-- The value of a slot; one that was never stored holds zero. -/
def slot (m : Machine) (key : String) : Int64 := (m.storage.find? key).getD 0

/-- The value of an operand: an integer, or what its slot holds. -/
def valueOf (m : Machine) (operand : String) : Int64 :=
  match Operand.ofText operand with
  | .literal value => value
  | .slot key => m.slot key

/-- The text of the line that the program counter points to. -/
def currentLine? (m : Machine) : Option String := m.program.line? m.pc

/-- The line that the program counter points to, as a location. -/
def here (m : Machine) : Location where
  program := m.program.reference
  line := m.pc
  text := Text.trimmed (m.currentLine?.getD "")

/-! ### Small changes -/

/-- The machine with its program counter at `i`. -/
def goto (m : Machine) (i : Nat) : Machine := { m with pc := i }

/-- The machine on the following line. -/
def advance (m : Machine) : Machine := m.goto (m.pc + 1)

/-- The machine with a new accumulator. -/
def accumulate (m : Machine) (value : Int64) : Machine := { m with accumulator := value }

/-- A subroutine at the beginning of a call: on its first line, with the caller's accumulator. -/
def invoked (m : Machine) (accumulator : Int64) : Machine :=
  { m with accumulator := accumulator, pc := 0, awaited := true }

/-- The caller once a call is over, with the subroutine as the call left it. -/
def adopt (caller : Machine) (name : String) (callee : Machine) : Machine :=
  { caller with subroutines := caller.subroutines.put name { callee with awaited := false } }

end Machine

end AccMachine
