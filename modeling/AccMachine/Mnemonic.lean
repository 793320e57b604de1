/-
**The instruction set.**

An accumulator machine knows twenty instructions, each named by a mnemonic in capital letters.
Some take an operand: a value, a slot, a label, or the reference of another program.

Main definitions:

* `Mnemonic` — the twenty instructions;
* `Mnemonic.text`, `Mnemonic.takesOperand` — how an instruction is written, and whether an
  operand belongs to it;
* `Mnemonic.ofText?` — the instruction that a word names.

Main results:

* `Mnemonic.mem_all` — the list `Mnemonic.all` is complete;
* `Mnemonic.ofText?_eq_some_iff` — a word names an instruction exactly when it is its text.
-/

set_option relaxedAutoImplicit false
set_option autoImplicit false

namespace AccMachine

/-- The instructions of an accumulator machine. -/
inductive Mnemonic where
  | load
  | store
  | add
  | subtract
  | multiply
  | divide
  | jump
  | jumpNegative
  | jumpZero
  | xor
  | or
  | and
  | andNot
  | input
  | output
  | outputChar
  | declare
  | run
  | ret
  | halt
  deriving DecidableEq, Repr

namespace Mnemonic

/-- The instructions, in the order in which they are listed. -/
def all : List Mnemonic :=
  [load, store, add, subtract, multiply, divide, jump, jumpNegative, jumpZero, xor, or, and,
   andNot, input, output, outputChar, declare, run, ret, halt]

/-- The word that names an instruction. -/
def text : Mnemonic → String
  | load => "LOAD"
  | store => "STORE"
  | add => "ADD"
  | subtract => "SUBTRACT"
  | multiply => "MULTIPLY"
  | divide => "DIVIDE"
  | jump => "JUMP"
  | jumpNegative => "JINEG"
  | jumpZero => "JIZERO"
  | xor => "XOR"
  | or => "OR"
  | and => "AND"
  | andNot => "ANDNOT"
  | input => "IN"
  | output => "OUT"
  | outputChar => "AOUT"
  | declare => "INC"
  | run => "RUN"
  | ret => "RET"
  | halt => "HALT"

/-- Whether an operand belongs to the instruction. -/
def takesOperand : Mnemonic → Bool
  | input | output | outputChar | ret | halt => false
  | _ => true

/-- The instruction that a word names, if it names one. -/
def ofText? (word : String) : Option Mnemonic := all.find? fun m => m.text = word

/-- Whether a word names an instruction. -/
def isMnemonic (word : String) : Bool := (ofText? word).isSome

theorem mem_all (m : Mnemonic) : m ∈ all := by cases m <;> decide

/-- A word names an instruction exactly when it is the text of that instruction. -/
theorem ofText?_eq_some_iff {word : String} {m : Mnemonic} :
    ofText? word = some m ↔ m.text = word := by
  constructor
  · intro h
    simpa using List.find?_some h
  · rintro rfl
    cases m <;> decide

theorem ofText?_text (m : Mnemonic) : ofText? m.text = some m := ofText?_eq_some_iff.2 rfl

/-- A word names no instruction exactly when it is the text of none. -/
theorem ofText?_eq_none_iff {word : String} :
    ofText? word = none ↔ ∀ m : Mnemonic, m.text ≠ word := by
  constructor
  · intro h m hm
    rw [ofText?_eq_some_iff.2 hm] at h
    cases h
  · intro h
    cases hw : ofText? word with
    | none => rfl
    | some m => exact absurd (ofText?_eq_some_iff.1 hw) (h m)

end Mnemonic

end AccMachine
