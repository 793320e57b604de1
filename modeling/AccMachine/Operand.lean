/-
**Operands.**

The operand of a load or of an arithmetic instruction is a value if its text is a decimal integer
of the machine word, and the name of a storage slot otherwise.  Nothing is trimmed, so a text
with a blank in it names a slot.

Main definitions:

* `Operand` — a value or a slot;
* `Operand.ofText`, `Operand.text` — reading an operand, and writing it.

Main results:

* `Operand.ofText_render` — the text of a value is that value;
* `Operand.ofText_eq_slot_iff` — a text names a slot exactly when it is no integer, and then it is
  the slot's own name.
-/

import AccMachine.Decimal

set_option relaxedAutoImplicit false
set_option autoImplicit false

namespace AccMachine

/-- What an operand text denotes. -/
inductive Operand where
  /-- A value. -/
  | literal (value : Int64)
  /-- The storage slot of that name. -/
  | slot (key : String)
  deriving DecidableEq

namespace Operand

/-- A text that reads as an integer is a value, any other the name of a slot. -/
def ofText (text : String) : Operand :=
  match Decimal.parse text with
  | .ok value => literal value
  | .error _ => slot text

/-- A text that denotes the operand. -/
def text : Operand → String
  | literal value => Decimal.render value
  | slot key => key

/-- The text of a value is that value. -/
theorem ofText_render (v : Int64) : ofText (Decimal.render v) = literal v := by
  simp [ofText, Decimal.parse_render]

/-- A text is a value exactly when it reads as that integer. -/
theorem ofText_eq_literal_iff {t : String} {v : Int64} :
    ofText t = literal v ↔ Decimal.parse t = .ok v := by
  unfold ofText
  split <;> simp_all

/-- A text names a slot exactly when it does not read as an integer. -/
theorem ofText_eq_slot_iff {t key : String} :
    ofText t = slot key ↔ key = t ∧ ∃ flaw, Decimal.parse t = .error flaw := by
  unfold ofText
  cases h : Decimal.parse t <;> simp [eq_comm]

end Operand

end AccMachine
