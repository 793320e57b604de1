/-
**What machines say.**

Main definitions:

* `Output` — a value, a character, a warning or a trace entry;
* `Output.render` — the line of text in which it is shown;
* `Output.characterOf` — the character that a value stands for.
-/

import AccMachine.Decimal

set_option relaxedAutoImplicit false
set_option autoImplicit false

namespace AccMachine

/-- One thing said by a machine. -/
inductive Output where
  | value (value : Int64)
  | char (char : Char)
  | warning (text : String)
  | trace (entry : String)
  deriving DecidableEq

namespace Output

/-! ### Text -/

/-- The mark before a value or a character. -/
def mark : String := "<"

/-- The line of text in which an output is shown. -/
def render : Output → String
  | value v => mark ++ " " ++ Decimal.render v
  | char c => mark ++ " " ++ String.singleton c
  | warning text => "WARNING: " ++ text
  | trace entry => entry

/-! ### Characters -/

/-- The character that stands for values that are no code point of a character. -/
def replacement : Char := '\uFFFD'

/-- The character whose code point is the value, or the replacement if there is none. -/
def characterOf (v : Int64) : Char :=
  if v.toInt < 0 then replacement
  else if v.toInt.toNat.isValidChar then Char.ofNat v.toInt.toNat
  else replacement

end Output

end AccMachine
