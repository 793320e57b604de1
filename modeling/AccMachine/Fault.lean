/-
**Faults.**

A run of a machine may fail: because a device refuses, a program cannot be loaded or read, or an
instruction cannot be carried out.  A failure states its cause and the lines that were being
executed when it arose, one for each machine of the call chain, the outermost first.

Main definitions:

* `DeviceFault` — why a file, a source or the console did not serve;
* `Cause` — why an instruction or a run failed;
* `Location` — a line of a program that was being executed;
* `Failure` — a cause with the locations of the call chain;
* `DeviceFault.message`, `Cause.message`, `Failure.message` — their wording.
-/

import AccMachine.Decimal
import AccMachine.Line
import AccMachine.Text.Quoted

set_option relaxedAutoImplicit false
set_option autoImplicit false

namespace AccMachine

/-! ### Devices -/

/-- Why a file, a source or the console did not serve. -/
inductive DeviceFault where
  /-- No source text is kept under the reference. -/
  | noSource (reference : String)
  | notFound
  | isDirectory
  | notDirectory
  | nameTooLong
  /-- A path holds the character with code point zero. -/
  | nulInPath
  /-- The bytes that were read are no UTF-8 text. -/
  | notText
  | emitRefused
  | readRefused
  /-- Any other fault, in the words of the device. -/
  | other (text : String)
  deriving DecidableEq, Repr

/-- The wording of a device's fault. -/
def DeviceFault.message : DeviceFault → String
  | noSource reference => "no source named " ++ reference
  | notFound => "No such file or directory (os error 2)"
  | isDirectory => "Is a directory (os error 21)"
  | notDirectory => "Not a directory (os error 20)"
  | nameTooLong => "File name too long (os error 36)"
  | nulInPath => "file name contained an unexpected NUL byte"
  | notText => "stream did not contain valid UTF-8"
  | emitRefused => "emit refused"
  | readRefused => "read refused"
  | other text => text

/-! ### Causes -/

/-- Why an instruction or a run failed. -/
inductive Cause where
  | load (reference : String) (fault : DeviceFault)
  | line (flaw : Line.Flaw)
  | missingOperand (mnemonic : Mnemonic)
  | divisionByZero
  | invalidInput (text : String) (flaw : Decimal.Flaw)
  | inputClosed
  | undefinedLabel (label : String)
  | undeclaredSubroutine (name : String)
  | returnOutsideSubroutine
  | missingReturn (name : String)
  | device (fault : DeviceFault)
  deriving DecidableEq, Repr

/-- The wording of a cause. -/
def Cause.message : Cause → String
  | load reference fault => "Could not load program " ++ reference ++ ": " ++ fault.message
  | line flaw => flaw.message
  | missingOperand mnemonic => mnemonic.text ++ " requires an operand"
  | divisionByZero => "Division by zero"
  | invalidInput text flaw =>
    "Input " ++ Text.quoted text ++ " is not a number: " ++ flaw.message
  | inputClosed => "Input requested, but the input channel is closed"
  | undefinedLabel label => "Jump to undefined label " ++ label
  | undeclaredSubroutine name => "Subroutine " ++ name ++ " was never declared with INC"
  | returnOutsideSubroutine => "RET outside of a subroutine"
  | missingReturn name => "Subroutine " ++ name ++ " ended without RET"
  | device fault => "I/O error: " ++ fault.message

/-! ### Failures -/

/-- A line that was being executed: its program, its index, and its text without the blank
characters at both ends. -/
structure Location where
  program : String
  line : Nat
  text : String
  deriving DecidableEq, Repr

/-- What a location puts before the wording of a cause. -/
def Location.message (l : Location) : String :=
  l.program ++ ", instruction " ++ Decimal.renderNat l.line ++ " `" ++ l.text ++ "`: "

/-- A cause together with the lines that were being executed, the outermost machine first. -/
structure Failure where
  locations : List Location
  cause : Cause
  deriving DecidableEq, Repr

namespace Failure

/-- The wording of a failure. -/
def message (f : Failure) : String :=
  f.locations.foldr (fun l text => l.message ++ text) f.cause.message

/-- The same failure as seen from a caller that was executing the line at `l`. -/
def within (l : Location) (f : Failure) : Failure := { f with locations := l :: f.locations }

end Failure

end AccMachine
