/-
**Executing a line.**

A machine executes a line as an act: it records the line and then does what the words say.  The
single instructions are written in the order in which they look up, warn, ask and change.

Arithmetic wraps around at 64 bits.  Arithmetic instructions warn about a slot that was never
stored; loads and bitwise instructions do not.  A jump warns about a label that does not exist,
whether or not it is taken, and fails only if it is.

Main definitions:

* `Flow` — where control goes;
* `Machine.checkedValue`, `Machine.findLabel` — looking up, with a warning;
* `Act.execute` — the twenty instructions;
* `Act.obey` — an instruction with the operand it has, or does not have;
* `Act.line` — a whole line.
-/

import AccMachine.Machine.Act

set_option relaxedAutoImplicit false
set_option autoImplicit false

namespace AccMachine

/-- Where control goes after a line. -/
inductive Flow where
  | next
  | jump (target : Nat)
  /-- Into a subroutine, known to the machine by that name. -/
  | call (name : String) (callee : Machine)
  /-- Back to the caller. -/
  | ret
  | halt

namespace Machine

/-! ### Looking up -/

/-- The warning about a slot that was never stored. -/
def missingSlot (key : String) : Output := .warning ("variable <" ++ key ++ "> does not exist")

/-- The warning about a label that no line carries. -/
def missingLabel (label : String) : Output := .warning ("label <" ++ label ++ "> does not exist")

/-- The value of an operand, with a warning if it is a slot that was never stored. -/
def checkedValue (m : Machine) (operand : String) : Dialogue Int64 :=
  match Operand.ofText operand with
  | .literal value => .done value
  | .slot key =>
    match m.storage.find? key with
    | some value => .done value
    | none => .emit (missingSlot key) (.done 0)

/-- The line of a label, with a warning if there is none. -/
def findLabel (m : Machine) (label : String) : Dialogue (Option Nat) :=
  match m.program.label? label with
  | some target => .done (some target)
  | none => .emit (missingLabel label) (.done none)

end Machine

namespace Act

/-! ### Kinds of instructions -/

/-- Combines the accumulator with the value of an operand. -/
def arithmetic (op : Int64 → Int64 → Int64) (operand : String) : Act Flow := do
  let value ← ask (·.checkedValue operand)
  update fun m => m.accumulate (op m.accumulator value)
  return .next

/-- Divides the accumulator, toward zero, by the value of an operand. -/
def division (operand : String) : Act Flow := do
  let value ← ask (·.checkedValue operand)
  if value = 0 then fail .divisionByZero
  else
    update fun m => m.accumulate (m.accumulator / value)
    return .next

/-- Combines the accumulator bit by bit with a slot, whose name may look like an integer. -/
def bitwise (op : Int64 → Int64 → Int64) (key : String) : Act Flow := do
  update fun m => m.accumulate (op m.accumulator (m.slot key))
  return .next

/-- Jumps to a label if `taken` holds of the machine. -/
def jumpIf (taken : Machine → Bool) (label : String) : Act Flow := do
  let target? ← ask (·.findLabel label)
  if taken (← look) then
    match target? with
    | some target => return .jump target
    | none => fail (.undefinedLabel label)
  else return .next

/-- Reads a line of input into the accumulator. -/
def readNumber : Act Flow := do
  match ← hold Dialogue.ask with
  | none => fail .inputClosed
  | some line =>
    let text := Text.trimmed line
    match Decimal.parse text with
    | .ok value =>
      update fun m => m.accumulate value
      return .next
    | .error flaw => fail (.invalidInput text flaw)

/-- Says something about the machine and goes on. -/
def announce (output : Machine → Output) : Act Flow := do
  ask fun m => Dialogue.say (output m)
  return .next

/-- Loads a program and declares it as a fresh subroutine, in place of any of that name. -/
def declareSubroutine (reference : String) : Act Flow := do
  let program ← hold (Dialogue.fetch reference)
  ask fun m => Dialogue.log (.declared m.program.reference reference)
  update fun m => { m with subroutines := m.subroutines.put reference (m.subroutine program) }
  return .next

/-- Calls a subroutine that was declared. -/
def callSubroutine (name : String) : Act Flow := do
  let m ← look
  match m.subroutines.find? name with
  | none => fail (.undeclaredSubroutine name)
  | some callee =>
    hold (Dialogue.log (.invoking name m.accumulator))
    return .call name (callee.invoked m.accumulator)

/-- Returns to the caller, if one is waiting. -/
def returnToCaller : Act Flow := do
  if (← look).awaited then
    update fun m => { m with awaited := false }
    return .ret
  else fail .returnOutsideSubroutine

/-! ### Instructions and lines -/

/-- Executes an instruction with the text of its operand, which is empty where none belongs. -/
def execute (mnemonic : Mnemonic) (operand : String) : Act Flow :=
  match mnemonic with
  | .load => do
    update fun m => m.accumulate (m.valueOf operand)
    return .next
  | .store => do
    update fun m => { m with storage := m.storage.put operand m.accumulator }
    return .next
  | .add => arithmetic (· + ·) operand
  | .subtract => arithmetic (· - ·) operand
  | .multiply => arithmetic (· * ·) operand
  | .divide => division operand
  | .jump => jumpIf (fun _ => true) operand
  | .jumpNegative => jumpIf (·.accumulator < 0) operand
  | .jumpZero => jumpIf (·.accumulator = 0) operand
  | .xor => bitwise (· ^^^ ·) operand
  | .or => bitwise (· ||| ·) operand
  | .and => bitwise (· &&& ·) operand
  | .andNot => bitwise (fun a b => a &&& ~~~b) operand
  | .input => readNumber
  | .output => announce fun m => .value m.accumulator
  | .outputChar => announce fun m => .char (Output.characterOf m.accumulator)
  | .declare => declareSubroutine operand
  | .run => callSubroutine operand
  | .ret => returnToCaller
  | .halt => return .halt

/-- Executes an instruction that has the operand it needs, and fails otherwise. -/
def obey (i : Instruction) : Act Flow :=
  match i.operand with
  | some operand => execute i.mnemonic operand
  | none =>
    if i.mnemonic.takesOperand then fail (.missingOperand i.mnemonic)
    else execute i.mnemonic ""

/-- Does what the words of a line say. -/
def obeyWords (words : List String) : Act Flow :=
  match Line.decode words with
  | .error flaw => fail (.line flaw)
  | .ok .blank => return .next
  | .ok (.anchor _) => return .next
  | .ok (.instruction i) => obey i

/-- Records a line of text and does what it says. -/
def line (text : String) : Act Flow := do
  ask fun m => Dialogue.record (Text.wordsOf text) m.accumulator
  obeyWords (Text.wordsOf text)

end Act

end AccMachine
