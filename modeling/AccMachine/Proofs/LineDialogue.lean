/-
**Lines as dialogues.**

Since every line is careful, all that a machine does on it is to hold one dialogue with its session:
the dialogue fails, and then the machine is as before, or it comes to the machine after the line and
to where control goes from there.  In this form lines are compared and taken apart in what follows.

Main definitions:

* `Machine.execute`, `Machine.obey`, `Machine.obeyWords`, `Machine.line` — the dialogue of an
  instruction, and of a line;
* `Chain.settle` — where a chain stands after the dialogue of a line.

Main results:

* `Machine.execute_def` — the dialogues of the twenty instructions;
* `Chain.step_of_line` — **a step of a chain holds the dialogue of a line**;
* `Machine.dispatch_def` — so does an instruction outside a run.
-/

import AccMachine.Machine.Run
import AccMachine.Proofs.EffectOrder

set_option relaxedAutoImplicit false
set_option autoImplicit false

namespace AccMachine

namespace Machine

/-! ### Kinds of instructions -/

/-- The dialogue of an instruction that combines the accumulator with the value of its operand. -/
def arithmetic (m : Machine) (op : Int64 → Int64 → Int64) (operand : String) :
    Dialogue (Machine × Flow) := (Act.arithmetic op operand).dialogue m

theorem arithmetic_def (m : Machine) (op : Int64 → Int64 → Int64) (operand : String) :
    m.arithmetic op operand = do
      let value ← m.checkedValue operand
      return (m.accumulate (op m.accumulator value), .next) := rfl

/-- The dialogue of a division. -/
def division (m : Machine) (operand : String) : Dialogue (Machine × Flow) :=
  (Act.division operand).dialogue m

theorem division_def (m : Machine) (operand : String) :
    m.division operand = do
      let value ← m.checkedValue operand
      if value = 0 then .fail .divisionByZero
      else return (m.accumulate (m.accumulator / value), .next) := by
  rw [division, Act.division, Act.dialogue_ask_bind]
  refine congrArg (m.checkedValue operand).bind (funext fun value => ?_)
  by_cases h : value = 0 <;> simp [h]

/-- The dialogue of an instruction that combines the accumulator bit by bit with a slot. -/
def bitwise (m : Machine) (op : Int64 → Int64 → Int64) (key : String) :
    Dialogue (Machine × Flow) := (Act.bitwise op key).dialogue m

theorem bitwise_def (m : Machine) (op : Int64 → Int64 → Int64) (key : String) :
    m.bitwise op key = .done (m.accumulate (op m.accumulator (m.slot key)), .next) := rfl

/-- The dialogue of a jump. -/
def jumpIf (m : Machine) (taken : Bool) (label : String) : Dialogue (Machine × Flow) :=
  (Act.jumpIf (fun _ => taken) label).dialogue m

/-- Whether a jump is taken is a matter of the machine as it is. -/
theorem dialogue_jumpIf (m : Machine) (taken : Machine → Bool) (label : String) :
    (Act.jumpIf taken label).dialogue m = m.jumpIf (taken m) label := by
  simp only [jumpIf, Act.jumpIf, Act.dialogue_ask_bind, Act.dialogue_look_bind]

theorem jumpIf_def (m : Machine) (taken : Bool) (label : String) :
    m.jumpIf taken label = do
      let target? ← m.findLabel label
      if taken then
        match target? with
        | some target => return (m, .jump target)
        | none => .fail (.undefinedLabel label)
      else return (m, .next) := by
  rw [jumpIf, Act.jumpIf, Act.dialogue_ask_bind]
  refine congrArg (m.findLabel label).bind (funext fun target? => ?_)
  cases taken <;> cases target? <;> simp

/-- The dialogue in which a line of input is read. -/
def readNumber (m : Machine) : Dialogue (Machine × Flow) := Act.readNumber.dialogue m

theorem readNumber_def (m : Machine) :
    m.readNumber = Dialogue.ask.bind fun line? =>
      match line? with
      | none => .fail .inputClosed
      | some line =>
        match Decimal.parse (Text.trimmed line) with
        | .ok value => .done (m.accumulate value, .next)
        | .error flaw => .fail (.invalidInput (Text.trimmed line) flaw) := by
  rw [readNumber, Act.readNumber, Act.dialogue_hold_bind]
  refine congrArg Dialogue.ask.bind (funext fun line? => ?_)
  cases line? with
  | none => simp
  | some line => cases h : Decimal.parse (Text.trimmed line) <;> simp [h]

/-- The dialogue in which something is said. -/
def announce (m : Machine) (output : Output) : Dialogue (Machine × Flow) :=
  (Act.announce fun _ => output).dialogue m

/-- What is said is a matter of the machine as it is. -/
theorem dialogue_announce (m : Machine) (output : Machine → Output) :
    (Act.announce output).dialogue m = m.announce (output m) := rfl

theorem announce_def (m : Machine) (output : Output) :
    m.announce output = do
      Dialogue.say output
      return (m, .next) := rfl

/-- The dialogue of a declaration. -/
def declareSubroutine (m : Machine) (reference : String) : Dialogue (Machine × Flow) :=
  (Act.declareSubroutine reference).dialogue m

theorem declareSubroutine_def (m : Machine) (reference : String) :
    m.declareSubroutine reference = do
      let program ← Dialogue.fetch reference
      Dialogue.log (.declared m.program.reference reference)
      return ({ m with subroutines := m.subroutines.put reference (m.subroutine program) },
        .next) := rfl

/-- The dialogue of a call. -/
def callSubroutine (m : Machine) (name : String) : Dialogue (Machine × Flow) :=
  (Act.callSubroutine name).dialogue m

theorem callSubroutine_def (m : Machine) (name : String) :
    m.callSubroutine name =
      match m.subroutines.find? name with
      | none => .fail (.undeclaredSubroutine name)
      | some callee => do
        Dialogue.log (.invoking name m.accumulator)
        return (m, .call name (callee.invoked m.accumulator)) := by
  rw [callSubroutine, Act.callSubroutine, Act.dialogue_look_bind]
  cases m.subroutines.find? name <;> simp

/-- The dialogue of a return. -/
def returnToCaller (m : Machine) : Dialogue (Machine × Flow) := Act.returnToCaller.dialogue m

theorem returnToCaller_def (m : Machine) :
    m.returnToCaller =
      if m.awaited then .done ({ m with awaited := false }, .ret)
      else .fail .returnOutsideSubroutine := by
  rw [returnToCaller, Act.returnToCaller, Act.dialogue_look_bind]
  cases h : m.awaited <;> simp

/-! ### Instructions and lines -/

/-- The dialogue of an instruction, with the text of its operand. -/
def execute (m : Machine) (mnemonic : Mnemonic) (operand : String) : Dialogue (Machine × Flow) :=
  (Act.execute mnemonic operand).dialogue m

theorem execute_def (m : Machine) (mnemonic : Mnemonic) (operand : String) :
    m.execute mnemonic operand =
      match mnemonic with
      | .load => .done (m.accumulate (m.valueOf operand), .next)
      | .store => .done ({ m with storage := m.storage.put operand m.accumulator }, .next)
      | .add => m.arithmetic (· + ·) operand
      | .subtract => m.arithmetic (· - ·) operand
      | .multiply => m.arithmetic (· * ·) operand
      | .divide => m.division operand
      | .jump => m.jumpIf true operand
      | .jumpNegative => m.jumpIf (m.accumulator < 0) operand
      | .jumpZero => m.jumpIf (m.accumulator = 0) operand
      | .xor => m.bitwise (· ^^^ ·) operand
      | .or => m.bitwise (· ||| ·) operand
      | .and => m.bitwise (· &&& ·) operand
      | .andNot => m.bitwise (fun a b => a &&& ~~~b) operand
      | .input => m.readNumber
      | .output => m.announce (.value m.accumulator)
      | .outputChar => m.announce (.char (Output.characterOf m.accumulator))
      | .declare => m.declareSubroutine operand
      | .run => m.callSubroutine operand
      | .ret => m.returnToCaller
      | .halt => .done (m, .halt) := by
  cases mnemonic with
  | jumpNegative | jumpZero => exact m.dialogue_jumpIf _ operand
  | output | outputChar => exact m.dialogue_announce _
  | _ => rfl

/-- The dialogue of an instruction that has the operand it needs, or not. -/
def obey (m : Machine) (i : Instruction) : Dialogue (Machine × Flow) := (Act.obey i).dialogue m

theorem obey_def (m : Machine) (i : Instruction) :
    m.obey i =
      match i.operand with
      | some operand => m.execute i.mnemonic operand
      | none =>
        if i.mnemonic.takesOperand then .fail (.missingOperand i.mnemonic)
        else m.execute i.mnemonic "" := by
  unfold obey Act.obey
  cases i.operand with
  | some operand => rfl
  | none => cases i.mnemonic.takesOperand <;> rfl

/-- The dialogue in which a machine does what the words of a line say. -/
def obeyWords (m : Machine) (words : List String) : Dialogue (Machine × Flow) :=
  (Act.obeyWords words).dialogue m

theorem obeyWords_def (m : Machine) (words : List String) :
    m.obeyWords words =
      match Line.decode words with
      | .error flaw => .fail (.line flaw)
      | .ok .blank => .done (m, .next)
      | .ok (.anchor _) => .done (m, .next)
      | .ok (.instruction i) => m.obey i := by
  unfold obeyWords Act.obeyWords
  rcases Line.decode words with flaw | _ | label | i <;> rfl

/-- The dialogue of a line of text. -/
def line (m : Machine) (text : String) : Dialogue (Machine × Flow) := (Act.line text).dialogue m

theorem line_def (m : Machine) (text : String) :
    m.line text =
      .trace (Text.wordsOf text) m.accumulator (m.obeyWords (Text.wordsOf text)) := rfl

end Machine

/-! ### Steps -/

/-- Where a chain stands after the dialogue of the active machine's line came to the given
result. -/
def Chain.settle (c : Chain) : Except Cause (Machine × Flow) → Progress × List LogEvent
  | .error cause => c.proceed (.error cause)
  | .ok (m, flow) => Chain.proceed ⟨m, c.callers⟩ (.ok flow)

variable {κ : Type} [Console κ]

namespace Chain

theorem step_of_none {c : Chain} (h : c.active.currentLine? = none) (s : Session κ) :
    c.step s = (c.runOut.1, s.noteAll c.runOut.2) := by
  rw [step, Host.step, h]
  exact Session.bind_run (Session.noteAll_run s c.runOut.2)

/-- **A step of a chain holds the dialogue of a line**, and goes on from what that comes to. -/
theorem step_of_line {c : Chain} {text : String} (h : c.active.currentLine? = some text)
    {s s' : Session κ} {result : Except Cause (Machine × Flow)}
    (hp : s.perform (c.active.line text) = (result, s')) :
    c.step s = ((c.settle result).1, s'.noteAll (c.settle result).2) := by
  have hline : ((Act.line text).carryOut c.active : StateM (Session κ) _).run s =
      (Act.outcome c.active result, s') := (Act.line_careful text).carryOut_of_perform hp
  rw [step, Host.step, h]
  refine (Session.bind_run hline).trans ?_
  cases result with
  | error cause => exact Session.bind_run (Session.noteAll_run s' _)
  | ok answer => exact Session.bind_run (Session.noteAll_run s' _)

end Chain

/-- **An instruction outside a run holds its dialogue**, and then runs the subroutine if it is a
call. -/
theorem Machine.dispatch_def (fuel : Nat) (m : Machine) (s : Session κ) (mnemonic : Mnemonic)
    (operand : String) :
    m.dispatch fuel s mnemonic operand =
      match s.perform (m.execute mnemonic operand) with
      | (.error cause, s') => some (.error ⟨[], cause⟩, m, s')
      | (.ok (m', .call name callee), s') =>
        match callee.run fuel s' with
        | none => none
        | some (ending, callee', s'') =>
          let (m'', result) := m'.conclude name callee' ending
          some (flowOfCall result, m'', s''.note (.completed name (ending.completion callee')))
      | (.ok (m', flow), s') => some (.ok flow, m', s') := by
  rcases hp : s.perform (m.execute mnemonic operand) with ⟨result, s'⟩
  have hact : ((Act.execute mnemonic operand).carryOut m : StateM (Session κ) _).run s =
      (Act.outcome m result, s') := (Act.execute_careful mnemonic operand).carryOut_of_perform hp
  rw [dispatch, Host.dispatch, Session.bind_run hact]
  rcases result with cause | ⟨m', _ | target | ⟨name, callee⟩ | _ | _⟩
  · rfl
  · rfl
  · rfl
  · -- The call is run to its end.
    dsimp only [Act.outcome, run]
    rcases hr : (Host.run fuel callee : StateM (Session κ) _).run s' with
      ⟨_ | ⟨ending, callee'⟩, s''⟩ <;> rw [Session.bind_run hr] <;> rfl
  · rfl
  · rfl

end AccMachine
