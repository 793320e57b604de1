/-
**Why a line fails.**

A line that fails does so in one of a few ways: it cannot be read, its operand is missing, or its
instruction cannot be carried out or is refused something by the session.  This module says once
what each of these ways requires of the machine, and what the session has answered last when the
line fails.

Main definitions:

* `Machine.Says` — the outputs of an instruction;
* `Machine.Refusal` — the ways in which an instruction fails, with their causes;
* `Machine.LineRefusal` — the ways in which a line of text fails.

Main results:

* `Machine.refusal_of_execute` — **every instruction that fails does so in one of the ways**;
* `Machine.lineRefusal_of_perform` — what a line that failed was refused.
-/

import AccMachine.Proofs.LineEffect
import AccMachine.Proofs.Transcript

set_option relaxedAutoImplicit false
set_option autoImplicit false

namespace AccMachine

/-! ### Dialogues that fail -/

namespace Session

variable {κ : Type} [Console κ] {α β : Type} {s s' : Session κ}

/-- Dialogues held one after another fail in the first one or in the second one. -/
theorem perform_bind_error {d : Dialogue α} {k : α → Dialogue β} {cause : Cause}
    (h : s.perform (d.bind k) = (.error cause, s')) :
    s.perform d = (.error cause, s') ∨
      ∃ a s₁, s.perform d = (.ok a, s₁) ∧ s₁.perform (k a) = (.error cause, s') := by
  rw [perform_bind] at h
  rcases hd : s.perform d with ⟨cause' | a, s₁⟩ <;> rw [hd] at h
  · cases h
    exact Or.inl rfl
  · exact Or.inr ⟨a, s₁, rfl, h⟩

/-- What a session answers to an output is the answer of its console. -/
theorem console_of_emit {output : Output} {answer : Except DeviceFault Unit}
    (h : s.emit output = (answer, s')) :
    Console.emit s.console output = (answer, s'.console) := by
  rw [emit_eq] at h
  cases h
  rfl

theorem console_of_readLine {answer : Except DeviceFault (Option String)}
    (h : s.readLine = (answer, s')) : Console.read s.console = (answer, s'.console) := by
  rw [readLine_eq] at h
  cases h
  rfl

/-- An entry is refused only in debug mode, and by the console. -/
theorem console_of_trace_error {words : List String} {accumulator : Int64} {fault : DeviceFault}
    (h : s.trace words accumulator = (.error fault, s')) :
    s'.tracer.mode = .debug ∧
      Console.emit s.console (.trace (traceEntry words accumulator)) =
        (.error fault, s'.console) := by
  unfold trace at h
  split at h
  · cases h
  · next hmode =>
      refine ⟨?_, console_of_emit h⟩
      obtain ⟨-, rfl⟩ := Prod.mk.inj h
      exact hmode
  · cases h

/-- A dialogue that only says something fails only if the console refuses it. -/
theorem perform_emit_done {output : Output} {a : α} {answer : Except Cause α}
    (h : s.perform (.emit output (.done a)) = (answer, s')) :
    (∃ fault, answer = .error (.device fault) ∧
        Console.emit s.console output = (.error fault, s'.console)) ∨
      (answer = .ok a ∧ Console.emit s.console output = (.ok (), s'.console)) := by
  simp only [perform] at h
  split at h
  · next fault s₁ he =>
      cases h
      exact Or.inl ⟨fault, rfl, console_of_emit he⟩
  · next s₁ he =>
      cases h
      exact Or.inr ⟨rfl, console_of_emit he⟩

end Session

namespace Machine

/-! ### The ways to fail -/

/-- The output is one that an instruction with that operand shows. -/
def Says (m : Machine) (operand : String) (output : Output) : Mnemonic → Prop
  | .output => output = .value m.accumulator
  | .outputChar => output = .char (Output.characterOf m.accumulator)
  | .add | .subtract | .multiply | .divide =>
      ∃ key, Operand.ofText operand = .slot key ∧ m.storage.find? key = none ∧
        output = missingSlot key
  | .jump | .jumpNegative | .jumpZero =>
      m.program.label? operand = none ∧ output = missingLabel operand
  | _ => False

/-- The instruction is a jump, and the accumulator is such that it is taken. -/
def Jumps (m : Machine) : Mnemonic → Prop
  | .jump => True
  | .jumpNegative => m.accumulator < 0
  | .jumpZero => m.accumulator = 0
  | _ => False

variable {κ : Type} [Console κ]

/-- `m.Refusal operand s mnemonic cause`: the instruction, with that operand, may fail with the
cause, and leave the session `s`. -/
inductive Refusal (m : Machine) (operand : String) (s : Session κ) : Mnemonic → Cause → Prop
  /-- The console refused an output. -/
  | emit {mnemonic : Mnemonic} {console : κ} {output : Output} {fault : DeviceFault}
      (hs : m.Says operand output mnemonic)
      (he : Console.emit console output = (.error fault, s.console)) :
      Refusal m operand s mnemonic (.device fault)
  /-- The console refused to hand out a line. -/
  | read {console : κ} {fault : DeviceFault}
      (hr : Console.read console = (.error fault, s.console)) :
      Refusal m operand s .input (.device fault)
  /-- The console had no line left. -/
  | closed {console : κ} (hr : Console.read console = (.ok none, s.console)) :
      Refusal m operand s .input .inputClosed
  /-- The console handed out a line that is no integer. -/
  | invalid {console : κ} {line : String} {flaw : Decimal.Flaw}
      (hr : Console.read console = (.ok (some line), s.console))
      (hp : Decimal.parse (Text.trimmed line) = .error flaw) :
      Refusal m operand s .input (.invalidInput (Text.trimmed line) flaw)
  | zero (hv : m.valueOf operand = 0) : Refusal m operand s .divide .divisionByZero
  /-- A jump was taken, and the console accepted the warning about its label. -/
  | label {mnemonic : Mnemonic} {console : κ} (hj : m.Jumps mnemonic)
      (hl : m.program.label? operand = none)
      (he : Console.emit console (missingLabel operand) = (.ok (), s.console)) :
      Refusal m operand s mnemonic (.undefinedLabel operand)
  | load {fault : DeviceFault} (hs : s.source operand = .error fault) :
      Refusal m operand s .declare (.load operand fault)
  | undeclared (hc : m.subroutines.find? operand = none) :
      Refusal m operand s .run (.undeclaredSubroutine operand)
  | unawaited (ha : m.awaited = false) : Refusal m operand s .ret .returnOutsideSubroutine

/-- `m.LineRefusal text s cause`: the line may fail with the cause, and leave the session `s`. -/
inductive LineRefusal (m : Machine) (text : String) (s : Session κ) : Cause → Prop
  /-- The console refused the entry of the line. -/
  | untraced {console : κ} {fault : DeviceFault} (hmode : s.tracer.mode = .debug)
      (he : Console.emit console (.trace (traceEntry (Text.wordsOf text) m.accumulator)) =
        (.error fault, s.console)) : LineRefusal m text s (.device fault)
  | unreadable {flaw : Line.Flaw} (hd : Line.decode (Text.wordsOf text) = .error flaw) :
      LineRefusal m text s (.line flaw)
  | missingOperand {i : Instruction}
      (hd : Line.decode (Text.wordsOf text) = .ok (.instruction i)) (ho : i.operand = none)
      (ht : i.mnemonic.takesOperand = true) : LineRefusal m text s (.missingOperand i.mnemonic)
  | obey {i : Instruction} {operand : String} {cause : Cause}
      (hd : Line.decode (Text.wordsOf text) = .ok (.instruction i)) (ho : OperandText i operand)
      (hr : m.Refusal operand s i.mnemonic cause) : LineRefusal m text s cause

/-! ### Instructions -/

section

variable {m : Machine} {s s' : Session κ} {cause : Cause}

/-- Looking up the value of an operand. -/
theorem perform_checkedValue {operand : String} {answer : Except Cause Int64}
    (h : s.perform (m.checkedValue operand) = (answer, s')) :
    answer = .ok (m.valueOf operand) ∨
      ∃ key fault, answer = .error (.device fault) ∧ Operand.ofText operand = .slot key ∧
        m.storage.find? key = none ∧
        Console.emit s.console (missingSlot key) = (.error fault, s'.console) := by
  unfold checkedValue at h
  split at h
  · next value ho =>
      have hvalue : m.valueOf operand = value := by simp only [valueOf, ho]
      cases h
      exact Or.inl (by rw [hvalue])
  · next key ho =>
      have hvalue : m.valueOf operand = (m.storage.find? key).getD 0 := by
        simp only [valueOf, ho, slot]
      split at h
      · next value hs =>
          cases h
          exact Or.inl (by rw [hvalue, hs, Option.getD_some])
      · next hs =>
          rcases Session.perform_emit_done h with ⟨fault, rfl, he⟩ | ⟨rfl, -⟩
          · exact Or.inr ⟨key, fault, rfl, ho, hs, he⟩
          · exact Or.inl (by rw [hvalue, hs, Option.getD_none])

/-- Looking up the value of an operand fails only with the warning. -/
theorem refusal_of_checkedValue {operand : String} {mnemonic : Mnemonic}
    (hs : ∀ key, Operand.ofText operand = .slot key → m.storage.find? key = none →
      m.Says operand (missingSlot key) mnemonic)
    (h : s.perform (m.checkedValue operand) = (.error cause, s')) :
    m.Refusal operand s' mnemonic cause := by
  rcases perform_checkedValue h with hok | ⟨key, fault, herror, ho, hnone, he⟩
  · cases hok
  · cases herror
    exact .emit (hs key ho hnone) he

theorem refusal_of_arithmetic {op : Int64 → Int64 → Int64} {operand : String} {mnemonic : Mnemonic}
    (hs : ∀ key, Operand.ofText operand = .slot key → m.storage.find? key = none →
      m.Says operand (missingSlot key) mnemonic)
    (h : s.perform (m.arithmetic op operand) = (.error cause, s')) :
    m.Refusal operand s' mnemonic cause := by
  rcases Session.perform_bind_error h with h | ⟨value, s₁, -, h⟩
  · exact refusal_of_checkedValue hs h
  · cases h

theorem refusal_of_division {operand : String}
    (h : s.perform (m.division operand) = (.error cause, s')) :
    m.Refusal operand s' .divide cause := by
  rw [division_def] at h
  rcases Session.perform_bind_error h with h | ⟨value, s₁, hvalue, h⟩
  · exact refusal_of_checkedValue (fun key ho hs => ⟨key, ho, hs, rfl⟩) h
  · rcases perform_checkedValue hvalue with hok | ⟨key, fault, herror, -⟩
    · cases hok
      split at h
      · next hzero =>
          cases h
          exact .zero hzero
      · cases h
    · cases herror

/-- Looking up the line of a label. -/
theorem perform_findLabel {label : String} {answer : Except Cause (Option Nat)}
    (h : s.perform (m.findLabel label) = (answer, s')) :
    (answer = .ok (m.program.label? label) ∧ (m.program.label? label = none →
        Console.emit s.console (missingLabel label) = (.ok (), s'.console))) ∨
      ∃ fault, answer = .error (.device fault) ∧ m.program.label? label = none ∧
        Console.emit s.console (missingLabel label) = (.error fault, s'.console) := by
  unfold findLabel at h
  split at h
  · next target ht =>
      cases h
      exact Or.inl ⟨by rw [ht], fun hnone => by rw [ht] at hnone; cases hnone⟩
  · next hnone =>
      rcases Session.perform_emit_done h with ⟨fault, rfl, he⟩ | ⟨rfl, he⟩
      · exact Or.inr ⟨fault, rfl, hnone, he⟩
      · exact Or.inl ⟨by rw [hnone], fun _ => he⟩

theorem refusal_of_jumpIf {taken : Bool} {label : String} {mnemonic : Mnemonic}
    (hs : m.program.label? label = none → m.Says label (missingLabel label) mnemonic)
    (hj : taken = true → m.Jumps mnemonic)
    (h : s.perform (m.jumpIf taken label) = (.error cause, s')) :
    m.Refusal label s' mnemonic cause := by
  rw [jumpIf_def] at h
  rcases Session.perform_bind_error h with h | ⟨target?, s₁, htarget, h⟩
  · rcases perform_findLabel h with ⟨hok, -⟩ | ⟨fault, herror, hl, he⟩
    · cases hok
    · cases herror
      exact .emit (hs hl) he
  · rcases perform_findLabel htarget with ⟨hok, hwarned⟩ | ⟨fault, herror, -⟩
    · cases hok
      split at h
      · next htaken =>
          split at h
          · cases h
          · next hl =>
              cases h
              exact .label (hj htaken) hl (hwarned hl)
      · cases h
    · cases herror

theorem refusal_of_readNumber {operand : String}
    (h : s.perform m.readNumber = (.error cause, s')) : m.Refusal operand s' .input cause := by
  simp only [readNumber_def, Dialogue.ask_bind, Session.perform] at h
  split at h
  · next fault s₁ hr =>
      cases h
      exact .read (Session.console_of_readLine hr)
  · next line s₁ hr =>
      cases line with
      | none =>
          cases h
          exact .closed (Session.console_of_readLine hr)
      | some line =>
          dsimp only at h
          split at h
          · cases h
          · next flaw hp =>
              cases h
              exact .invalid (Session.console_of_readLine hr) hp

theorem refusal_of_announce {operand : String} {mnemonic : Mnemonic} {output : Output}
    (hs : m.Says operand output mnemonic)
    (h : s.perform (m.announce output) = (.error cause, s')) :
    m.Refusal operand s' mnemonic cause := by
  rcases Session.perform_emit_done h with ⟨fault, herror, he⟩ | ⟨hok, -⟩
  · cases herror
    exact .emit hs he
  · cases hok

theorem refusal_of_declareSubroutine {reference : String}
    (h : s.perform (m.declareSubroutine reference) = (.error cause, s')) :
    m.Refusal reference s' .declare cause := by
  simp only [declareSubroutine_def, Dialogue.bind_eq, Dialogue.fetch_bind, Session.perform,
    Session.load] at h
  cases hsource : s.source reference with
  | error fault =>
      simp only [hsource] at h
      cases h
      exact .load hsource
  | ok text =>
      simp only [hsource] at h
      cases h

theorem refusal_of_callSubroutine {name : String}
    (h : s.perform (m.callSubroutine name) = (.error cause, s')) :
    m.Refusal name s' .run cause := by
  rw [callSubroutine_def] at h
  split at h
  · next hc =>
      cases h
      exact .undeclared hc
  · cases h

theorem refusal_of_returnToCaller {operand : String}
    (h : s.perform m.returnToCaller = (.error cause, s')) : m.Refusal operand s' .ret cause := by
  rw [returnToCaller_def] at h
  split at h
  · cases h
  · next ha =>
      cases h
      exact .unawaited (Bool.eq_false_iff.2 ha)

/-- **Every instruction that fails does so in one of the ways.** -/
theorem refusal_of_execute {mnemonic : Mnemonic} {operand : String}
    (h : s.perform (m.execute mnemonic operand) = (.error cause, s')) :
    m.Refusal operand s' mnemonic cause := by
  rw [execute_def] at h
  cases mnemonic with
  | add | subtract | multiply =>
      exact refusal_of_arithmetic (fun key ho hs => ⟨key, ho, hs, rfl⟩) h
  | divide => exact refusal_of_division h
  | jump => exact refusal_of_jumpIf (fun hl => ⟨hl, rfl⟩) (fun _ => trivial) h
  | jumpNegative =>
      have htaken : decide (m.accumulator < 0) = true → m.Jumps .jumpNegative := of_decide_eq_true
      exact refusal_of_jumpIf (fun hl => ⟨hl, rfl⟩) htaken h
  | jumpZero =>
      have htaken : decide (m.accumulator = 0) = true → m.Jumps .jumpZero := of_decide_eq_true
      exact refusal_of_jumpIf (fun hl => ⟨hl, rfl⟩) htaken h
  | input => exact refusal_of_readNumber h
  | output | outputChar => exact refusal_of_announce rfl h
  | declare => exact refusal_of_declareSubroutine h
  | run => exact refusal_of_callSubroutine h
  | ret => exact refusal_of_returnToCaller h
  | load | store | xor | or | and | andNot | halt => cases h

/-! ### Lines -/

/-- **What a line that failed was refused.** -/
theorem lineRefusal_of_perform {text : String}
    (h : s.perform (m.line text) = (.error cause, s')) : m.LineRefusal text s' cause := by
  simp only [line_def, Session.perform] at h
  split at h
  · next fault s₁ htrace =>
      cases h
      obtain ⟨hmode, he⟩ := Session.console_of_trace_error htrace
      exact .untraced hmode he
  · next s₁ _ =>
      rw [obeyWords_def] at h
      split at h
      · next flaw hd =>
          cases h
          exact .unreadable hd
      · cases h
      · cases h
      · next i hd =>
          rw [obey_def] at h
          split at h
          · next operand ho => exact .obey hd (Or.inl ho) (refusal_of_execute h)
          · next ho =>
              split at h
              · next ht =>
                  cases h
                  exact .missingOperand hd ho ht
              · next ht =>
                  exact .obey hd (Or.inr ⟨ho, Bool.eq_false_iff.2 ht, rfl⟩) (refusal_of_execute h)

end

end Machine

end AccMachine
