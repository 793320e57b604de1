/-
**The turns of an instruction.**

An instruction takes only a few turns with its session.  Which ones is told by its mnemonic, and by
what the machine has under its operand: only the instruction for it reads, only a declaration loads,
only a declaration and a call leave a note.  What a dialogue says, reads or notes can be read off
from its turns.

Main definitions:

* `Turn` — a turn of a dialogue, without its answer;
* `Dialogue.Takes` — every turn of a dialogue has a property;
* `Machine.Turns`, `Machine.LineTurns` — the turns of an instruction and of a line.

Main results:

* `Machine.execute_takes` — **an instruction takes no other turns**;
* `Machine.obeyWords_takes` — nor does a line, once it was recorded.
-/

import AccMachine.Proofs.LineEffect

set_option relaxedAutoImplicit false
set_option autoImplicit false

namespace AccMachine

/-- A turn of a dialogue, without the answer. -/
inductive Turn where
  | fail (cause : Cause)
  | trace (words : List String) (accumulator : Int64)
  | emit (output : Output)
  | read
  | load (reference : String)
  | note (event : LogEvent)

namespace Dialogue

variable {α β : Type} {P Q : Turn → Prop}

/-- `d.Takes P`: whatever the answers are, every turn of the dialogue has `P`. -/
def Takes (P : Turn → Prop) : Dialogue α → Prop
  | done _ => True
  | fail cause => P (.fail cause)
  | trace words accumulator next => P (.trace words accumulator) ∧ next.Takes P
  | emit output next => P (.emit output) ∧ next.Takes P
  | read next => P .read ∧ ∀ line, (next line).Takes P
  | load reference next => P (.load reference) ∧ ∀ program, (next program).Takes P
  | note event next => P (.note event) ∧ next.Takes P

theorem Takes.mono {d : Dialogue α} (h : d.Takes P) (hPQ : ∀ turn, P turn → Q turn) :
    d.Takes Q := by
  induction d with
  | done a => trivial
  | fail cause => exact hPQ _ h
  | trace words accumulator next ih => exact ⟨hPQ _ h.1, ih h.2⟩
  | emit output next ih => exact ⟨hPQ _ h.1, ih h.2⟩
  | read next ih => exact ⟨hPQ _ h.1, fun line => ih line (h.2 line)⟩
  | load reference next ih => exact ⟨hPQ _ h.1, fun program => ih program (h.2 program)⟩
  | note event next ih => exact ⟨hPQ _ h.1, ih h.2⟩

theorem Takes.bind {d : Dialogue α} {k : α → Dialogue β} (h : d.Takes P)
    (hk : ∀ a, (k a).Takes P) : (d.bind k).Takes P := by
  induction d with
  | done a => exact hk a
  | fail cause => exact h
  | trace words accumulator next ih => exact ⟨h.1, ih h.2⟩
  | emit output next ih => exact ⟨h.1, ih h.2⟩
  | read next ih => exact ⟨h.1, fun line => ih line (h.2 line)⟩
  | load reference next ih => exact ⟨h.1, fun program => ih program (h.2 program)⟩
  | note event next ih => exact ⟨h.1, ih h.2⟩

end Dialogue

namespace Machine

/-! ### Instructions -/

/-- `m.Turns operand mnemonic turn`: the instruction, with that operand, may take the turn. -/
inductive Turns (m : Machine) (operand : String) : Mnemonic → Turn → Prop
  | missingSlot {mnemonic : Mnemonic} {key : String}
      (hm : mnemonic ∈ [.add, .subtract, .multiply, .divide])
      (ho : Operand.ofText operand = .slot key) (hs : m.storage.find? key = none) :
      Turns m operand mnemonic (.emit (missingSlot key))
  | missingLabel {mnemonic : Mnemonic} (hm : mnemonic ∈ [.jump, .jumpNegative, .jumpZero])
      (hl : m.program.label? operand = none) :
      Turns m operand mnemonic (.emit (missingLabel operand))
  | value : Turns m operand .output (.emit (.value m.accumulator))
  | char : Turns m operand .outputChar (.emit (.char (Output.characterOf m.accumulator)))
  | read : Turns m operand .input .read
  | load : Turns m operand .declare (.load operand)
  | declared : Turns m operand .declare (.note (.declared m.program.reference operand))
  | invoking : Turns m operand .run (.note (.invoking operand m.accumulator))
  /-- Only the instruction that reads fails for want of input. -/
  | fail {mnemonic : Mnemonic} {cause : Cause} (h : cause = .inputClosed → mnemonic = .input) :
      Turns m operand mnemonic (.fail cause)

variable (m : Machine) (operand : String) {mnemonic : Mnemonic}

theorem checkedValue_takes (hm : mnemonic ∈ [.add, .subtract, .multiply, .divide]) :
    (m.checkedValue operand).Takes (m.Turns operand mnemonic) := by
  unfold checkedValue
  split
  · trivial
  · next key ho =>
      split
      · trivial
      · next hs => exact ⟨.missingSlot hm ho hs, trivial⟩

theorem findLabel_takes (hm : mnemonic ∈ [.jump, .jumpNegative, .jumpZero]) :
    (m.findLabel operand).Takes (m.Turns operand mnemonic) := by
  unfold findLabel
  split
  · trivial
  · next hl => exact ⟨.missingLabel hm hl, trivial⟩

theorem arithmetic_takes (op : Int64 → Int64 → Int64)
    (hm : mnemonic ∈ [.add, .subtract, .multiply, .divide]) :
    (m.arithmetic op operand).Takes (m.Turns operand mnemonic) :=
  (m.checkedValue_takes operand hm).bind fun _ => trivial

theorem division_takes : (m.division operand).Takes (m.Turns operand .divide) := by
  rw [division_def]
  refine (m.checkedValue_takes operand (by decide)).bind fun value => ?_
  split
  · exact .fail nofun
  · trivial

theorem jumpIf_takes (taken : Bool) (hm : mnemonic ∈ [.jump, .jumpNegative, .jumpZero]) :
    (m.jumpIf taken operand).Takes (m.Turns operand mnemonic) := by
  rw [jumpIf_def]
  refine (m.findLabel_takes operand hm).bind fun target? => ?_
  split
  · split
    · trivial
    · exact .fail nofun
  · trivial

theorem readNumber_takes : m.readNumber.Takes (m.Turns operand .input) := by
  rw [readNumber_def]
  refine ⟨.read, fun line => ?_⟩
  cases line with
  | none => exact .fail fun _ => rfl
  | some text =>
      dsimp only [Dialogue.bind]
      split
      · trivial
      · exact .fail nofun

theorem callSubroutine_takes : (m.callSubroutine operand).Takes (m.Turns operand .run) := by
  rw [callSubroutine_def]
  split
  · exact .fail nofun
  · exact ⟨.invoking, trivial⟩

theorem returnToCaller_takes : m.returnToCaller.Takes (m.Turns operand .ret) := by
  rw [returnToCaller_def]
  split
  · trivial
  · exact .fail nofun

/-- **An instruction takes no other turns.** -/
theorem execute_takes (mnemonic : Mnemonic) :
    (m.execute mnemonic operand).Takes (m.Turns operand mnemonic) := by
  rw [execute_def]
  cases mnemonic with
  | add | subtract | multiply => exact m.arithmetic_takes operand _ (by decide)
  | divide => exact m.division_takes operand
  | jump | jumpNegative | jumpZero => exact m.jumpIf_takes operand _ (by decide)
  | input => exact m.readNumber_takes operand
  | output => exact ⟨.value, trivial⟩
  | outputChar => exact ⟨.char, trivial⟩
  | declare => exact ⟨.load, fun program => ⟨.declared, trivial⟩⟩
  | run => exact m.callSubroutine_takes operand
  | ret => exact m.returnToCaller_takes operand
  | load | store | xor | or | and | andNot | halt => trivial

/-! ### Lines -/

/-- `m.LineTurns words turn`: the line with these words may take the turn once it was recorded.
Either it fails, because it cannot be read or lacks an operand, or it is a turn of its
instruction. -/
inductive LineTurns (m : Machine) (words : List String) : Turn → Prop
  | fail {cause : Cause} (h : cause ≠ .inputClosed) : LineTurns m words (.fail cause)
  | obey {i : Instruction} {operand : String} {turn : Turn}
      (hd : Line.decode words = .ok (.instruction i)) (ho : OperandText i operand)
      (ht : m.Turns operand i.mnemonic turn) : LineTurns m words turn

/-- **A line takes no other turns**, once it was recorded. -/
theorem obeyWords_takes (words : List String) :
    (m.obeyWords words).Takes (m.LineTurns words) := by
  rw [obeyWords_def]
  split
  · exact .fail nofun
  · trivial
  · trivial
  · next i hd =>
      rw [obey_def]
      split
      · next operand ho =>
          exact (m.execute_takes operand i.mnemonic).mono fun _ => .obey hd (Or.inl ho)
      · next ho =>
          split
          · exact .fail nofun
          · next ht =>
              exact (m.execute_takes "" i.mnemonic).mono fun _ =>
                .obey hd (Or.inr ⟨ho, Bool.eq_false_iff.2 ht, rfl⟩)

end Machine

end AccMachine
