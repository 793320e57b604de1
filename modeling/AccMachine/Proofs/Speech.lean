/-
**What a line says.**

A line is recorded in the trace once, before anything else.  After that its instruction says little:
a value if it is the instruction to show one, a character if it is the instruction for that, and
otherwise nothing but warnings.  No instruction says anything that looks like a trace entry.

Main definitions:

* `Output.entry?`, `Output.IsWarning` — the trace entry that an output shows, and warnings;
* `Dialogue.Speaks` — a dialogue records nothing, and everything that it says has a property.

Main results:

* `Machine.execute_warns` — an instruction that is not there to show something only warns;
* `Machine.obeyWords_speaks` — **no instruction records a line or shows a trace entry**.
-/

import AccMachine.Proofs.Turns

set_option relaxedAutoImplicit false
set_option autoImplicit false

namespace AccMachine

/-- The trace entry that an output shows, if it shows one. -/
def Output.entry? : Output → Option String
  | trace entry => some entry
  | _ => none

/-- The output is a warning. -/
def Output.IsWarning : Output → Prop
  | warning _ => True
  | _ => False

namespace Dialogue

variable {α : Type}

/-- `d.Speaks P`: whatever the answers are, the dialogue records no line, and every output of it
has `P`. -/
def Speaks (P : Output → Prop) : Dialogue α → Prop
  | done _ => True
  | fail _ => True
  | trace _ _ _ => False
  | emit output next => P output ∧ next.Speaks P
  | read next => ∀ line, (next line).Speaks P
  | load _ next => ∀ program, (next program).Speaks P
  | note _ next => next.Speaks P

/-- What a dialogue says can be read off from its turns. -/
theorem Takes.speaks {T : Turn → Prop} {P : Output → Prop} {d : Dialogue α} (h : d.Takes T)
    (htrace : ∀ words accumulator, ¬ T (.trace words accumulator))
    (hemit : ∀ o, T (.emit o) → P o) : d.Speaks P := by
  induction d with
  | done a => trivial
  | fail cause => trivial
  | trace words accumulator next ih => exact absurd h.1 (htrace words accumulator)
  | emit output next ih => exact ⟨hemit output h.1, ih h.2⟩
  | read next ih => exact fun line => ih line (h.2 line)
  | load reference next ih => exact fun program => ih program (h.2 program)
  | note event next ih => exact ih h.2

end Dialogue

namespace Machine

variable {m : Machine} {operand : String} {mnemonic : Mnemonic} {words recorded : List String}
  {accumulator : Int64}

/-- No instruction records a line. -/
theorem Turns.not_trace : ¬ m.Turns operand mnemonic (.trace recorded accumulator) := nofun

theorem LineTurns.not_trace : ¬ m.LineTurns words (.trace recorded accumulator) := by
  intro h
  cases h with
  | obey hd ho ht => exact ht.not_trace

/-- No instruction shows a trace entry. -/
theorem Turns.entry? {o : Output} (h : m.Turns operand mnemonic (.emit o)) : o.entry? = none := by
  cases h <;> rfl

/-- **An instruction that is not there to show something only warns.** -/
theorem execute_warns (m : Machine) (operand : String) {mnemonic : Mnemonic}
    (hvalue : mnemonic ≠ .output) (hchar : mnemonic ≠ .outputChar) :
    (m.execute mnemonic operand).Speaks Output.IsWarning := by
  refine (m.execute_takes operand mnemonic).speaks (fun _ _ => Turns.not_trace) fun o hturn => ?_
  cases hturn with
  | missingSlot => trivial
  | missingLabel => trivial
  | value => exact absurd rfl hvalue
  | char => exact absurd rfl hchar

/-- **After it was recorded, a line records nothing and shows no trace entry.** -/
theorem obeyWords_speaks (m : Machine) (words : List String) :
    (m.obeyWords words).Speaks fun o => o.entry? = none := by
  refine (m.obeyWords_takes words).speaks (fun _ _ => LineTurns.not_trace) fun o hturn => ?_
  cases hturn with
  | obey hd ho ht => exact ht.entry?

end Machine

end AccMachine
