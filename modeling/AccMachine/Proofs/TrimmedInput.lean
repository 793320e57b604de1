/-
**Blank characters around the input.**

A machine that reads a line of input trims it before it does anything else with it: the number is
read from the trimmed text, and so is the text that a failure shows.  So it makes no difference
whether the lines of input still have their line ends, or any other blank characters around them;
a run takes the same course, line by line.

Main definitions:

* `Session.Retrimmed` — two sessions in memory whose lines of input differ in blank characters only.

Main results:

* `Machine.perform_line_retrimmed` — **a line does the same in such sessions**;
* `Machine.run_retrimmed` — a run comes to the same end in them.
-/

import AccMachine.Proofs.Agreement
import AccMachine.Proofs.Input
import AccMachine.Proofs.UnreadSlot

set_option relaxedAutoImplicit false
set_option autoImplicit false

namespace AccMachine

/-! ### Lines that differ in blank characters -/

/-- The second session has other lines of input to come, which are the same ones when all of them
are trimmed. -/
def Session.Retrimmed (s t : Session Buffer) : Prop :=
  ∃ lines, t = s.withInput lines ∧
    lines.map Text.trimmed = s.console.input.map Text.trimmed

namespace Session

theorem Retrimmed.noteAll {s t : Session Buffer} (h : s.Retrimmed t) (events : List LogEvent) :
    (s.noteAll events).Retrimmed (t.noteAll events) := by
  obtain ⟨lines, rfl, hlines⟩ := h
  exact ⟨lines, s.noteAll_withInput lines events, by rw [console_noteAll, hlines]⟩

end Session

namespace Machine

/-- What reading comes to depends only on the trimmed line. -/
theorem parsed_congr (m : Machine) {line? line?' : Option String}
    (h : line?'.map Text.trimmed = line?.map Text.trimmed) : m.parsed line?' = m.parsed line? := by
  cases line? with
  | none =>
      rw [Option.map_eq_none_iff.1 h]
  | some line =>
      obtain ⟨line', rfl, htrimmed⟩ := Option.map_eq_some_iff.1 h
      simp only [parsed, htrimmed]

/-- **A line does the same in sessions whose lines of input differ in blank characters only.** -/
theorem perform_line_retrimmed (m : Machine) (text : String) {s t : Session Buffer}
    (h : s.Retrimmed t) :
    (s.perform (m.line text)).1 = (t.perform (m.line text)).1 ∧
      (s.perform (m.line text)).2.Retrimmed (t.perform (m.line text)).2 := by
  obtain ⟨lines, rfl, hlines⟩ := h
  by_cases hread : Record.isInput ⟨Text.wordsOf text, m.accumulator⟩ = true
  · have hself := m.perform_line_read hread s s.console.input
    rw [Session.withInput_self] at hself
    rw [hself, m.perform_line_read hread s lines]
    refine ⟨m.parsed_congr ?_, lines.tail, rfl, ?_⟩
    · rw [← List.head?_map, ← List.head?_map, hlines]
    · rw [Session.input_withInput, List.map_tail, List.map_tail, hlines]
  · have hunread : (m.line text).Unread := m.obeyWords_unread (Bool.eq_false_iff.2 hread)
    rw [Session.perform_withInput hunread]
    exact ⟨rfl, lines, rfl, by rw [Session.input_perform hunread, hlines]⟩

end Machine

/-! ### Steps and runs -/

namespace Chain

theorem step_retrimmed (c : Chain) {s t : Session Buffer} (h : s.Retrimmed t) :
    (c.step s).1 = (c.step t).1 ∧ (c.step s).2.Retrimmed (c.step t).2 := by
  cases ht : c.active.currentLine? with
  | none =>
      rw [step_of_none ht, step_of_none ht]
      exact ⟨rfl, h.noteAll _⟩
  | some text =>
      obtain ⟨hresult, hkept⟩ := c.active.perform_line_retrimmed text h
      rcases hs : s.perform (c.active.line text) with ⟨result, s'⟩
      rcases ht' : t.perform (c.active.line text) with ⟨result', t'⟩
      rw [hs, ht'] at hresult hkept
      obtain rfl : result = result' := hresult
      rw [step_of_line ht hs, step_of_line ht ht']
      exact ⟨rfl, hkept.noteAll _⟩

end Chain

namespace Machine

/-- **Blank characters around the lines of input make no difference.**  If a run ends on a console
in memory, then with other lines of input, which are the same when all of them are trimmed, it ends
in the same way; the session that it leaves is the same but for the input, and the lines that are
left there are the same when all of them are trimmed. -/
theorem run_retrimmed {m m' : Machine} {fuel : Nat} {s s' t : Session Buffer} {ending : Ending}
    (h : s.Retrimmed t) (hrun : m.run fuel s = some (ending, m', s')) :
    ∃ t', m.run fuel t = some (ending, m', t') ∧ s'.Retrimmed t' := by
  obtain ⟨e, s₁, hrunFor, hclose⟩ := run_iff_runFor.1 hrun
  rcases Chain.runFor_in_step Chain.step_retrimmed fuel (Chain.start m) h with
    ⟨hnone, -⟩ | ⟨e', m₁, s₂, t₁, hs, ht, hkept⟩
  · rw [hnone] at hrunFor
    cases hrunFor
  · rw [hrunFor] at hs
    cases hs
    obtain ⟨lines, rfl, hlines⟩ := hkept
    have hclose' := close_withInput m' s₁ lines e
    rw [hclose] at hclose'
    refine ⟨s'.withInput lines, run_iff_runFor.2 ⟨e, _, ht, hclose'⟩, lines, rfl, ?_⟩
    rw [(close_keeps hclose).1, hlines]

end Machine

end AccMachine
