/-
**What each instruction says.**

An instruction says one thing at most, and its mnemonic tells which: a value, a character, a warning
about the slot of its operand, or a warning about the label of its operand.  A warning therefore
tells something about the machine: the slot has no entry, the label no line.  So does a warning that
a run is about to give in the middle of a line.

Main definitions:

* `Machine.LineSays` — the outputs that a line of text may show.

Main results:

* `Machine.Turns.says`, `Machine.obeyWords_tells` — **an instruction shows nothing else**;
* `Chain.Asks.lineSays` — what a run asks its console to show is what its line says;
* `Machine.LineSays.missingSlot` — a warning about a slot tells that it has no entry.
-/

import AccMachine.Proofs.Refusal
import AccMachine.Proofs.Requests
import AccMachine.Proofs.Speech

set_option relaxedAutoImplicit false
set_option autoImplicit false

namespace AccMachine

namespace Machine

/-! ### The wording of warnings -/

theorem missingSlot_injective {key key' : String} (h : missingSlot key = missingSlot key') :
    key = key' := by
  simpa [missingSlot] using h

theorem missingLabel_injective {label label' : String}
    (h : missingLabel label = missingLabel label') : label = label' := by
  simpa [missingLabel] using h

/-- The two warnings begin with different words. -/
theorem missingSlot_ne_missingLabel (key label : String) :
    missingSlot key ≠ missingLabel label := by
  intro h
  have htext : "variable <" ++ key ++ "> does not exist" =
      "label <" ++ label ++ "> does not exist" := Output.warning.inj h
  have hfirst := congrArg (fun text => text.toList.head?) htext
  simp at hfirst

/-! ### Instructions -/

/-- **An instruction shows nothing but what its mnemonic tells.** -/
theorem Turns.says {m : Machine} {operand : String} {mnemonic : Mnemonic} {o : Output}
    (h : m.Turns operand mnemonic (.emit o)) : m.Says operand o mnemonic := by
  cases h with
  | missingSlot hm ho hs =>
      simp only [List.mem_cons, List.not_mem_nil, or_false] at hm
      rcases hm with rfl | rfl | rfl | rfl <;> exact ⟨_, ho, hs, rfl⟩
  | missingLabel hm hl =>
      simp only [List.mem_cons, List.not_mem_nil, or_false] at hm
      rcases hm with rfl | rfl | rfl <;> exact ⟨hl, rfl⟩
  | value => rfl
  | char => rfl

/-! ### Lines -/

/-- The line has an instruction that shows the output. -/
def LineSays (m : Machine) (text : String) (o : Output) : Prop :=
  ∃ i operand, Line.decode (Text.wordsOf text) = .ok (.instruction i) ∧ OperandText i operand ∧
    m.Says operand o i.mnemonic

theorem obeyWords_tells (m : Machine) (text : String) :
    (m.obeyWords (Text.wordsOf text)).Speaks (m.LineSays text) := by
  refine (m.obeyWords_takes _).speaks (fun _ _ => LineTurns.not_trace) fun o hturn => ?_
  cases hturn with
  | obey hd ho ht => exact ⟨_, _, hd, ho, ht.says⟩

/-- A warning about a slot tells that it has no entry. -/
theorem LineSays.missingSlot {m : Machine} {text key : String}
    (h : m.LineSays text (missingSlot key)) : m.storage.find? key = none := by
  obtain ⟨i, operand, -, -, htells⟩ := h
  have hwarns : ∀ key', m.storage.find? key' = none →
      Machine.missingSlot key = Machine.missingSlot key' → m.storage.find? key = none := by
    intro key' hnone heq
    rwa [missingSlot_injective heq]
  cases hm : i.mnemonic <;> rw [hm] at htells
  case add | subtract | multiply | divide =>
    obtain ⟨key', -, hnone, heq⟩ := htells
    exact hwarns key' hnone heq
  case jump | jumpNegative | jumpZero => exact absurd htells.2 (missingSlot_ne_missingLabel _ _)
  all_goals cases htells

end Machine

/-! ### In the middle of a line -/

namespace Session

variable {κ : Type} {α : Type} {P : Output → Prop}

/-- What a dialogue asks to show next is something that it says. -/
theorem says_of_request? {s : Session κ} {d : Dialogue α} (hd : d.Speaks P) {o : Output}
    (h : s.request? d = some (.emit o)) : P o := by
  cases d with
  | emit output next =>
      cases h
      exact hd.1
  | trace words accumulator next => cases hd
  | _ => cases h

variable [Console κ]

/-- What is left of a dialogue after a turn says no more than before. -/
theorem turn_speaks {s s' : Session κ} {d rest : Dialogue α} (hd : d.Speaks P)
    (h : s.turn d = some (.ok rest, s')) : rest.Speaks P := by
  cases d with
  | done a => cases h
  | fail cause => cases h
  | trace words accumulator next => cases hd
  | emit output next =>
      simp only [turn] at h
      split at h <;> cases h
      exact hd.2
  | read next =>
      simp only [turn] at h
      split at h <;> cases h
      exact hd _
  | load reference next =>
      simp only [turn] at h
      split at h <;> cases h
      exact hd _
  | note event next =>
      cases h
      exact hd

end Session

namespace Chain

variable {κ : Type} [Console κ] {c c₁ : Chain} {s s₁ : Session κ} {asked : List Request}

/-- In the middle of a line, the dialogue is about to be recorded, or says what the line says. -/
theorem Asks.speaks {rest? : Option (Dialogue (Machine × Flow))}
    (h : Asks c s asked c₁ s₁ rest?) :
    ∀ d, rest? = some d → ∃ text, c₁.active.currentLine? = some text ∧
      (d = c₁.active.line text ∨ d.Speaks (c₁.active.LineSays text)) := by
  induction h with
  | start => exact nofun
  | @fetch asked c₁ s₁ text _ ht _ =>
      rintro d ⟨⟩
      exact ⟨text, ht, Or.inl rfl⟩
  | @turn asked c₁ s₁ s₂ d rest _ ht ih =>
      rintro _ ⟨⟩
      obtain ⟨text, htext, rfl | hspeaks⟩ := ih d rfl
      · refine ⟨text, htext, Or.inr ?_⟩
        simp only [Machine.line_def, Session.turn] at ht
        split at ht <;> cases ht
        exact c₁.active.obeyWords_tells text
      · exact ⟨text, htext, Or.inr (Session.turn_speaks hspeaks ht)⟩
  | settle => exact nofun

/-- What a run asks its console to show is what its line says, or the trace entry of the line. -/
theorem Asks.lineSays {d : Dialogue (Machine × Flow)} (h : Asks c s asked c₁ s₁ (some d))
    {o : Output} (ho : o.entry? = none) (hr : s₁.request? d = some (.emit o)) :
    ∃ text, c₁.active.currentLine? = some text ∧ c₁.active.LineSays text o := by
  obtain ⟨text, htext, rfl | hspeaks⟩ := h.speaks d rfl
  · simp only [Machine.line_def, Session.request?] at hr
    split at hr
    · cases hr
      cases ho
    · cases hr
  · exact ⟨text, htext, Session.says_of_request? hspeaks hr⟩

end Chain

end AccMachine
