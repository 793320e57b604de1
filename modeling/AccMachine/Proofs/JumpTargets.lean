/-
**Where a jump leads.**

Lines are classified twice.  When a program is made, only the first word of a line is looked at: if
it is no mnemonic, it is a label.  When a line is executed, all its words are read, and the reading
says whether the line has a label, or fails.  The two agree on every line, so the label table knows
exactly the labels of the lines as they are read, and those at the front of lines that cannot be
read.  Of several lines with one label the table knows the last, and a jump that is taken goes on
there.

Main definitions:

* `Line.BeginsWith` — the first word of a line is that label;
* `Line.Carries` — the line is read as one with that label, or it cannot be read;
* `Program.LastLine` — the last line of a program with a property;
* `Mnemonic.takes` — the condition of a jump;
* `Chain.TakesJump` — the active machine comes to a jump that is taken.

Main results:

* `Line.beginsWith_iff_carries` — **both ways to look at a line find the same label**;
* `Program.find?_resolve_eq_some_iff` — the table has the last line that carries a label;
* `Chain.step_of_takesJump` — a jump that is taken goes on at the line in the table;
* `Chain.label_table_agrees` — **the label table agrees with the lines as they are read**, and so
  does every jump.
-/

import AccMachine.Proofs.Halting
import AccMachine.Proofs.LineGrammar
import AccMachine.Proofs.Parallel
import Mathlib.Order.Bounds.Defs

set_option relaxedAutoImplicit false
set_option autoImplicit false

namespace AccMachine

/-! ### The label of a line -/

namespace Line

/-- The first word of the line is the label, and it is no mnemonic. -/
def BeginsWith (label text : String) : Prop :=
  (∃ rest, Text.wordsOf text = label :: rest) ∧ Mnemonic.IsOther label

/-- The line is read as one with that label, or it cannot be read and begins with it. -/
inductive Carries (label text : String) : Prop
  | anchor (h : decode (Text.wordsOf text) = .ok (.anchor label))
  | labelled {mnemonic : Mnemonic} {operand? : Option String}
      (h : decode (Text.wordsOf text) = .ok (.instruction ⟨some label, mnemonic, operand?⟩))
  | unreadable {flaw : Flaw} (h : decode (Text.wordsOf text) = .error flaw)
      (hb : BeginsWith label text)

variable {label text : String}

/-- The label of a line of text is found by its first word. -/
theorem labelOf?_eq_some_iff : labelOf? text = some label ↔ BeginsWith label text := by
  rw [labelOf?, BeginsWith, Mnemonic.IsOther, ← Mnemonic.ofText?_eq_none_iff]
  cases hw : Text.wordsOf text with
  | nil => simp [leadingLabel?]
  | cons first rest =>
      cases hm : Mnemonic.ofText? first with
      | some m =>
          have hne : first = label → Mnemonic.ofText? label ≠ none := by
            rintro rfl
            rw [hm]
            exact Option.some_ne_none m
          simpa [leadingLabel?, Mnemonic.isMnemonic, hm] using hne
      | none =>
          simp only [leadingLabel?, Mnemonic.isMnemonic, hm, Option.isSome_none, Bool.false_eq_true,
            if_false, Option.some.injEq, List.cons.injEq]
          constructor
          · rintro rfl
            exact ⟨⟨rest, rfl, rfl⟩, hm⟩
          · exact fun h => h.1.choose_spec.1

/-- A line that was read has a label exactly if it carries it. -/
theorem label?_eq_some_iff_carries {line : Line} (h : decode (Text.wordsOf text) = .ok line) :
    line.label? = some label ↔ Carries label text := by
  constructor
  · intro hlabel
    cases line with
    | blank => cases hlabel
    | anchor label' =>
        cases hlabel
        exact .anchor h
    | instruction i =>
        obtain ⟨label?, mnemonic, operand?⟩ := i
        obtain rfl : label? = some label := hlabel
        exact .labelled h
  · intro hcarries
    cases hcarries with
    | anchor h' | labelled h' =>
        rw [h] at h'
        cases h'
        rfl
    | unreadable h' _ =>
        rw [h] at h'
        cases h'

/-- **Both ways to look at a line find the same label**: the first word alone, and all words. -/
theorem beginsWith_iff_carries : BeginsWith label text ↔ Carries label text := by
  cases hd : decode (Text.wordsOf text) with
  | ok line =>
      rw [← labelOf?_eq_some_iff, labelOf?_of_decode hd]
      exact label?_eq_some_iff_carries hd
  | error flaw =>
      refine ⟨.unreadable hd, fun h => ?_⟩
      cases h with
      | anchor h | labelled h =>
          rw [hd] at h
          cases h
      | unreadable _ hb => exact hb

end Line

/-! ### The label table -/

namespace Program

/-- The line at the index is the last of the lines with the property. -/
def LastLine (P : String → Prop) (lines : List String) (i : Nat) : Prop :=
  IsGreatest {j | ∃ text, lines[j]? = some text ∧ P text} i

theorem LastLine.congr {P Q : String → Prop} (h : ∀ text, P text ↔ Q text) (lines : List String)
    (i : Nat) : LastLine P lines i ↔ LastLine Q lines i := by
  simp only [LastLine, h]

/-- The table has the last line that carries a label. -/
theorem find?_resolve_eq_some_iff {lines : List String} {label : String} {i : Nat} :
    (resolve lines).find? label = some i ↔ LastLine (Line.BeginsWith label) lines i := by
  -- The table is that of a program with these lines, under any reference.
  have htable : (resolve lines).find? label = (ofLines "" lines).label? label := rfl
  simp only [htable, label?_eq_some_iff, ne_eq, Line.labelOf?_eq_some_iff]
  refine and_congr Iff.rfl ⟨?_, ?_⟩
  · rintro hlater j ⟨text, htext, hbegins⟩
    exact Nat.le_of_not_lt fun hlt => hlater j text hlt htext hbegins
  · intro hbound j text hlt htext hbegins
    exact absurd (hbound ⟨text, htext, hbegins⟩) (Nat.not_le.2 hlt)

end Program

/-! ### Looking up a label -/

/-- Whether the instruction, if it is a jump, is taken with that accumulator. -/
def Mnemonic.takes (accumulator : Int64) : Mnemonic → Bool
  | jumpNegative => accumulator < 0
  | jumpZero => accumulator = 0
  | _ => true

namespace Machine

variable {m : Machine} {label : String}

theorem execute_of_jumps (m : Machine) {mnemonic : Mnemonic} (h : mnemonic.jumps = true)
    (operand : String) :
    m.execute mnemonic operand = m.jumpIf (mnemonic.takes m.accumulator) operand := by
  rw [execute_def]
  cases mnemonic with
  | jump | jumpNegative | jumpZero => rfl
  | _ => cases h

theorem jumpIf_of_some {target : Nat} (h : m.program.label? label = some target) (taken : Bool) :
    m.jumpIf taken label = .done (m, if taken then .jump target else .next) := by
  rw [jumpIf_def, findLabel, h]
  cases taken <;> rfl

theorem jumpIf_of_none (h : m.program.label? label = none) (taken : Bool) :
    m.jumpIf taken label = .emit (missingLabel label)
      (if taken then .fail (.undefinedLabel label) else .done (m, .next)) := by
  rw [jumpIf_def, findLabel, h]
  cases taken <;> rfl

end Machine

/-! ### Jumps -/

namespace Chain

variable {κ : Type} [Console κ]

/-- `c.TakesJump s label`: the current line of the active machine is a jump to the label, its
condition holds, and the line is recorded in the trace. -/
def TakesJump (c : Chain) (s : Session κ) (label : String) : Prop :=
  ∃ text i, c.active.currentLine? = some text ∧
    Line.decode (Text.wordsOf text) = .ok (.instruction i) ∧ i.operand = some label ∧
    i.mnemonic.jumps = true ∧ i.mnemonic.takes c.active.accumulator = true ∧
    (s.trace (Text.wordsOf text) c.active.accumulator).1 = .ok ()

/-- **A jump that is taken goes on at the line in the table.** -/
theorem step_of_takesJump {c : Chain} {s : Session κ} {label : String} {target : Nat}
    (h : c.TakesJump s label) (ht : c.active.program.label? label = some target) :
    ∃ s', c.step s = (.running ⟨c.active.goto target, c.callers⟩, s') := by
  obtain ⟨text, i, hline, hd, hoperand, hjumps, htakes, htrace⟩ := h
  rcases hs : s.trace (Text.wordsOf text) c.active.accumulator with ⟨answer, s'⟩
  rw [hs] at htrace
  cases htrace
  have hobey : c.active.obeyWords (Text.wordsOf text) = .done (c.active, .jump target) := by
    simp only [Machine.obeyWords_def, hd, obey_of_operandText (Or.inl hoperand),
      Machine.execute_of_jumps _ hjumps, Machine.jumpIf_of_some ht, htakes, if_true]
  have hp : s.perform (c.active.line text) = (.ok (c.active, .jump target), s') := by
    simp only [Machine.line_def, Session.perform, hs, hobey]
  exact ⟨s', step_of_line hline hp⟩

/-- **The label table agrees with the lines as they are read.**  It gives a label the index of the
last line whose first word is the label, a word that is no mnemonic; this is also the last line that
is read as an anchor or an instruction with that label, or cannot be read and begins with it.  So a
jump that is taken to a label in the table goes on inside the program, and the next line that is
executed carries the label, while no later line does. -/
theorem label_table_agrees (label : String) :
    (∀ lines i, (Program.resolve lines).find? label = some i ↔
      Program.LastLine (Line.BeginsWith label) lines i) ∧
    (∀ lines i, (Program.resolve lines).find? label = some i ↔
      Program.LastLine (Line.Carries label) lines i) ∧
    ∀ (c : Chain) (s : Session κ) (target : Nat), c.TakesJump s label →
      c.active.program.label? label = some target →
        target < c.active.program.size ∧
        ∃ c' s' text, c.step s = (.running c', s') ∧ c' = ⟨c.active.goto target, c.callers⟩ ∧
          c'.active.currentLine? = some text ∧ Line.Carries label text ∧
          ∀ j later, target < j → c.active.program.line? j = some later →
            ¬ Line.Carries label later := by
  have hcarries : ∀ lines i, (Program.resolve lines).find? label = some i ↔
      Program.LastLine (Line.Carries label) lines i := by
    intro lines i
    rw [Program.find?_resolve_eq_some_iff]
    exact Program.LastLine.congr (fun text => Line.beginsWith_iff_carries) lines i
  refine ⟨fun lines i => Program.find?_resolve_eq_some_iff, hcarries, ?_⟩
  intro c s target hjump ht
  obtain ⟨s', hstep⟩ := step_of_takesJump hjump ht
  have hresolve : (Program.resolve c.active.program.lines).find? label = some target := by
    rw [← c.active.program.labels_eq]
    exact ht
  obtain ⟨⟨text, htext, hcarried⟩, hlast⟩ := (hcarries _ target).1 hresolve
  refine ⟨Program.label?_lt ht, _, s', text, hstep, rfl, htext, hcarried, ?_⟩
  intro j later hlt hlater hcarried
  exact absurd (hlast ⟨later, hlater, hcarried⟩) (Nat.not_le.2 hlt)

/-- The lines of a loop.  The last one with its label has an operand too many. -/
def misreadLoop : List String := ["loop OUT", "", "loop LOAD 1 2", "JINEG loop"]

/-- A jump back to the label goes to the line that cannot be read. -/
theorem label_table_agrees_misreadLoop :
    ∃ (m : Machine) (s' : Session Buffer), m.program.lines = misreadLoop ∧
      step ⟨m, []⟩ (.inMemory [] []) = (.running ⟨m.goto 2, []⟩, s') ∧
      (∃ flaw, Line.decode (Text.wordsOf "loop LOAD 1 2") = .error flaw) ∧
      Line.Carries "loop" "loop LOAD 1 2" := by
  let m : Machine :=
    ((Machine.ofProgram (.ofLines "main" misreadLoop)).accumulate (-1)).goto 3
  have hjump : TakesJump ⟨m, []⟩ (Session.inMemory [] []) "loop" :=
    ⟨"JINEG loop", ⟨none, .jumpNegative, some "loop"⟩, rfl, rfl, rfl, rfl, by decide,
      rfl⟩
  have ht : m.program.label? "loop" = some 2 := by decide +kernel
  obtain ⟨-, -, hjumps⟩ := label_table_agrees (κ := Buffer) "loop"
  obtain ⟨-, _, s', text, hstep, rfl, htext, hcarries, -⟩ := hjumps ⟨m, []⟩ _ 2 hjump ht
  obtain rfl : "loop LOAD 1 2" = text := Option.some.inj htext
  refine ⟨m, s', rfl, hstep, ⟨.tooManyWords "loop LOAD 1 2", rfl⟩, hcarries⟩

end Chain

end AccMachine
