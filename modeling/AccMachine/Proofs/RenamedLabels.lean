/-
**Programs with renamed labels.**

The labels of a program may be renamed, where they name lines and where a jump has them for an
operand.  A renaming that is injective and leaves the mnemonics alone gives lines that can be read
again, and each label leads to the line that it led to under its old name.  Operands of other
instructions name slots and subroutines, so they stay as they are.

Main definitions:

* `Relabelling` — a renaming of words that can be used for labels;
* `Line.relabel` — a line with its labels renamed;
* `Line.Relabelled`, `Program.Relabelled` — lines of text and programs with their labels renamed;
* `Line.JumpsTo` — the label that a line looks up.

Main results:

* `Line.Relabelled.decode` — a renamed line is read as what it should say;
* `Program.Relabelled.label?` — **a renamed label leads to the line that it led to**;
* `Line.Relabelled.doing_of_not_jumpsTo`, `Line.Relabelled.doing_of_jumpsTo` — a renamed line does
  what it did before, except that it looks up the new label if it looked up one.
-/

import AccMachine.Proofs.LoosenedProgram
import AccMachine.Proofs.SourceText
import Mathlib.Data.List.Forall2
import Mathlib.Logic.Equiv.Basic

set_option relaxedAutoImplicit false
set_option autoImplicit false

namespace AccMachine

/-! ### Renaming labels -/

/-- A renaming that can be used for labels: it is injective on words, leaves the mnemonics alone,
and gives a word that is no mnemonic for each word that is none. -/
structure Relabelling (r : String → String) : Prop where
  injective : ∀ {w w'}, Text.IsWord w → Text.IsWord w' → r w = r w' → w = w'
  mnemonic : ∀ m : Mnemonic, r m.text = m.text
  isWord : ∀ {w}, Text.IsWord w → Mnemonic.ofText? w = none → Text.IsWord (r w)
  ofText? : ∀ {w}, Text.IsWord w → Mnemonic.ofText? w = none → Mnemonic.ofText? (r w) = none

/-- Two words that are no mnemonics may be exchanged. -/
theorem relabelling_swap {a b : String} (ha : Text.IsWord a ∧ Mnemonic.ofText? a = none)
    (hb : Text.IsWord b ∧ Mnemonic.ofText? b = none) : Relabelling (Equiv.swap a b) := by
  have hword : ∀ {w}, Text.IsWord w ∧ Mnemonic.ofText? w = none →
      Text.IsWord (Equiv.swap a b w) ∧ Mnemonic.ofText? (Equiv.swap a b w) = none := by
    intro w hw
    rw [Equiv.swap_apply_def]
    split
    · exact hb
    · split
      · exact ha
      · exact hw
  refine ⟨fun _ _ h => (Equiv.swap a b).injective h, fun m => ?_,
    fun hw hno => (hword ⟨hw, hno⟩).1, fun hw hno => (hword ⟨hw, hno⟩).2⟩
  exact Equiv.swap_apply_of_ne_of_ne (Mnemonic.ofText?_eq_none_iff.1 ha.2 m)
    (Mnemonic.ofText?_eq_none_iff.1 hb.2 m)

/-- The instruction with its label renamed, and its operand too if that is a label. -/
def Instruction.relabel (r : String → String) (i : Instruction) : Instruction where
  label := i.label.map r
  mnemonic := i.mnemonic
  operand := if i.mnemonic.jumps then i.operand.map r else i.operand

namespace Line

/-- The line with its labels renamed. -/
def relabel (r : String → String) : Line → Line
  | blank => blank
  | anchor label => anchor (r label)
  | instruction i => instruction (i.relabel r)

theorem label?_relabel (r : String → String) (line : Line) :
    (line.relabel r).label? = line.label?.map r := by
  cases line <;> rfl

/-- The second line of text has the words of the first one, with the labels renamed. -/
def Relabelled (r : String → String) (text text' : String) : Prop :=
  ∃ line, decode (Text.wordsOf text) = .ok line ∧ Text.wordsOf text' = (line.relabel r).tokens

instance (r : String → String) (text text' : String) : Decidable (Relabelled r text text') :=
  match h : decode (Text.wordsOf text) with
  | .ok line =>
    decidable_of_iff (Text.wordsOf text' = (line.relabel r).tokens)
      ⟨fun hwords => ⟨line, h, hwords⟩, by
        rintro ⟨line', hd, hwords⟩
        rw [h] at hd
        cases hd
        exact hwords⟩
  | .error flaw => isFalse fun ⟨line, hd, _⟩ => nomatch h.symm.trans hd

/-- The line has an instruction that looks up the label, whether or not it then jumps there. -/
def JumpsTo (text label : String) : Prop :=
  ∃ mnemonic : Mnemonic, mnemonic.jumps = true ∧ doing? text = .ok (some (mnemonic, some label))

end Line

/-- The second program has the lines of the first one, with the labels renamed. -/
structure Program.Relabelled (r : String → String) (p p' : Program) : Prop where
  reference : p'.reference = p.reference
  lines : List.Forall₂ (Line.Relabelled r) p.lines p'.lines

/-! ### Lines -/

namespace Line

variable {r : String → String} {text text' : String}

/-- The label and the operand of a line are words. -/
theorem isWord_of_decode {line : Line} (h : decode (Text.wordsOf text) = .ok line) :
    (∀ label, line.label? = some label → Text.IsWord label) ∧
      ∀ i operand, line = instruction i → i.operand = some operand → Text.IsWord operand := by
  have hwords : ∀ w ∈ line.tokens, Text.IsWord w := by
    rw [tokens_of_decode h]
    exact fun w => Text.isWord_of_mem_wordsOf
  constructor
  · intro label hlabel
    refine hwords label ?_
    cases line with
    | blank => cases hlabel
    | anchor label' =>
        cases hlabel
        exact List.mem_singleton_self label
    | instruction i => exact List.mem_append_left _ (Option.mem_toList.2 hlabel)
  · rintro i operand rfl hoperand
    refine hwords operand (List.mem_append_right _ (List.mem_cons_of_mem _ ?_))
    exact Option.mem_toList.2 hoperand

/-- **A renamed line is read as what it should say.** -/
theorem Relabelled.decode (hr : Relabelling r) (h : Relabelled r text text') :
    ∃ line, Line.decode (Text.wordsOf text) = .ok line ∧
      Line.decode (Text.wordsOf text') = .ok (line.relabel r) := by
  obtain ⟨line, hd, hwords⟩ := h
  refine ⟨line, hd, ?_⟩
  have hwell : (line.relabel r).WellLabelled := by
    intro label' hlabel'
    rw [label?_relabel, Option.map_eq_some_iff] at hlabel'
    obtain ⟨label, hlabel, rfl⟩ := hlabel'
    exact hr.ofText? ((isWord_of_decode hd).1 label hlabel) (wellLabelled_of_decode hd label hlabel)
  rw [hwords]
  exact decode_tokens hwell

/-- A renamed line carries the renamed label. -/
theorem Relabelled.labelOf? (hr : Relabelling r) (h : Relabelled r text text') :
    Line.labelOf? text' = (Line.labelOf? text).map r := by
  obtain ⟨line, hd, hd'⟩ := h.decode hr
  rw [labelOf?_of_decode hd, labelOf?_of_decode hd', label?_relabel]

theorem doing?_of_instruction {i : Instruction}
    (h : Line.decode (Text.wordsOf text) = .ok (instruction i)) :
    doing? text = .ok (some (i.mnemonic, i.operand)) := by
  rw [doing?, h]
  rfl

/-- A renamed line that looks up no label does what it did before. -/
theorem Relabelled.doing_of_not_jumpsTo (hr : Relabelling r) (h : Relabelled r text text')
    (hto : ∀ label, ¬ JumpsTo text label) : doing? text' = doing? text := by
  obtain ⟨line, hd, hd'⟩ := h.decode hr
  cases line with
  | blank | anchor label =>
      rw [doing?, doing?, hd, hd']
      rfl
  | instruction i =>
      have hdoing := doing?_of_instruction hd
      have hoperand : (i.relabel r).operand = i.operand := by
        cases hjumps : i.mnemonic.jumps with
        | false => simp only [Instruction.relabel, hjumps, Bool.false_eq_true, if_false]
        | true =>
            cases ho : i.operand with
            | none => simp only [Instruction.relabel, ho, Option.map_none, ite_self]
            | some label =>
                rw [ho] at hdoing
                exact absurd ⟨i.mnemonic, hjumps, hdoing⟩ (hto label)
      rw [hdoing, doing?_of_instruction hd', hoperand]
      rfl

/-- A renamed line that looks up a label looks up the new one with the same instruction. -/
theorem Relabelled.doing_of_jumpsTo (hr : Relabelling r) (h : Relabelled r text text')
    {label : String} (hto : JumpsTo text label) :
    Text.IsWord label ∧ ∃ mnemonic : Mnemonic, mnemonic.jumps = true ∧
      doing? text = .ok (some (mnemonic, some label)) ∧
      doing? text' = .ok (some (mnemonic, some (r label))) := by
  obtain ⟨mnemonic, hjumps, hdoing⟩ := hto
  obtain ⟨line, hd, hd'⟩ := h.decode hr
  cases line with
  | blank | anchor label =>
      rw [doing?, hd] at hdoing
      cases hdoing
  | instruction i =>
      have hsame := hdoing
      rw [doing?_of_instruction hd] at hsame
      injection hsame with hsame
      injection hsame with hsame
      obtain ⟨rfl, hoperand⟩ := Prod.mk.inj hsame
      refine ⟨(isWord_of_decode hd).2 i label rfl hoperand, i.mnemonic, hjumps, hdoing, ?_⟩
      rw [doing?_of_instruction hd']
      simp only [Instruction.relabel, hjumps, if_true, hoperand, Option.map_some]

end Line

/-! ### Programs -/

namespace Program

variable {r : String → String} {p p' : Program}

theorem lastCarrier?_relabelled (hr : Relabelling r) {lines lines' : List String}
    (h : List.Forall₂ (Line.Relabelled r) lines lines') {label : String}
    (hlabel : Text.IsWord label) (i : Nat) :
    lastCarrier? i (r label) lines' = lastCarrier? i label lines := by
  induction h generalizing i with
  | nil => rfl
  | @cons text text' rest rest' htext _ ih =>
      have hcarries : Line.labelOf? text' = some (r label) ↔ Line.labelOf? text = some label := by
        rw [htext.labelOf? hr, Option.map_eq_some_iff]
        constructor
        · rintro ⟨label', hlabel', heq⟩
          obtain ⟨line, hd, -⟩ := htext
          have hword : Text.IsWord label' :=
            (Line.isWord_of_decode hd).1 label' ((Line.labelOf?_of_decode hd).symm.trans hlabel')
          rw [hlabel', hr.injective hword hlabel heq]
        · intro hlabel'
          exact ⟨label, hlabel', rfl⟩
      simp only [lastCarrier?, ih, hcarries]

/-- **A renamed label leads to the line that it led to.** -/
theorem Relabelled.label? (hr : Relabelling r) (h : Relabelled r p p') {label : String}
    (hlabel : Text.IsWord label) : p'.label? (r label) = p.label? label := by
  rw [label?_eq, label?_eq, lastCarrier?_relabelled hr h.lines hlabel]

/-- At every index, both programs have a line, the second one with its labels renamed, or none. -/
theorem Relabelled.line? (h : Relabelled r p p') (i : Nat) :
    (p.line? i = none ∧ p'.line? i = none) ∨
      ∃ text text', p.line? i = some text ∧ p'.line? i = some text' ∧
        Line.Relabelled r text text' := by
  obtain ⟨hlength, hget⟩ := List.forall₂_iff_get.1 h.lines
  rcases Nat.lt_or_ge i p.lines.length with hlt | hge
  · have hlt' : i < p'.lines.length := hlength ▸ hlt
    exact Or.inr ⟨_, _, List.getElem?_eq_getElem hlt, List.getElem?_eq_getElem hlt',
      hget i hlt hlt'⟩
  · exact Or.inl ⟨List.getElem?_eq_none hge, List.getElem?_eq_none (hlength ▸ hge)⟩

end Program

end AccMachine
