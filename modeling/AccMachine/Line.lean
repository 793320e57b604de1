/-
**Lines of a program.**

A line is read word by word.  It is blank, or a single word that anchors a label, or an
instruction with an optional label before the mnemonic and an optional operand behind it.  A word
in first place is a label exactly when it is not a mnemonic; so mnemonics cannot be labels, while
operands may be spelled like mnemonics.

Main definitions:

* `Instruction`, `Line` — what a line says;
* `Line.Flaw` — why words do not form a line, with its wording;
* `Line.decode` — reads the words of a line;
* `Line.tokens` — the words of a line, the other way round;
* `Line.labelOf?` — the label that a line of text carries, whether or not the line can be read.

Main results:

* `Line.tokens_of_decode` — the words of a line that was read are the words it was read from;
* `Line.decode_tokens` — a line whose label is no mnemonic is read back from its words;
* `Line.labelOf?_of_decode` — the label that a line of text carries is the one that is read there.
-/

import AccMachine.Mnemonic
import AccMachine.Text.Blank

set_option relaxedAutoImplicit false
set_option autoImplicit false

namespace AccMachine

/-- An instruction as it stands on a line. -/
structure Instruction where
  label : Option String
  mnemonic : Mnemonic
  operand : Option String
  deriving DecidableEq, Repr

/-- What a line says. -/
inductive Line where
  | blank
  /-- A line that only carries a label. -/
  | anchor (label : String)
  | instruction (instruction : Instruction)
  deriving DecidableEq, Repr

namespace Line

/-- Why words do not form a line. -/
inductive Flaw where
  /-- Neither the first nor the second word is a mnemonic. -/
  | unknownInstruction (label word : String)
  /-- More than one word follows the mnemonic; the words are kept, joined by spaces. -/
  | tooManyWords (line : String)
  deriving DecidableEq, Repr

/-- The wording of a flaw. -/
def Flaw.message : Flaw → String
  | .unknownInstruction label word =>
    "Unknown instruction " ++ word ++ " after label " ++ label
  | .tooManyWords line =>
    "Too many tokens, an instruction takes at most one operand: " ++ line

/-! ### Reading -/

/-- The instruction with at most one operand word behind its mnemonic; `words` are all words of
the line. -/
def withOperand (words : List String) (label : Option String) (mnemonic : Mnemonic) :
    List String → Except Flaw Line
  | [] => .ok (.instruction ⟨label, mnemonic, none⟩)
  | [operand] => .ok (.instruction ⟨label, mnemonic, some operand⟩)
  | _ => .error (.tooManyWords (" ".intercalate words))

/-- Reads the words of a line. -/
def decode (words : List String) : Except Flaw Line :=
  match words with
  | [] => .ok .blank
  | first :: rest =>
    match Mnemonic.ofText? first with
    | some mnemonic => withOperand words none mnemonic rest
    | none =>
      match rest with
      | [] => .ok (.anchor first)
      | second :: operands =>
        match Mnemonic.ofText? second with
        | some mnemonic => withOperand words (some first) mnemonic operands
        | none => .error (.unknownInstruction first second)

/-- The label that the words of a line begin with, if any. -/
def leadingLabel? : List String → Option String
  | [] => none
  | first :: _ => if Mnemonic.isMnemonic first then none else some first

/-- The label that a line of text carries. -/
def labelOf? (text : String) : Option String := leadingLabel? (Text.wordsOf text)

end Line

/-! ### Writing -/

/-- The words of an instruction. -/
def Instruction.tokens (i : Instruction) : List String :=
  i.label.toList ++ i.mnemonic.text :: i.operand.toList

namespace Line

/-- The words of a line. -/
def tokens : Line → List String
  | blank => []
  | anchor label => [label]
  | instruction i => i.tokens

/-- The label of a line, if it has one. -/
def label? : Line → Option String
  | blank => none
  | anchor label => some label
  | instruction i => i.label

/-- The label of the line, if it has one, is no mnemonic. -/
def WellLabelled (line : Line) : Prop :=
  ∀ label, line.label? = some label → Mnemonic.ofText? label = none

theorem withOperand_eq_ok_iff {words rest : List String} {label : Option String} {m : Mnemonic}
    {line : Line} :
    withOperand words label m rest = .ok line ↔
      ∃ operand : Option String,
        rest = operand.toList ∧ line = instruction ⟨label, m, operand⟩ := by
  unfold withOperand
  split
  · constructor
    · rintro h
      exact ⟨none, rfl, (Except.ok.inj h).symm⟩
    · rintro ⟨operand, ho, rfl⟩
      cases operand <;> simp_all
  · next o =>
    constructor
    · rintro h
      exact ⟨some o, rfl, (Except.ok.inj h).symm⟩
    · rintro ⟨operand, ho, rfl⟩
      cases operand <;> simp_all
  · next h₀ h₁ =>
    simp only [reduceCtorEq, false_iff, not_exists, not_and]
    intro operand ho
    cases operand with
    | none => exact absurd ho h₀
    | some o => exact absurd ho (h₁ o)

/-- The words of a line that was read are the words it was read from. -/
theorem tokens_of_decode {words : List String} {line : Line} (h : decode words = .ok line) :
    line.tokens = words := by
  unfold decode at h
  split at h
  · obtain rfl := Except.ok.inj h
    rfl
  · split at h
    · next first rest m hm =>
      obtain ⟨operand, rfl, rfl⟩ := withOperand_eq_ok_iff.1 h
      simp [tokens, Instruction.tokens, Mnemonic.ofText?_eq_some_iff.1 hm]
    · split at h
      · obtain rfl := Except.ok.inj h
        rfl
      · split at h
        · next second operands m hm =>
          obtain ⟨operand, rfl, rfl⟩ := withOperand_eq_ok_iff.1 h
          simp [tokens, Instruction.tokens, Mnemonic.ofText?_eq_some_iff.1 hm]
        · cases h

/-- A line whose label is no mnemonic is read back from its words. -/
theorem decode_tokens {line : Line} (h : line.WellLabelled) : decode line.tokens = .ok line := by
  cases line with
  | blank => rfl
  | anchor label =>
    have hl : Mnemonic.ofText? label = none := h label rfl
    simp [tokens, decode, hl]
  | instruction i =>
    obtain ⟨label, m, operand⟩ := i
    cases label with
    | none => cases operand <;> simp [tokens, Instruction.tokens, decode, withOperand,
        Mnemonic.ofText?_text]
    | some label =>
      have hl : Mnemonic.ofText? label = none := h label rfl
      cases operand <;> simp [tokens, Instruction.tokens, decode, withOperand, hl,
        Mnemonic.ofText?_text]

/-- The label of a line that was read is no mnemonic. -/
theorem wellLabelled_of_decode {words : List String} {line : Line} (h : decode words = .ok line) :
    line.WellLabelled := by
  intro label hlabel
  unfold decode at h
  split at h
  · cases h
    cases hlabel
  · split at h
    · next first rest m hm =>
      obtain ⟨operand, -, rfl⟩ := withOperand_eq_ok_iff.1 h
      cases hlabel
    · next first rest hfirst =>
      split at h
      · cases h
        cases hlabel
        exact hfirst
      · split at h
        · next second operands m hm =>
          obtain ⟨operand, -, rfl⟩ := withOperand_eq_ok_iff.1 h
          cases hlabel
          exact hfirst
        · cases h

/-- The label that a line of text carries is the label of the line that was read. -/
theorem labelOf?_of_decode {text : String} {line : Line}
    (h : decode (Text.wordsOf text) = .ok line) : labelOf? text = line.label? := by
  have hwell : line.WellLabelled := wellLabelled_of_decode h
  rw [labelOf?, ← tokens_of_decode h]
  cases line with
  | blank => rfl
  | anchor label =>
      have hlabel : Mnemonic.ofText? label = none := hwell label rfl
      simp [tokens, leadingLabel?, Mnemonic.isMnemonic, hlabel, label?]
  | instruction i =>
      obtain ⟨label, mnemonic, operand⟩ := i
      cases label with
      | none => simp [tokens, Instruction.tokens, leadingLabel?, Mnemonic.isMnemonic,
          Mnemonic.ofText?_text, label?]
      | some label =>
          have hlabel : Mnemonic.ofText? label = none := hwell label rfl
          simp [tokens, Instruction.tokens, leadingLabel?, Mnemonic.isMnemonic, hlabel, label?]

end Line

end AccMachine
