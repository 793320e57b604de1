/-
**The grammar of lines.**

A line holds nothing, or a label, or a mnemonic with an optional label in front of it and an
optional operand behind it.  Whether the first word is a label is decided by the mnemonics alone, so
an operand may be any word, also one that is spelled like a mnemonic.  Reading accepts exactly these
lines, undoes writing, and is undone by it.  Of other lines it tells apart those with no mnemonic
where one can stand from those with too many words behind it.

Main definitions:

* `Mnemonic.IsOther` — a word that is no mnemonic;
* `Line.Grammar` — the words that form a line;
* `Line.Unrecognized` — words that begin with two words that are no mnemonics.

Main results:

* `Line.decode_eq_ok_iff` — reading is the inverse of writing;
* `Line.exists_decode_iff` — **the words that form a line are those that can be read**;
* `Line.decode_eq_unknown_iff`, `Line.decode_eq_tooManyWords_iff` — the words that cannot be read,
  and why;
* `Line.decode_grammar` — **what reading accepts, what it gives, and how it fails**.
-/

import AccMachine.Line

set_option relaxedAutoImplicit false
set_option autoImplicit false

namespace AccMachine

/-- A word that is no mnemonic. -/
def Mnemonic.IsOther (word : String) : Prop := ∀ m : Mnemonic, m.text ≠ word

namespace Line

/-- The words that form a line. -/
inductive Grammar : List String → Prop
  | blank : Grammar []
  | anchor {label : String} (h : Mnemonic.IsOther label) : Grammar [label]
  /-- The operand is not restricted. -/
  | instruction {label? : Option String} (h : ∀ label ∈ label?, Mnemonic.IsOther label)
      (m : Mnemonic) (operand? : Option String) :
      Grammar (label?.toList ++ m.text :: operand?.toList)

/-- `Unrecognized words label word`: the words begin with these two, and neither is a mnemonic. -/
def Unrecognized (words : List String) (label word : String) : Prop :=
  (∃ rest, words = label :: word :: rest) ∧ Mnemonic.IsOther label ∧ Mnemonic.IsOther word

variable {words : List String} {line : Line}

/-! ### Words that can be read -/

theorem wellLabelled_iff :
    line.WellLabelled ↔ ∀ label ∈ line.label?, Mnemonic.IsOther label :=
  forall₂_congr fun _ _ => Mnemonic.ofText?_eq_none_iff

/-- **Reading is the inverse of writing**, for lines whose label is no mnemonic. -/
theorem decode_eq_ok_iff : decode words = .ok line ↔ line.tokens = words ∧ line.WellLabelled := by
  constructor
  · intro h
    exact ⟨tokens_of_decode h, wellLabelled_of_decode h⟩
  · rintro ⟨rfl, h⟩
    exact decode_tokens h

/-- The words of a line whose label is no mnemonic form a line. -/
theorem grammar_tokens (h : line.WellLabelled) : Grammar line.tokens := by
  rw [wellLabelled_iff] at h
  cases line with
  | blank => exact .blank
  | anchor label => exact .anchor (h label rfl)
  | instruction i => exact .instruction h i.mnemonic i.operand

/-- Words that form a line are the words of one. -/
theorem Grammar.exists_line (h : Grammar words) :
    ∃ line : Line, line.tokens = words ∧ line.WellLabelled := by
  cases h with
  | blank => exact ⟨.blank, rfl, nofun⟩
  | @anchor label h =>
      refine ⟨.anchor label, rfl, wellLabelled_iff.2 ?_⟩
      rintro _ ⟨⟩
      exact h
  | @instruction label? h m operand? =>
      exact ⟨.instruction ⟨label?, m, operand?⟩, rfl, wellLabelled_iff.2 h⟩

/-- **The words that form a line are those that can be read.** -/
theorem exists_decode_iff : (∃ line, decode words = .ok line) ↔ Grammar words := by
  simp only [decode_eq_ok_iff]
  constructor
  · rintro ⟨line, rfl, h⟩
    exact grammar_tokens h
  · intro h
    exact h.exists_line

/-! ### Words that cannot be read -/

theorem withOperand_ne_unknown {rest : List String} {label? : Option String} {m : Mnemonic}
    {label word : String} :
    withOperand words label? m rest ≠ .error (.unknownInstruction label word) := by
  unfold withOperand
  split <;> simp

theorem withOperand_eq_tooManyWords {rest : List String} {label? : Option String} {m : Mnemonic}
    {text : String} (h : withOperand words label? m rest = .error (.tooManyWords text)) :
    text = " ".intercalate words := by
  unfold withOperand at h
  split at h
  · cases h
  · cases h
  · cases h
    rfl

/-- No mnemonic is found exactly if neither the first nor the second word is one. -/
theorem decode_eq_unknown_iff {label word : String} :
    decode words = .error (.unknownInstruction label word) ↔ Unrecognized words label word := by
  constructor
  · intro h
    unfold decode at h
    split at h
    · cases h
    · split at h
      · exact absurd h withOperand_ne_unknown
      · next first rest hfirst =>
        split at h
        · cases h
        · split at h
          · exact absurd h withOperand_ne_unknown
          · next second operands _ hsecond =>
            cases h
            exact ⟨⟨operands, rfl⟩, Mnemonic.ofText?_eq_none_iff.1 hfirst,
              Mnemonic.ofText?_eq_none_iff.1 hsecond⟩
  · rintro ⟨⟨rest, rfl⟩, hlabel, hword⟩
    simp [decode, Mnemonic.ofText?_eq_none_iff.2 hlabel, Mnemonic.ofText?_eq_none_iff.2 hword]

/-- If too many words follow the mnemonic, all words are kept. -/
theorem eq_intercalate_of_tooManyWords {text : String}
    (h : decode words = .error (.tooManyWords text)) : text = " ".intercalate words := by
  unfold decode at h
  split at h
  · cases h
  · split at h
    · exact withOperand_eq_tooManyWords h
    · split at h
      · cases h
      · split at h
        · exact withOperand_eq_tooManyWords h
        · cases h

/-- Too many words follow the mnemonic exactly if the words form no line although a mnemonic was
found. -/
theorem decode_eq_tooManyWords_iff {text : String} :
    decode words = .error (.tooManyWords text) ↔
      ¬ Grammar words ∧ (∀ label word, ¬ Unrecognized words label word) ∧
        text = " ".intercalate words := by
  simp only [← exists_decode_iff, ← decode_eq_unknown_iff]
  constructor
  · intro h
    refine ⟨?_, ?_, eq_intercalate_of_tooManyWords h⟩ <;> simp [h]
  · rintro ⟨hline, hfound, rfl⟩
    cases hwords : decode words with
    | ok line => exact absurd ⟨line, hwords⟩ hline
    | error flaw =>
        cases flaw with
        | unknownInstruction label word => exact absurd hwords (hfound label word)
        | tooManyWords text => rw [eq_intercalate_of_tooManyWords hwords]

/-! ### Reading -/

/-- **What reading accepts, what it gives, and how it fails.**  Words can be read exactly if they
form a line.  The line that is read is the one that is written with these words and whose label is
no mnemonic, so every such line is read from its words.  Reading finds no mnemonic exactly if
neither of the first two words is one, and keeps these two.  In all other cases it finds too many
words, and keeps them all. -/
theorem decode_grammar (words : List String) :
    ((∃ line, decode words = .ok line) ↔ Grammar words) ∧
    (∀ line : Line, decode words = .ok line ↔
      line.tokens = words ∧ ∀ label ∈ line.label?, Mnemonic.IsOther label) ∧
    (∀ label word, decode words = .error (.unknownInstruction label word) ↔
      Unrecognized words label word) ∧
    ∀ text, decode words = .error (.tooManyWords text) ↔
      ¬ Grammar words ∧ (∀ label word, ¬ Unrecognized words label word) ∧
        text = " ".intercalate words := by
  refine ⟨exists_decode_iff, fun line => ?_, fun _ _ => decode_eq_unknown_iff,
    fun _ => decode_eq_tooManyWords_iff⟩
  rw [decode_eq_ok_iff, wellLabelled_iff]

/-- An operand may be spelled like a mnemonic. -/
example : decode ["ADD", "OUT"] = .ok (.instruction ⟨none, .add, some "OUT"⟩) := rfl

/-- That no mnemonic was found is said first, however many words there are. -/
example : decode ["loop", "add", "1", "2"] = .error (.unknownInstruction "loop" "add") := rfl

end Line

end AccMachine
