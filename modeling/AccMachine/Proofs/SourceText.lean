/-
**Words and plain lines.**

A program can be written down: words are put on a line with a space between them, and lines into a
text.  Mnemonics and integers are words, so they can be told apart again, and a line that is made of
words keeps all its characters as long as no comment begins in it.

Main definitions:

* `Text.IsWord` — a text that is a word of a line, such as a mnemonic or an integer;
* `Source.Plain` — a line that a source text keeps as it is.

Main results:

* `Text.wordsOf_pair`, `Text.trimmed_pair` — two words on a line are its words;
* `Mnemonic.isWord`, `Decimal.isWord_render` — mnemonics and integers are words;
* `Source.uncomment_eq_self`, `Source.uncomment_append_comment` — where a line is cut.
-/

import Mathlib.Data.List.Basic
import Mathlib.Data.List.TakeWhile
import AccMachine.Line
import AccMachine.Operand
import AccMachine.Source

set_option relaxedAutoImplicit false
set_option autoImplicit false

namespace AccMachine

namespace Text

/-! ### Words -/

/-- A text that is not empty and holds no blank character. -/
structure IsWord (w : String) : Prop where
  ne_empty : w ≠ ""
  not_blank : ∀ c ∈ w.toList, isBlank c = false

/-- Whether a text is a word can be computed. -/
theorem isWord_of_all {w : String} (hne : w ≠ "")
    (h : (w.toList.all fun c => !isBlank c) = true) : IsWord w := by
  refine ⟨hne, ?_⟩
  intro c hc
  simpa using List.all_eq_true.1 h c hc

theorem IsWord.toList_ne_nil {w : String} (h : IsWord w) : w.toList ≠ [] := by
  intro hnil
  exact h.ne_empty (String.toList_eq_nil_iff.1 hnil)

theorem IsWord.not_mem {w : String} (h : IsWord w) {c : Char} (hc : isBlank c = true) :
    c ∉ w.toList := by
  intro hmem
  rw [h.not_blank c hmem] at hc
  cases hc

/-- A word begins and ends with a character that is not blank. -/
theorem IsWord.trim_append {w w' : String} (h : IsWord w) (h' : IsWord w') (cs : List Char) :
    trim isBlank (w.toList ++ cs ++ w'.toList) = w.toList ++ cs ++ w'.toList := by
  refine trim_eq_self (fun c hc => ?_) fun c hc => ?_
  · rw [List.append_assoc, List.head?_append_of_ne_nil _ h.toList_ne_nil] at hc
    exact h.not_blank c (List.mem_of_mem_head? hc)
  · rw [List.getLast?_append_of_ne_nil _ h'.toList_ne_nil] at hc
    exact h'.not_blank c (List.mem_of_mem_getLast? hc)

/-- A digit is not blank. -/
theorem isBlank_of_isDigit {c : Char} (h : c.isDigit = true) : isBlank c = false := by
  simp only [Char.isDigit, Bool.and_eq_true, decide_eq_true_eq] at h
  have hlow : 48 ≤ c.toNat := h.1
  have hhigh : c.toNat ≤ 57 := h.2
  simp [isBlank, inRanges, blankRanges]
  omega

/-- A character that ends a line is blank. -/
theorem isBlank_of_isLineEnd {c : Char} (h : Source.isLineEnd c = true) : isBlank c = true := by
  simp only [Source.isLineEnd, Bool.or_eq_true, decide_eq_true_eq] at h
  rcases h with rfl | rfl <;> decide

/-- Two words with a space between them are the words of the line. -/
theorem wordsOf_pair {w w' : String} (h : IsWord w) (h' : IsWord w') :
    wordsOf (w ++ " " ++ w') = [w, w'] := by
  have hline : (w ++ " " ++ w').toList = w.toList ++ ' ' :: w'.toList := by
    simp [String.toList_append]
  have hsplit : (w.toList ++ ' ' :: w'.toList).splitOnP isBlank = [w.toList, w'.toList] := by
    have hspace : isBlank ' ' = true := by decide
    rw [List.splitOnP_append_cons w.toList w'.toList hspace,
      List.splitOnP_eq_singleton h.not_blank, List.splitOnP_eq_singleton h'.not_blank]
    rfl
  simp [wordsOf, words, hline, hsplit, h.toList_ne_nil, h'.toList_ne_nil]

/-- A line of two words has no blank characters at its ends. -/
theorem trimmed_pair {w w' : String} (h : IsWord w) (h' : IsWord w') :
    trimmed (w ++ " " ++ w') = w ++ " " ++ w' := by
  have htrim := h.trim_append h' [' ']
  have hline : (w ++ " " ++ w').toList = w.toList ++ [' '] ++ w'.toList := by
    simp [String.toList_append]
  rw [trimmed, hline, htrim, ← hline, String.ofList_toList]

/-- A word has no blank characters at its ends. -/
theorem trimmed_word {w : String} (h : IsWord w) : trimmed w = w := by
  have hword : trim isBlank w.toList = w.toList :=
    trim_eq_self (fun c hc => h.not_blank c (List.mem_of_mem_head? hc))
      fun c hc => h.not_blank c (List.mem_of_mem_getLast? hc)
  rw [trimmed, hword, String.ofList_toList]

/-- A word on a line of its own is its only word. -/
theorem wordsOf_word {w : String} (h : IsWord w) : wordsOf w = [w] := by
  rw [wordsOf, words_eq_singleton h.toList_ne_nil h.not_blank]
  simp

/-- What is cut out of a line is a word. -/
theorem isWord_of_mem_wordsOf {text w : String} (h : w ∈ wordsOf text) : IsWord w := by
  obtain ⟨cs, hcs, rfl⟩ := List.mem_map.1 h
  obtain ⟨hne, hblank⟩ := mem_words hcs
  refine ⟨fun hempty => hne (String.ofList_eq_empty_iff.1 hempty), ?_⟩
  rwa [String.toList_ofList]

end Text

/-- The text of every instruction is a word. -/
theorem Mnemonic.isWord (m : Mnemonic) : Text.IsWord m.text := by
  cases m <;> exact Text.isWord_of_all (by decide) (by decide)

theorem Mnemonic.semicolon_not_mem (m : Mnemonic) : ';' ∉ m.text.toList := by
  cases m <;> decide

namespace Decimal

/-- An integer is written with digits and at most a minus sign. -/
theorem mem_ofInt {i : Int} {c : Char} (h : c ∈ ofInt i) : c = '-' ∨ c.isDigit = true := by
  unfold ofInt at h
  split at h
  · rcases List.mem_cons.1 h with rfl | h
    · exact Or.inl rfl
    · exact Or.inr (isDigit_of_mem_ofNat h)
  · exact Or.inr (isDigit_of_mem_ofNat h)

theorem ofInt_ne_nil (i : Int) : ofInt i ≠ [] := by
  unfold ofInt
  split
  · exact List.cons_ne_nil _ _
  · exact ofNat_ne_nil _

/-- The text of every integer is a word. -/
theorem isWord_render (v : Int64) : Text.IsWord (render v) := by
  have hlist : (render v).toList = ofInt v.toInt := String.toList_ofList
  constructor
  · intro hempty
    rw [hempty] at hlist
    exact ofInt_ne_nil _ hlist.symm
  · intro c hc
    rw [hlist] at hc
    rcases mem_ofInt hc with rfl | hdigit
    · decide
    · exact Text.isBlank_of_isDigit hdigit

theorem semicolon_not_mem_render (v : Int64) : ';' ∉ (render v).toList := by
  intro h
  rw [render, String.toList_ofList] at h
  rcases mem_ofInt h with h | h
  · exact absurd h (by decide)
  · exact absurd h (by decide)

end Decimal

namespace Source

/-! ### Lines -/

/-- No character of the line ends a line or begins a comment. -/
def Plain (line : String) : Prop := ∀ c ∈ line.toList, isLineEnd c = false ∧ c ≠ ';'

/-- A word without a semicolon is a plain line. -/
theorem plain_word {w : String} (h : Text.IsWord w) (hw : ';' ∉ w.toList) : Plain w := by
  intro c hc
  refine ⟨?_, fun heq => hw (heq ▸ hc)⟩
  cases hend : isLineEnd c with
  | false => rfl
  | true => rw [← Text.isBlank_of_isLineEnd hend, h.not_blank c hc]

/-- Two words without a semicolon are a plain line. -/
theorem plain_pair {w w' : String} (h : Text.IsWord w) (h' : Text.IsWord w')
    (hw : ';' ∉ w.toList) (hw' : ';' ∉ w'.toList) : Plain (w ++ " " ++ w') := by
  intro c hc
  simp only [String.toList_append, List.mem_append] at hc
  rcases hc with (hc | hc) | hc
  · exact plain_word h hw c hc
  · obtain rfl : c = ' ' := by simpa using hc
    exact ⟨by decide, by decide⟩
  · exact plain_word h' hw' c hc

/-- A line in which no comment begins is not cut. -/
theorem uncomment_eq_self {line : List Char} (h : ';' ∉ line) : uncomment line = some line := by
  have hhead : line.head? ≠ some ';' := fun hc => h (List.mem_of_mem_head? hc)
  have htake : (line.takeWhile fun c => c ≠ ';') = line := by
    rw [List.takeWhile_eq_self_iff]
    intro c hc
    exact decide_eq_true fun heq => h (heq ▸ hc)
  rw [uncomment, if_neg hhead, htake]

/-- A line is cut at the first comment, unless it is a comment. -/
theorem uncomment_append_comment {front : List Char} (h : ';' ∉ front) (hne : front ≠ [])
    (comment : List Char) : uncomment (front ++ ';' :: comment) = some front := by
  have hhead : (front ++ ';' :: comment).head? ≠ some ';' := by
    obtain ⟨c, rest, rfl⟩ := List.exists_cons_of_ne_nil hne
    rintro hc
    exact h (List.mem_of_mem_head? hc)
  have htake : ((front ++ ';' :: comment).takeWhile fun c => c ≠ ';') = front := by
    rw [List.takeWhile_append_of_pos, List.takeWhile_cons_of_neg (by simp), List.append_nil]
    intro c hc
    exact decide_eq_true fun heq => h (heq ▸ hc)
  rw [uncomment, if_neg hhead, htake]

end Source

end AccMachine
