/-
**Blank characters, trimming and words.**

A line of a program is cut into words at blank characters, and input is trimmed of them.  Blank
characters are those with the `White_Space` property of the Unicode standard, twenty-five in
number.

Main definitions:

* `Text.isBlank` — the characters with the `White_Space` property;
* `Text.trimEnd`, `Text.trim` — removing the characters of a class at the end, or at both ends;
* `Text.words` — the maximal runs of characters that are not blank;
* `Text.wordsOf`, `Text.trimmed` — the same on strings.

Main results:

* `Text.trim_eq_self` — a text with no character of the class at its ends is trimmed already;
* `Text.mem_words` — a word is not empty and holds no blank character;
* `Text.words_eq_singleton` — a text that is itself a word is its only word.
-/

set_option relaxedAutoImplicit false
set_option autoImplicit false

namespace AccMachine.Text

/-! ### Classes of characters given by ranges -/

/-- Whether the code point `n` lies in one of the ranges, ends included. -/
def inRanges (ranges : List (Nat × Nat)) (n : Nat) : Bool :=
  ranges.any fun r => r.1 ≤ n && n ≤ r.2

/-- The ranges of code points with the `White_Space` property. -/
def blankRanges : List (Nat × Nat) :=
  [(0x0009, 0x000D), (0x0020, 0x0020), (0x0085, 0x0085), (0x00A0, 0x00A0), (0x1680, 0x1680),
   (0x2000, 0x200A), (0x2028, 0x2029), (0x202F, 0x202F), (0x205F, 0x205F), (0x3000, 0x3000)]

/-- Whether a character is white space. -/
def isBlank (c : Char) : Bool := inRanges blankRanges c.toNat

/-! ### Trimming -/

/-- Removes the characters of the class at the end. -/
def trimEnd (p : Char → Bool) (cs : List Char) : List Char := (cs.reverse.dropWhile p).reverse

/-- Removes the characters of the class at both ends. -/
def trim (p : Char → Bool) (cs : List Char) : List Char := trimEnd p (cs.dropWhile p)

@[simp] theorem trimEnd_nil (p : Char → Bool) : trimEnd p [] = [] := rfl

section Trimmed

variable {p : Char → Bool} {cs : List Char}

theorem dropWhile_eq_self (h : ∀ c ∈ cs.head?, p c = false) : cs.dropWhile p = cs := by
  cases cs with
  | nil => rfl
  | cons c rest => rw [List.dropWhile_cons_of_neg (by simp [h c rfl])]

/-- A text that does not end with a character of the class is trimmed at its end already. -/
theorem trimEnd_eq_self (h : ∀ c ∈ cs.getLast?, p c = false) : trimEnd p cs = cs := by
  have hreverse : ∀ c ∈ cs.reverse.head?, p c = false := by
    rwa [List.head?_reverse]
  rw [trimEnd, dropWhile_eq_self hreverse, List.reverse_reverse]

/-- A text that neither begins nor ends with a character of the class is trimmed already. -/
theorem trim_eq_self (hhead : ∀ c ∈ cs.head?, p c = false)
    (hlast : ∀ c ∈ cs.getLast?, p c = false) : trim p cs = cs := by
  rw [trim, dropWhile_eq_self hhead, trimEnd_eq_self hlast]

end Trimmed

/-! ### Words -/

/-- The maximal runs of characters that are not blank, in order. -/
def words (cs : List Char) : List (List Char) :=
  (cs.splitOnP isBlank).filter fun w => !w.isEmpty

@[simp] theorem words_nil : words [] = [] := rfl

/-- The words of a text. -/
def wordsOf (text : String) : List String := (words text.toList).map String.ofList

/-- A text without the blank characters at both ends. -/
def trimmed (text : String) : String := String.ofList (trim isBlank text.toList)

/-- Cutting a text at a class leaves no character of the class. -/
theorem not_mem_of_mem_splitOnP (p : Char → Bool) {cs piece : List Char}
    (h : piece ∈ cs.splitOnP p) : ∀ c ∈ piece, p c = false := by
  induction cs generalizing piece with
  | nil =>
    rw [List.splitOnP_nil, List.mem_singleton] at h
    simp [h]
  | cons c rest ih =>
    rw [List.splitOnP_cons_eq_if_modifyHead] at h
    by_cases hc : p c = true
    · rw [if_pos hc, List.mem_cons] at h
      rcases h with rfl | h
      · simp
      · exact ih h
    · rw [if_neg hc] at h
      cases hs : rest.splitOnP p with
      | nil => simp [hs] at h
      | cons w ws =>
        simp only [hs, List.modifyHead_cons, List.mem_cons] at h
        rcases h with rfl | h
        · intro d hd
          rcases List.mem_cons.1 hd with rfl | hd
          · simpa using hc
          · exact ih (hs ▸ List.mem_cons_self) d hd
        · exact ih (hs ▸ List.mem_cons_of_mem _ h)

/-- A word is not empty and holds no blank character. -/
theorem mem_words {cs w : List Char} (h : w ∈ words cs) :
    w ≠ [] ∧ ∀ c ∈ w, isBlank c = false := by
  simp only [words, List.mem_filter] at h
  exact ⟨by simpa using h.2, not_mem_of_mem_splitOnP isBlank h.1⟩

/-- A text without blank characters is its own only word. -/
theorem words_eq_singleton {w : List Char} (hw : w ≠ []) (h : ∀ c ∈ w, isBlank c = false) :
    words w = [w] := by
  simp [words, List.splitOnP_eq_singleton h, hw]

end AccMachine.Text
