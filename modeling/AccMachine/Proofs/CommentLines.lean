/-
**Lines that are comments.**

A line that begins with a semicolon is no line of the program, so a program should not change when
such a line is put into its text.  This holds of every label and of every line that the program had:
labels lead where they led, and lines keep their indices.  But a text is read without the line ends
at its end, and a comment is no line end.  It keeps the blank lines in front of it, which would not
count without it.

Main definitions:

* `Source.heldBlanks` — the number of blank lines that a comment between two texts keeps.

Main results:

* `Source.lineChars_append_cons` — a line feed parts the lines of a program in two;
* `Source.lineChars_comment_between` — a comment between two texts keeps the blank lines in front of
  it, if nothing but line ends stands behind it;
* `Source.resolve_append_blanks` — blank lines at the end give no labels;
* `Source.lines_comment` — **a comment changes no line of a program and no label**, but it may keep
  blank lines at the end.
-/

import AccMachine.Program
import AccMachine.Proofs.PhysicalLines

set_option relaxedAutoImplicit false
set_option autoImplicit false

namespace AccMachine.Source

/-! ### Lines of a program in parts of its text -/

/-- A line feed parts the lines of a program in two, if more than line ends stands behind it. -/
theorem lineChars_append_cons (front : List Char) {rest : List Char}
    (h : ∃ c ∈ rest, isLineEnd c = false) :
    lineChars (front ++ '\n' :: rest) =
      (trimmedLines front).filterMap uncomment ++ lineChars rest := by
  rw [lineChars, physicalLines_append_cons front h, List.filterMap_append, ← lineChars]

/-- Line ends behind a text change none of the lines of the program. -/
theorem lineChars_append_lineEnds (text : List Char) {tail : List Char}
    (h : ∀ c ∈ tail, isLineEnd c = true) : lineChars (text ++ tail) = lineChars text := by
  rw [lineChars, physicalLines_append_lineEnds text h, ← lineChars]

/-- The blank lines that line feeds at the end of a text would give are lines of a program. -/
theorem filterMap_trimmedLines (text : List Char) :
    (trimmedLines text).filterMap uncomment =
      lineChars text ++ List.replicate (endFeeds text) [] := by
  have hblanks : (List.replicate (endFeeds text) []).filterMap uncomment =
      List.replicate (endFeeds text) [] := List.filterMap_replicate_of_some rfl
  rw [trimmedLines_eq, List.filterMap_append, hblanks, ← lineChars]

variable {comment : List Char}

/-- A comment in front of a text gives no line.  If nothing but line ends stands behind it, then
there is no line at all. -/
theorem lineChars_comment_first (h : '\n' ∉ comment) (rest : List Char) :
    lineChars (';' :: (comment ++ '\n' :: rest)) =
      if rest.all isLineEnd then [] else lineChars rest := by
  have hline : '\n' ∉ ';' :: comment := by simpa using h
  rw [← List.cons_append]
  split
  · next hends =>
      have htail : ∀ c ∈ '\n' :: rest, isLineEnd c = true :=
        List.forall_mem_cons.2 ⟨by decide, List.all_eq_true.1 hends⟩
      rw [lineChars_append_lineEnds _ htail, lineChars, physicalLines_of_not_mem hline,
        List.filterMap_cons_none (uncomment_trim_comment comment), List.filterMap_nil]
  · next hends =>
      have hsolid : ∃ c ∈ rest, isLineEnd c = false := by simpa using hends
      rw [lineChars_append_cons _ hsolid, trimmedLines_of_not_mem hline,
        List.filterMap_cons_none (uncomment_trim_comment comment), List.filterMap_nil,
        List.nil_append]

/-! ### Comments between two texts -/

/-- The number of blank lines that a comment between two texts keeps: those at the end of the first
text, if nothing but line ends stands behind the comment. -/
def heldBlanks (front rest : List Char) : Nat := if rest.all isLineEnd then endFeeds front else 0

/-- A comment between two texts keeps the blank lines in front of it, if nothing but line ends
stands behind it. -/
theorem lineChars_comment_between (h : '\n' ∉ comment) (front rest : List Char) :
    lineChars (front ++ '\n' :: ';' :: (comment ++ '\n' :: rest)) =
      lineChars (front ++ '\n' :: rest) ++ List.replicate (heldBlanks front rest) [] := by
  have hsolid : ∃ c ∈ ';' :: (comment ++ '\n' :: rest), isLineEnd c = false :=
    ⟨';', List.mem_cons_self, by decide⟩
  rw [lineChars_append_cons front hsolid, lineChars_comment_first h, heldBlanks]
  split
  · next hends =>
      have htail : ∀ c ∈ '\n' :: rest, isLineEnd c = true :=
        List.forall_mem_cons.2 ⟨by decide, List.all_eq_true.1 hends⟩
      rw [lineChars_append_lineEnds front htail, List.append_nil, filterMap_trimmedLines]
  · next hends =>
      have hrest : ∃ c ∈ rest, isLineEnd c = false := by simpa using hends
      rw [lineChars_append_cons front hrest, List.replicate_zero, List.append_nil]

/-- A comment behind a text keeps the blank lines at its end. -/
theorem lineChars_comment_last (h : '\n' ∉ comment) (front : List Char) :
    lineChars (front ++ '\n' :: ';' :: comment) =
      lineChars front ++ List.replicate (endFeeds front) [] := by
  have hfeed : ∀ c ∈ ['\n'], isLineEnd c = true := by simp [isLineEnd]
  have hbetween := lineChars_comment_between h front []
  rw [← List.cons_append, ← List.cons_append, ← List.append_assoc,
    lineChars_append_lineEnds _ hfeed, lineChars_append_lineEnds front hfeed] at hbetween
  exact hbetween

/-! ### Labels -/

theorem resolveFrom_append_blanks (i n : Nat) (table : Table Nat) (lines : List String) :
    Program.resolveFrom i table (lines ++ List.replicate n "") =
      Program.resolveFrom i table lines := by
  induction lines generalizing i table with
  | nil =>
      induction n generalizing i with
      | zero => rfl
      | succ n ih => exact ih (i + 1)
  | cons line lines ih =>
      rw [List.cons_append, Program.resolveFrom, Program.resolveFrom]
      cases Line.labelOf? line with
      | none => exact ih (i + 1) table
      | some label => exact ih (i + 1) (table.put label i)

/-- **Blank lines at the end of a program give no labels.** -/
theorem resolve_append_blanks (lines : List String) (n : Nat) :
    Program.resolve (lines ++ List.replicate n "") = Program.resolve lines :=
  resolveFrom_append_blanks 0 n Table.empty lines

/-! ### Comments in a text -/

/-- **A comment changes no line of a program and no label.**  Put between two parts of a text, a
line that begins with a semicolon leaves the lines of the program as they are, up to blank lines
behind them: those at the end of the first part, if the second part holds nothing but line ends.
The same holds of a comment at the end of a text.  In front of a text it changes nothing, unless the
text holds nothing but line ends; then the single blank line that this gives is lost.  All labels
lead where they led before. -/
theorem lines_comment (front rest : String) {comment : String} (h : '\n' ∉ comment.toList) :
    (lines (front ++ "\n;" ++ comment ++ "\n" ++ rest) =
        lines (front ++ "\n" ++ rest) ++
          List.replicate (heldBlanks front.toList rest.toList) "" ∧
      Program.resolve (lines (front ++ "\n;" ++ comment ++ "\n" ++ rest)) =
        Program.resolve (lines (front ++ "\n" ++ rest))) ∧
    (lines (front ++ "\n;" ++ comment) =
        lines front ++ List.replicate (endFeeds front.toList) "" ∧
      Program.resolve (lines (front ++ "\n;" ++ comment)) = Program.resolve (lines front)) ∧
    (lines (";" ++ comment ++ "\n" ++ rest) =
        (if rest.toList.all isLineEnd then [] else lines rest) ∧
      Program.resolve (lines (";" ++ comment ++ "\n" ++ rest)) = Program.resolve (lines rest)) := by
  have hbetween : lines (front ++ "\n;" ++ comment ++ "\n" ++ rest) =
      lines (front ++ "\n" ++ rest) ++
        List.replicate (heldBlanks front.toList rest.toList) "" := by
    have htext : (front ++ "\n;" ++ comment ++ "\n" ++ rest).toList =
        front.toList ++ '\n' :: ';' :: (comment.toList ++ '\n' :: rest.toList) := by
      simp [String.toList_append]
    have hshort : (front ++ "\n" ++ rest).toList = front.toList ++ '\n' :: rest.toList := by
      simp [String.toList_append]
    rw [lines, lines, htext, hshort, lineChars_comment_between h, List.map_append,
      List.map_replicate]
  have hlast : lines (front ++ "\n;" ++ comment) =
      lines front ++ List.replicate (endFeeds front.toList) "" := by
    have htext : (front ++ "\n;" ++ comment).toList =
        front.toList ++ '\n' :: ';' :: comment.toList := by simp [String.toList_append]
    rw [lines, lines, htext, lineChars_comment_last h, List.map_append, List.map_replicate]
  have hfirst : lines (";" ++ comment ++ "\n" ++ rest) =
      if rest.toList.all isLineEnd then [] else lines rest := by
    have htext : (";" ++ comment ++ "\n" ++ rest).toList =
        ';' :: (comment.toList ++ '\n' :: rest.toList) := by simp [String.toList_append]
    rw [lines, htext, lineChars_comment_first h]
    split <;> rfl
  refine ⟨⟨hbetween, ?_⟩, ⟨hlast, ?_⟩, ⟨hfirst, ?_⟩⟩
  · rw [hbetween, resolve_append_blanks]
  · rw [hlast, resolve_append_blanks]
  · rw [hfirst]
    split
    · next hends =>
        -- The single line of such a text is blank, and gives no label.
        have hblank : lines rest = [] ++ List.replicate 1 "" := by
          rw [lines, lineChars, physicalLines_of_lineEnds (List.all_eq_true.1 hends)]
          rfl
        rw [hblank, resolve_append_blanks]
    · rfl

/-- Two blank lines stand in front of the comment, and line ends behind it. -/
theorem lines_comment_two_blanks :
    '\n' ∉ " end".toList ∧
      lines ("at OUT\n\r\n" ++ "\n;" ++ " end" ++ "\n" ++ "\r\n") =
        lines ("at OUT\n\r\n" ++ "\n" ++ "\r\n") ++ ["", ""] ∧
      Program.resolve (lines ("at OUT\n\r\n" ++ "\n;" ++ " end" ++ "\n" ++ "\r\n")) =
        Program.resolve (lines ("at OUT\n\r\n" ++ "\n" ++ "\r\n")) := by
  have hplain : '\n' ∉ " end".toList := by decide
  have hheld : heldBlanks "at OUT\n\r\n".toList "\r\n".toList = 2 := by decide +kernel
  obtain ⟨hlines, hlabels⟩ := (lines_comment "at OUT\n\r\n" "\r\n" hplain).1
  rw [hheld] at hlines
  exact ⟨hplain, hlines, hlabels⟩

/-- A comment behind a blank line can be seen: the blank line counts as a line of the program. -/
theorem lines_comment_seen :
    ¬ ∀ front comment rest : String, '\n' ∉ comment.toList →
      lines (front ++ "\n;" ++ comment ++ "\n" ++ rest) = lines (front ++ "\n" ++ rest) := by
  intro h
  have hlines := h "OUT\n" " end" "" (by decide)
  revert hlines
  decide +kernel

end AccMachine.Source
