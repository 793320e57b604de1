/-
**Source texts and their lines.**

A program is written as a text with one line per instruction.  A semicolon begins a comment that
runs to the end of its line; a line that begins with a semicolon is not a line of the program at
all, so the lines that remain are numbered without gaps.  Lines may end with a line feed or with
a carriage return and a line feed, and line ends at the end of the text do not count.

Main definitions:

* `Source.uncomment` — a line without its comment, or nothing if it is a comment;
* `Source.lines` — the lines of the program that a source text contains.

Main results:

* `Source.semicolon_not_mem` — no line of a program holds a semicolon.
-/

import AccMachine.Text.Blank

set_option relaxedAutoImplicit false
set_option autoImplicit false

namespace AccMachine.Source

/-- Whether a character ends a line. -/
def isLineEnd (c : Char) : Bool := c = '\r' || c = '\n'

/-- A line up to its first semicolon, or nothing if the semicolon comes first. -/
def uncomment (line : List Char) : Option (List Char) :=
  if line.head? = some ';' then none else some (line.takeWhile fun c => c ≠ ';')

/-- The lines of a text, before comments are looked at. -/
def physicalLines (text : List Char) : List (List Char) :=
  ((Text.trimEnd isLineEnd text).splitOn '\n').map (Text.trim isLineEnd)

/-- The lines of the program in a text, as characters. -/
def lineChars (text : List Char) : List (List Char) := (physicalLines text).filterMap uncomment

/-- The lines of the program in a text. -/
def lines (text : String) : List String := (lineChars text.toList).map String.ofList

/-- Uncommenting leaves no semicolon. -/
theorem semicolon_not_mem_uncomment {line rest : List Char} (h : uncomment line = some rest) :
    ';' ∉ rest := by
  unfold uncomment at h
  split at h
  · cases h
  · obtain rfl := Option.some.inj h
    intro hmem
    simpa using List.all_eq_true.1 List.all_takeWhile ';' hmem

/-- No line of a program holds a semicolon. -/
theorem semicolon_not_mem {text line : List Char} (h : line ∈ lineChars text) : ';' ∉ line := by
  obtain ⟨_, _, hu⟩ := List.mem_filterMap.1 h
  exact semicolon_not_mem_uncomment hu

end AccMachine.Source
