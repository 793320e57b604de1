/-
**Cutting a text into lines.**

The lines of a text are what stands between its line feeds, without line ends around it.  Line ends
at the end of the text are removed before it is cut, so its last line is not empty unless it is the
only one.  Without that first step each line feed at the end would give one more line, an empty one,
and this is all the difference that it makes.

Main definitions:

* `Source.trimmedLines` — the lines of a text, with those that line feeds at its end give;
* `Source.endFeeds` — the number of line feeds among the line ends at the end of a text.

Main results:

* `Source.byLines` — induction on the lines of a text;
* `Source.trimmedLines_append_cons` — a line feed parts the lines of a text in two;
* `Source.trimmedLines_eq` — **a line feed at the end of a text gives an empty line, and no more**;
* `Source.physicalLines_append_cons` — a line feed parts a text in two, if more than line ends
  stands behind it;
* `Source.lineEnds_of_last_empty` — the last line of a text is empty only if there is nothing but
  line ends.
-/

import Mathlib.Data.List.DropRight
import AccMachine.Proofs.Spacing

set_option relaxedAutoImplicit false
set_option autoImplicit false

namespace AccMachine

namespace Text

variable {p : Char → Bool}

/-- Only characters of the class are trimmed away as a whole. -/
theorem trim_eq_nil_iff {cs : List Char} : trim p cs = [] ↔ ∀ c ∈ cs, p c = true := by
  constructor
  · intro h c hc
    cases hp : p c with
    | true => rfl
    | false =>
        obtain ⟨front, back, rfl⟩ := List.append_of_mem hc
        rw [trim_append_cons hp] at h
        exact absurd h (by simp)
  · intro h
    rw [trim, List.dropWhile_eq_nil_iff.2 h, trimEnd_nil]

end Text

namespace Source

/-- A line that is a comment is no line of a program. -/
theorem uncomment_trim_comment (comment : List Char) :
    uncomment (Text.trim isLineEnd (';' :: comment)) = none := by
  have htrim : Text.trim isLineEnd (';' :: comment) = ';' :: Text.trimEnd isLineEnd comment :=
    Text.trim_append_cons (by decide) [] comment
  rw [htrim]
  rfl

/-! ### Texts line by line -/

/-- The lines of a text: what stands between its line feeds, without line ends around it. -/
def trimmedLines (text : List Char) : List (List Char) :=
  (text.splitOn '\n').map (Text.trim isLineEnd)

theorem physicalLines_eq (text : List Char) :
    physicalLines text = trimmedLines (Text.trimEnd isLineEnd text) := rfl

/-- **Induction on the lines of a text**: a text is a single line, or a line with a line feed and a
text behind it. -/
theorem byLines {motive : List Char → Prop} (last : ∀ line, '\n' ∉ line → motive line)
    (next : ∀ line rest, '\n' ∉ line → motive rest → motive (line ++ '\n' :: rest))
    (text : List Char) : motive text := by
  induction h : text.length using Nat.strong_induction_on generalizing text with
  | _ n ih =>
      by_cases hmem : '\n' ∈ text
      · obtain ⟨line, rest, rfl, hline⟩ := List.eq_append_cons_of_mem hmem
        refine next line rest hline (ih rest.length ?_ rest rfl)
        rw [← h, List.length_append, List.length_cons]
        omega
      · exact last text hmem

variable {line text : List Char}

theorem trimmedLines_of_not_mem (h : '\n' ∉ line) :
    trimmedLines line = [Text.trim isLineEnd line] := by
  rw [trimmedLines, List.splitOn_eq_singleton h, List.map_singleton]

/-- A line feed parts the lines of a text in two. -/
theorem trimmedLines_append_cons (front rest : List Char) :
    trimmedLines (front ++ '\n' :: rest) = trimmedLines front ++ trimmedLines rest := by
  rw [trimmedLines, List.splitOn_append_cons_self, List.map_append, ← trimmedLines, ← trimmedLines]

theorem trimmedLines_ne_nil (text : List Char) : trimmedLines text ≠ [] := by
  simp [trimmedLines]

/-- A carriage return at the end of a text changes none of its lines. -/
theorem trimmedLines_append_return (text : List Char) :
    trimmedLines (text ++ ['\r']) = trimmedLines text := by
  induction text using byLines with
  | last line hline =>
      have hreturn : '\n' ∉ line ++ ['\r'] := by simpa using hline
      rw [trimmedLines_of_not_mem hreturn, trimmedLines_of_not_mem hline,
        Text.trim_append_of_all (by simp [isLineEnd])]
  | next line rest hline ih =>
      rw [List.append_assoc, List.cons_append, trimmedLines_append_cons,
        trimmedLines_append_cons, ih]

theorem physicalLines_ne_nil (text : List Char) : physicalLines text ≠ [] :=
  trimmedLines_ne_nil _

/-! ### The end of a text -/

/-- The number of line feeds among the line ends at the end of a text. -/
def endFeeds (text : List Char) : Nat := (text.rtakeWhile isLineEnd).count '\n'

/-- Of the line ends behind a text each line feed gives an empty line. -/
theorem trimmedLines_append_lineEnds (text : List Char) {tail : List Char}
    (h : ∀ c ∈ tail, isLineEnd c = true) :
    trimmedLines (text ++ tail) = trimmedLines text ++ List.replicate (tail.count '\n') [] := by
  induction tail using List.reverseRecOn with
  | nil => simp
  | append_singleton tail c ih =>
      have hend : isLineEnd c = true := h c (by simp)
      have htail := ih fun c hc => h c (List.mem_append_left _ hc)
      simp only [isLineEnd, Bool.or_eq_true, decide_eq_true_eq] at hend
      rcases hend with rfl | rfl
      · rw [← List.append_assoc, trimmedLines_append_return, htail]
        simp
      · rw [← List.append_assoc, trimmedLines_append_cons, htail, List.append_assoc,
          trimmedLines_of_not_mem List.not_mem_nil]
        simp [List.replicate_succ', Text.trim]

/-- **A line feed at the end of a text gives an empty line, and no more**: without the step that
removes the line ends there, so many lines would be added. -/
theorem trimmedLines_eq (text : List Char) :
    trimmedLines text = physicalLines text ++ List.replicate (endFeeds text) [] := by
  have hparts : Text.trimEnd isLineEnd text ++ text.rtakeWhile isLineEnd = text :=
    List.rdropWhile_append_rtakeWhile
  conv_lhs => rw [← hparts]
  rw [trimmedLines_append_lineEnds _ fun c hc => List.mem_rtakeWhile_imp hc, physicalLines_eq,
    endFeeds]

/-- A text of which only line ends are left has a single line, an empty one. -/
theorem physicalLines_of_lineEnds (h : ∀ c ∈ text, isLineEnd c = true) :
    physicalLines text = [[]] := by
  have hnil : Text.trimEnd isLineEnd text = [] := List.rdropWhile_eq_nil_iff.2 h
  rw [physicalLines_eq, hnil]
  rfl

/-- A text without line feeds is a single line. -/
theorem physicalLines_of_not_mem (h : '\n' ∉ line) :
    physicalLines line = [Text.trim isLineEnd line] := by
  have hmem : '\n' ∉ Text.trimEnd isLineEnd line := fun hc =>
    h ((List.rdropWhile_prefix isLineEnd line).subset hc)
  rw [physicalLines_eq, trimmedLines_of_not_mem hmem, Text.trim_trimEnd]

/-- Line ends behind a text change none of its lines. -/
theorem physicalLines_append_lineEnds (text : List Char) {tail : List Char}
    (h : ∀ c ∈ tail, isLineEnd c = true) : physicalLines (text ++ tail) = physicalLines text := by
  rw [physicalLines_eq, Text.trimEnd_append_of_all h, ← physicalLines_eq]

/-- A line feed parts a text in two, if more than line ends stands behind it. -/
theorem physicalLines_append_cons (front : List Char) {rest : List Char}
    (h : ∃ c ∈ rest, isLineEnd c = false) :
    physicalLines (front ++ '\n' :: rest) = trimmedLines front ++ physicalLines rest := by
  obtain ⟨c, hc, hsolid⟩ := h
  obtain ⟨before, after, rfl⟩ := List.append_of_mem hc
  have htrim : Text.trimEnd isLineEnd (front ++ '\n' :: (before ++ c :: after)) =
      front ++ '\n' :: Text.trimEnd isLineEnd (before ++ c :: after) := by
    rw [← List.cons_append, ← List.append_assoc, Text.trimEnd_append_cons hsolid,
      Text.trimEnd_append_cons hsolid, List.append_assoc, List.cons_append]
  rw [physicalLines_eq, htrim, trimmedLines_append_cons, ← physicalLines_eq]

/-- The last line of a text is empty only if there is nothing but line ends. -/
theorem lineEnds_of_last_empty (h : (physicalLines text).getLast? = some []) :
    ∀ c ∈ text, isLineEnd c = true := by
  induction text using byLines with
  | last line hline =>
      rw [physicalLines_of_not_mem hline] at h
      exact Text.trim_eq_nil_iff.1 (Option.some.inj h)
  | next line rest hline ih =>
      by_cases hrest : ∀ c ∈ rest, isLineEnd c = true
      · have htail : ∀ c ∈ '\n' :: rest, isLineEnd c = true :=
          List.forall_mem_cons.2 ⟨by decide, hrest⟩
        rw [physicalLines_append_lineEnds line htail, physicalLines_of_not_mem hline] at h
        exact List.forall_mem_append.2 ⟨Text.trim_eq_nil_iff.1 (Option.some.inj h), htail⟩
      · have hsolid : ∃ c ∈ rest, isLineEnd c = false := by simpa using hrest
        rw [physicalLines_append_cons line hsolid,
          List.getLast?_append_of_ne_nil _ (physicalLines_ne_nil rest)] at h
        exact absurd (ih h) hrest

end Source

end AccMachine
