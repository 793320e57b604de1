/-
**Reading the lines of a program again.**

The lines of a program, joined by line feeds, are a text in which no comment is left.  Reading that
text gives the lines again, unless a comment stood where line ends are removed: in a text of
comments only there is no line, but no lines at all join to a text of one; a carriage return in
front of a comment is at the end of its line afterwards; and blank lines in front of a comment at
the end are at the end of the text.  What is lost then is lost once: from the second reading on
nothing changes.

Main definitions:

* `Source.Settled` — lines that reading does not change;
* `Source.rejoined` — the lines of a program in a text of its own.

Main results:

* `Source.physicalLines_intercalate_iff` — **joined lines are read back exactly if they are
  settled**;
* `Source.settled_physicalLines` — the lines that are read are settled;
* `Source.lines_intercalate` — plain lines are read back from the text that joins them;
* `Source.lines_rejoined` — the texts whose lines are read again as they are, and **a third reading
  gives what the second gave**.
-/

import AccMachine.Proofs.Stripping

set_option relaxedAutoImplicit false
set_option autoImplicit false

namespace AccMachine.Source

/-! ### Joined lines -/

variable {ls : List (List Char)}

/-- Lines without line ends at their ends, the last of which is not empty if there are others. -/
structure Settled (ls : List (List Char)) : Prop where
  trimmed : ∀ l ∈ ls, Text.trim isLineEnd l = l
  last : ls.getLast? = some [] → ls = [[]]

theorem trimmedLines_intercalate (hne : ls ≠ []) (hfeed : ∀ l ∈ ls, '\n' ∉ l) :
    trimmedLines (['\n'].intercalate ls) = ls.map (Text.trim isLineEnd) := by
  rw [trimmedLines, List.splitOn_intercalate '\n' hfeed hne]

/-- The lines that are read are settled. -/
theorem settled_physicalLines (text : List Char) : Settled (physicalLines text) where
  trimmed := by
    intro l hl
    obtain ⟨raw, -, rfl⟩ := List.mem_map.1 hl
    have htrimmed : Text.Trimmed isLineEnd raw (Text.trim isLineEnd raw) := Text.trimmed_iff.2 rfl
    exact Text.trim_eq_self htrimmed.head htrimmed.last
  last h := physicalLines_of_lineEnds (lineEnds_of_last_empty h)

/-- **Joined lines are read back exactly if they are settled.** -/
theorem physicalLines_intercalate_iff (hne : ls ≠ []) (hfeed : ∀ l ∈ ls, '\n' ∉ l) :
    physicalLines (['\n'].intercalate ls) = ls ↔ Settled ls := by
  constructor
  · intro h
    rw [← h]
    exact settled_physicalLines _
  · intro h
    have hall : ls = physicalLines (['\n'].intercalate ls) ++
        List.replicate (endFeeds (['\n'].intercalate ls)) [] := by
      rw [← trimmedLines_eq, trimmedLines_intercalate hne hfeed]
      exact (List.map_id' ls).symm.trans (List.map_congr_left fun l hl => (h.trimmed l hl).symm)
    -- A line feed at the end of the joined text would be an empty line behind others.
    cases hfeeds : endFeeds (['\n'].intercalate ls) with
    | zero =>
        rw [hfeeds, List.replicate_zero, List.append_nil] at hall
        exact hall.symm
    | succ n =>
        rw [hfeeds] at hall
        have hlast : ls.getLast? = some [] := by
          rw [hall, List.replicate_succ', ← List.append_assoc, List.getLast?_concat]
        have hlength := congrArg List.length hall
        have hpos := List.length_pos_of_ne_nil (physicalLines_ne_nil (['\n'].intercalate ls))
        rw [h.last hlast] at hlength hpos
        simp only [List.length_append, List.length_replicate, List.length_singleton] at hlength
        omega

/-- Joined lines without semicolons hold no comments. -/
theorem lineChars_intercalate (hfeed : ∀ l ∈ ls, '\n' ∉ l) (hcomment : ∀ l ∈ ls, ';' ∉ l) :
    lineChars (['\n'].intercalate ls) = physicalLines (['\n'].intercalate ls) := by
  by_cases hne : ls = []
  · rw [hne]
    rfl
  have hline : ∀ l ∈ physicalLines (['\n'].intercalate ls), uncomment l = some l := by
    intro l hl
    have hmem : l ∈ trimmedLines (['\n'].intercalate ls) := by
      rw [trimmedLines_eq]
      exact List.mem_append_left _ hl
    rw [trimmedLines_intercalate hne hfeed] at hmem
    obtain ⟨raw, hraw, rfl⟩ := List.mem_map.1 hmem
    exact uncomment_eq_self fun hc => hcomment raw hraw (Text.mem_of_mem_trim hc)
  rw [lineChars, List.filterMap_eq_map_iff_forall_eq_some.2 hline, List.map_id']

/-! ### Plain lines -/

/-- Nothing is trimmed off a plain line. -/
theorem Plain.trim {line : String} (h : Plain line) :
    Text.trim isLineEnd line.toList = line.toList :=
  Text.trim_eq_self (fun c hc => (h c (List.mem_of_mem_head? hc)).1)
    fun c hc => (h c (List.mem_of_mem_getLast? hc)).1

/-- **Plain lines are read back from the text that joins them**, if the last one is not empty. -/
theorem lines_intercalate {lines : List String} {last : String}
    (hplain : ∀ line ∈ lines ++ [last], Plain line) (hne : last ≠ "") :
    Source.lines ("\n".intercalate (lines ++ [last])) = lines ++ [last] := by
  have hfeed : ∀ l ∈ (lines ++ [last]).map String.toList, '\n' ∉ l := by
    intro l hl hmem
    obtain ⟨line, hline, rfl⟩ := List.mem_map.1 hl
    exact absurd (hplain line hline '\n' hmem).1 (by decide)
  have hcomment : ∀ l ∈ (lines ++ [last]).map String.toList, ';' ∉ l := by
    intro l hl hmem
    obtain ⟨line, hline, rfl⟩ := List.mem_map.1 hl
    exact (hplain line hline ';' hmem).2 rfl
  have hsettled : Settled ((lines ++ [last]).map String.toList) := by
    refine ⟨List.forall_mem_map.2 fun line hline => (hplain line hline).trim, fun hlast => ?_⟩
    rw [List.map_append, List.map_singleton, List.getLast?_concat, Option.some_inj] at hlast
    exact absurd (String.toList_eq_nil_iff.1 hlast) hne
  have hjoin : ("\n".intercalate (lines ++ [last])).toList =
      ['\n'].intercalate ((lines ++ [last]).map String.toList) := String.toList_intercalate
  rw [Source.lines, hjoin, lineChars_intercalate hfeed hcomment,
    (physicalLines_intercalate_iff (by simp) hfeed).2 hsettled, List.map_map]
  simp

/-! ### The lines of a program -/

/-- The lines of a program, joined and read again. -/
theorem lineChars_rejoined (text : List Char) :
    lineChars (['\n'].intercalate (lineChars text)) =
      physicalLines (['\n'].intercalate (lineChars text)) :=
  lineChars_intercalate (fun _ => feed_not_mem) fun _ => semicolon_not_mem

/-- The lines of a program are read again exactly if there are any and they are settled. -/
theorem lineChars_rejoined_iff (text : List Char) :
    lineChars (['\n'].intercalate (lineChars text)) = lineChars text ↔
      lineChars text ≠ [] ∧ Settled (lineChars text) := by
  rw [lineChars_rejoined]
  by_cases hne : lineChars text = []
  · simp only [hne, ne_eq, not_true_eq_false, false_and, iff_false]
    exact physicalLines_ne_nil _
  · rw [physicalLines_intercalate_iff hne fun _ => feed_not_mem]
    exact (and_iff_right hne).symm

/-- **A third reading gives what the second gave.** -/
theorem lineChars_rejoined_twice (text : List Char) :
    lineChars (['\n'].intercalate (lineChars (['\n'].intercalate (lineChars text)))) =
      lineChars (['\n'].intercalate (lineChars text)) := by
  rw [lineChars_rejoined_iff, lineChars_rejoined]
  exact ⟨physicalLines_ne_nil _, settled_physicalLines _⟩

/-- A line of a program begins with no line end, so it is trimmed if it ends with none. -/
theorem trim_line_iff {text line : List Char} (h : line ∈ lineChars text) :
    Text.trim isLineEnd line = line ↔ line.getLast? ≠ some '\r' := by
  constructor
  · intro htrim hlast
    have hend := (Text.trimmed_iff.2 htrim).last '\r' hlast
    revert hend
    decide
  · intro hlast
    obtain ⟨cs, hcs, hu⟩ := List.mem_filterMap.1 h
    have hcs' := Text.trimmed_iff.2 ((settled_physicalLines text).trimmed cs hcs)
    refine Text.trim_eq_self (fun c hc => hcs'.head c ?_) (fun c hc => ?_)
    · obtain ⟨-, rfl | ⟨comment, rfl⟩⟩ := upToComment_of_uncomment hu
      · exact hc
      · rw [List.head?_append, Option.mem_def.1 hc]
        rfl
    · have hreturn : c ≠ '\r' := by
        rintro rfl
        exact hlast hc
      have hfeed : c ≠ '\n' := by
        rintro rfl
        exact feed_not_mem h (List.mem_of_mem_getLast? hc)
      simp [isLineEnd, hreturn, hfeed]

/-! ### Programs in a text of their own -/

/-- The lines of the program in a text, joined by line feeds. -/
def rejoined (text : String) : String := "\n".intercalate (lines text)

theorem toList_rejoined (text : String) :
    (rejoined text).toList = ['\n'].intercalate (lineChars text.toList) := by
  rw [rejoined, String.toList_intercalate, lines, List.map_map]
  simp

theorem lines_eq_iff {text other : String} :
    lines text = lines other ↔ lineChars text.toList = lineChars other.toList :=
  List.map_inj_right fun _ _ => String.ofList_injective

/-- **When the lines of a program are read again as they are.**  The lines of a program, joined by
line feeds, are read as the same lines exactly if there are any, none of them ends with a carriage
return, and the last one is not blank unless it is the only one.  Whatever the text was, a third
reading gives the same lines as the second. -/
theorem lines_rejoined (text : String) :
    (lines (rejoined text) = lines text ↔
      lines text ≠ [] ∧ (∀ line ∈ lines text, line.toList.getLast? ≠ some '\r') ∧
        ((lines text).getLast? = some "" → lines text = [""])) ∧
    lines (rejoined (rejoined text)) = lines (rejoined text) := by
  constructor
  · have hnil : ∀ l : List Char, String.ofList l = "" ↔ l = [] := fun _ =>
      String.ofList_eq_empty_iff
    rw [lines_eq_iff, toList_rejoined, lineChars_rejoined_iff]
    simp only [lines, ne_eq, List.map_eq_nil_iff, List.forall_mem_map, String.toList_ofList,
      List.getLast?_map, Option.map_eq_some_iff, hnil, exists_eq_right, List.map_eq_singleton_iff]
    refine and_congr Iff.rfl ⟨fun h => ⟨?_, h.last⟩, fun h => ⟨?_, h.2⟩⟩
    · exact fun line hline => (trim_line_iff hline).1 (h.trimmed line hline)
    · exact fun line hline => (trim_line_iff hline).2 (h.1 line hline)
  · rw [lines_eq_iff, toList_rejoined, toList_rejoined]
    exact lineChars_rejoined_twice text.toList

/-- The blank line in front of the comment at the end is lost when the lines are read again, so
reading is not idempotent. -/
theorem lines_rejoined_not_idempotent :
    ¬ ∀ text : String, lines (rejoined text) = lines text := by
  intro h
  have hlines := h "OUT\n\n; end\n"
  revert hlines
  decide +kernel

end AccMachine.Source
