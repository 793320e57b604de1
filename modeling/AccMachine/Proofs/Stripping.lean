/-
**The lines of a program are those of its text.**

Reading a text loses nothing but comments and line ends.  Each line of the program is a line of the
text without the line ends around it and up to its first semicolon, the lines stand in the order of
the text, and the lines of the text that are left out are those that are comments.  It does not
matter whether a carriage return stands in front of a line feed.

Main definitions:

* `Text.Trimmed` — what is left of a text without the characters of a class at its ends;
* `Source.CutsInto` — the lines that a text consists of;
* `Source.UpToComment` — a line up to the semicolon that begins a comment;
* `Source.withReturns` — a text with a carriage return in front of each line feed.

Main results:

* `Text.trimmed_iff`, `Source.cutsInto_iff` — there is one way only to trim a text, and one to cut
  it into lines;
* `Source.exists_places` — what a partial function keeps of a list has its places there, in order;
* `Source.physicalLines_withReturns` — both kinds of line ends are read alike;
* `Source.lines_faithful` — **each line of a program is a line of its text, in order, and only
  comments are left out**.
-/

import Mathlib.Data.List.Basic
import Mathlib.Order.Fin.Basic
import AccMachine.Proofs.PhysicalLines

set_option relaxedAutoImplicit false
set_option autoImplicit false

namespace AccMachine

/-! ### Trimmed texts -/

namespace Text

variable {p : Char → Bool}

/-- `Trimmed p cs middle`: the text `middle` is what is left of `cs` without the characters of the
class at both ends. -/
structure Trimmed (p : Char → Bool) (cs middle : List Char) : Prop where
  around : ∃ front back, cs = front ++ middle ++ back ∧ ∀ c ∈ front ++ back, p c = true
  head : ∀ c ∈ middle.head?, p c = false
  last : ∀ c ∈ middle.getLast?, p c = false

/-- A text that was trimmed at its end does not end with a character of the class. -/
theorem getLast?_trimEnd {cs : List Char} : ∀ c ∈ (trimEnd p cs).getLast?, p c = false := by
  intro c hc
  obtain ⟨hne, rfl⟩ := List.mem_getLast?_eq_getLast hc
  exact Bool.eq_false_iff.2 (List.rdropWhile_last_not p cs hne)

/-- **A text can be trimmed in one way only.** -/
theorem trimmed_iff {cs middle : List Char} : Trimmed p cs middle ↔ trim p cs = middle := by
  constructor
  · rintro ⟨⟨front, back, rfl, hall⟩, hhead, hlast⟩
    have hfront : ∀ c ∈ front, p c = true := fun c hc => hall c (List.mem_append_left _ hc)
    have hback : ∀ c ∈ back, p c = true := fun c hc => hall c (List.mem_append_right _ hc)
    rw [trim_append_of_all hback, trim, List.dropWhile_append_of_pos hfront, ← trim,
      trim_eq_self hhead hlast]
  · rintro rfl
    obtain ⟨tail, hdrop, htail⟩ := exists_tail p (cs.dropWhile p)
    refine ⟨⟨cs.takeWhile p, tail, ?_, ?_⟩, ?_, getLast?_trimEnd⟩
    · rw [trim, List.append_assoc, ← hdrop, List.takeWhile_append_dropWhile]
    · intro c hc
      rcases List.mem_append.1 hc with hc | hc
      · exact List.mem_takeWhile_imp hc
      · exact htail c hc
    · intro c hc
      have hhead : (cs.dropWhile p).head? = some c := by
        rw [hdrop, List.head?_append, ← trim, Option.mem_def.1 hc, Option.some_or]
      have hnot := List.head?_dropWhile_not p cs
      rw [hhead] at hnot
      exact hnot

end Text

namespace Source

/-! ### The lines of a text -/

/-- `CutsInto text raws`: without the line ends at its end, the text consists of the lines `raws`
with a line feed between each two of them. -/
structure CutsInto (text : List Char) (raws : List (List Char)) : Prop where
  joined : ∃ tail, text = ['\n'].intercalate raws ++ tail ∧ ∀ c ∈ tail, isLineEnd c = true
  last : ∀ c ∈ (['\n'].intercalate raws).getLast?, isLineEnd c = false
  no_feed : ∀ raw ∈ raws, '\n' ∉ raw
  ne_nil : raws ≠ []

/-- **A text can be cut into lines in one way only.** -/
theorem cutsInto_iff {text : List Char} {raws : List (List Char)} :
    CutsInto text raws ↔ (Text.trimEnd isLineEnd text).splitOn '\n' = raws := by
  constructor
  · rintro ⟨⟨tail, rfl, htail⟩, hlast, hfeed, hne⟩
    rw [Text.trimEnd_append_of_all htail, Text.trimEnd_eq_self hlast,
      List.splitOn_intercalate '\n' hfeed hne]
  · rintro rfl
    have hjoin : ['\n'].intercalate ((Text.trimEnd isLineEnd text).splitOn '\n') =
        Text.trimEnd isLineEnd text := List.intercalate_splitOn '\n'
    refine ⟨?_, ?_, fun raw hraw hmem => ?_, List.splitOn_ne_nil _ _⟩
    · rw [hjoin]
      exact Text.exists_tail isLineEnd text
    · rw [hjoin]
      exact Text.getLast?_trimEnd
    · have hcut := Text.not_mem_of_mem_splitOnP (fun c => c == '\n') hraw '\n' hmem
      simp at hcut

/-! ### Lines and comments -/

/-- `UpToComment cs front`: the text `front` is the line `cs` up to its first semicolon. -/
def UpToComment (cs front : List Char) : Prop :=
  ';' ∉ front ∧ (cs = front ∨ ∃ comment, cs = front ++ ';' :: comment)

theorem upToComment_of_uncomment {cs front : List Char} (h : uncomment cs = some front) :
    UpToComment cs front := by
  refine ⟨semicolon_not_mem_uncomment h, ?_⟩
  by_cases hmem : ';' ∈ cs
  · obtain ⟨before, comment, rfl, hbefore⟩ := List.eq_append_cons_of_mem hmem
    have hne : before ≠ [] := by
      rintro rfl
      cases h
    rw [uncomment_append_comment hbefore hne] at h
    obtain rfl := Option.some.inj h
    exact Or.inr ⟨comment, rfl⟩
  · rw [uncomment_eq_self hmem] at h
    exact Or.inl (Option.some.inj h)

/-- A line is left out exactly if it begins with a semicolon. -/
theorem uncomment_eq_none_iff {cs : List Char} :
    uncomment cs = none ↔ ∃ comment, cs = ';' :: comment := by
  cases cs with
  | nil => simp [uncomment]
  | cons c rest => simp [uncomment]

/-- What a partial function keeps of a list has its places there, in order, and at the other places
the function has no value. -/
theorem exists_places {α β : Type} {g : α → Option β} {xs : List α} {ys : List β}
    (hys : ys = xs.filterMap g) :
    ∃ f : Fin ys.length → Fin xs.length, StrictMono f ∧
      (∀ i, g xs[f i] = some ys[i]) ∧ ∀ j, (∀ i, f i ≠ j) ↔ g xs[j] = none := by
  subst hys
  let kept : α → Bool := fun x => (g x).isSome
  have hlength : (xs.filterMap g).length = (xs.findIdxs kept).length := by
    rw [List.length_filterMap_eq_countP, List.length_findIdxs]
  have hlt : ∀ i : Fin (xs.filterMap g).length, i.val < (xs.findIdxs kept).length := fun i =>
    hlength ▸ i.isLt
  refine ⟨fun i => ⟨(xs.findIdxs kept).get ⟨i, hlt i⟩, List.getElem_findIdxs_lt (hlt i)⟩,
    ?_, ?_, ?_⟩
  · intro i j hij
    exact List.pairwise_iff_getElem.1 List.pairwise_findIdxs i j (hlt i) (hlt j) hij
  · intro i
    have hi : i.val < (xs.filter kept).length := by
      rw [← List.countP_eq_length_filter, ← List.length_findIdxs (s := 0)]
      exact hlt i
    have hkept : ((xs.filterMap g).map some)[i.val]? = ((xs.filter kept).map g)[i.val]? := by
      rw [List.map_filterMap_some_eq_filter_map_isSome, List.filter_map]
      rfl
    rw [List.getElem?_map, List.getElem?_map, List.getElem?_eq_getElem i.isLt,
      List.getElem?_eq_getElem hi, List.getElem_filter_eq_getElem_getElem_findIdxs hi] at hkept
    exact (Option.some.inj hkept).symm
  · intro j
    have hmem : j.val ∈ xs.findIdxs kept ↔ (g xs[j]).isSome = true :=
      List.mem_findIdxs_iff_pos_getElem j.isLt
    rw [← Option.not_isSome_iff_eq_none, ← hmem, List.mem_iff_getElem]
    constructor
    · rintro hnone ⟨i, hi, hplace⟩
      exact hnone ⟨i, hlength ▸ hi⟩ (Fin.ext hplace)
    · rintro hnone i rfl
      exact hnone ⟨i.val, hlt i, rfl⟩

/-! ### Line ends -/

/-- The text with a carriage return in front of each line feed. -/
def withReturns (text : List Char) : List Char :=
  text.flatMap fun c => if c = '\n' then ['\r', '\n'] else [c]

theorem withReturns_append (front rest : List Char) :
    withReturns (front ++ rest) = withReturns front ++ withReturns rest :=
  List.flatMap_append

theorem withReturns_of_not_mem {line : List Char} (h : '\n' ∉ line) : withReturns line = line := by
  induction line with
  | nil => rfl
  | cons c line ih =>
      rw [List.mem_cons, not_or] at h
      rw [withReturns, List.flatMap_cons, ← withReturns, ih h.2, if_neg (Ne.symm h.1)]
      rfl

theorem withReturns_cons (line rest : List Char) (h : '\n' ∉ line) :
    withReturns (line ++ '\n' :: rest) = line ++ ['\r'] ++ '\n' :: withReturns rest := by
  rw [withReturns_append, withReturns_of_not_mem h, List.append_assoc]
  rfl

/-- A carriage return more is a line end among line ends. -/
theorem lineEnds_withReturns {text : List Char} :
    (∀ c ∈ withReturns text, isLineEnd c = true) ↔ ∀ c ∈ text, isLineEnd c = true := by
  constructor
  · intro h c hc
    by_cases hfeed : c = '\n'
    · rw [hfeed]
      decide
    · exact h c (List.mem_flatMap.2 ⟨c, hc, by simp [hfeed]⟩)
  · intro h c hc
    obtain ⟨d, hd, hcd⟩ := List.mem_flatMap.1 hc
    split at hcd
    · rcases List.mem_pair.1 hcd with rfl | rfl <;> decide
    · obtain rfl := List.mem_singleton.1 hcd
      exact h c hd

/-- **Both kinds of line ends are read alike.** -/
theorem physicalLines_withReturns (text : List Char) :
    physicalLines (withReturns text) = physicalLines text := by
  induction text using byLines with
  | last line hline => rw [withReturns_of_not_mem hline]
  | next line rest hline ih =>
      rw [withReturns_cons line rest hline]
      by_cases hrest : ∀ c ∈ rest, isLineEnd c = true
      · -- Nothing but line ends is behind the line, with the carriage returns and without.
        have htail : ∀ c ∈ '\n' :: rest, isLineEnd c = true :=
          List.forall_mem_cons.2 ⟨by decide, hrest⟩
        have hreturns : ∀ c ∈ ['\r'] ++ '\n' :: withReturns rest, isLineEnd c = true :=
          List.forall_mem_append.2 ⟨by simp [isLineEnd],
            List.forall_mem_cons.2 ⟨by decide, lineEnds_withReturns.2 hrest⟩⟩
        rw [List.append_assoc, physicalLines_append_lineEnds line hreturns,
          physicalLines_append_lineEnds line htail]
      · have hsolid : ∃ c ∈ rest, isLineEnd c = false := by simpa using hrest
        have hreturns : ∃ c ∈ withReturns rest, isLineEnd c = false := by
          simpa using mt lineEnds_withReturns.1 hrest
        rw [physicalLines_append_cons _ hreturns, physicalLines_append_cons _ hsolid,
          trimmedLines_append_return, ih]

/-! ### Lines of a program -/

/-- Each line of a text becomes a line of the program, or is left out. -/
theorem lines_eq_filterMap (text : String) :
    lines text = ((Text.trimEnd isLineEnd text.toList).splitOn '\n').filterMap
      fun raw => (uncomment (Text.trim isLineEnd raw)).map String.ofList := by
  rw [lines, lineChars, physicalLines, List.filterMap_map, List.map_filterMap]
  rfl

/-- No line of a program holds a line feed. -/
theorem feed_not_mem {text line : List Char} (h : line ∈ lineChars text) : '\n' ∉ line := by
  obtain ⟨cs, hcs, hu⟩ := List.mem_filterMap.1 h
  obtain ⟨raw, hraw, rfl⟩ := List.mem_map.1 hcs
  intro hmem
  have hin : '\n' ∈ Text.trim isLineEnd raw := by
    obtain ⟨-, heq | ⟨comment, heq⟩⟩ := upToComment_of_uncomment hu
    · rwa [heq]
    · rw [heq]
      exact List.mem_append_left _ hmem
  exact (cutsInto_iff.2 rfl).no_feed raw hraw (Text.mem_of_mem_trim hin)

/-- **Each line of a program is a line of its text, in order, and only comments are left out.**
A text consists of lines, with line ends at its end that do not count.  Each line of the program has
its place among them, and the places ascend.  It is the line of the text there, without the line
ends at both of its ends and up to its first semicolon.  The lines of the text at the other places
are those that begin with a semicolon, once the line ends are removed.  No line of the program holds
a semicolon or a line feed, and a carriage return in front of each line feed changes nothing. -/
theorem lines_faithful (text : String) :
    (∃ raws : List (List Char), CutsInto text.toList raws ∧
      ∃ f : Fin (lines text).length → Fin raws.length, StrictMono f ∧
        (∀ i, ∃ middle, Text.Trimmed isLineEnd raws[f i] middle ∧
          UpToComment middle (lines text)[i].toList) ∧
        ∀ j, (∀ i, f i ≠ j) ↔ ∃ comment, Text.Trimmed isLineEnd raws[j] (';' :: comment)) ∧
    (∀ line ∈ lines text, ';' ∉ line.toList ∧ '\n' ∉ line.toList) ∧
    lines (String.ofList (withReturns text.toList)) = lines text := by
  refine ⟨⟨_, cutsInto_iff.2 rfl, ?_⟩, ?_, ?_⟩
  · obtain ⟨f, hmono, hkept, hleft⟩ := exists_places (lines_eq_filterMap text)
    refine ⟨f, hmono, fun i => ?_, fun j => ?_⟩
    · obtain ⟨front, hfront, hline⟩ := Option.map_eq_some_iff.1 (hkept i)
      refine ⟨_, Text.trimmed_iff.2 rfl, ?_⟩
      rw [← hline, String.toList_ofList]
      exact upToComment_of_uncomment hfront
    · simp only [hleft j, Option.map_eq_none_iff, uncomment_eq_none_iff, Text.trimmed_iff]
  · intro line hline
    obtain ⟨cs, hcs, rfl⟩ := List.mem_map.1 hline
    rw [String.toList_ofList]
    exact ⟨semicolon_not_mem hcs, feed_not_mem hcs⟩
  · rw [lines, lineChars, String.toList_ofList, physicalLines_withReturns, ← lineChars, ← lines]

/-- Comments in front, behind a carriage return and behind a blank line, and mixed line ends. -/
example : lines "; head\r\nLOAD 1\r;one;1\n\n;\nOUT\r\r\n\n" = ["LOAD 1\r", "", "OUT"] := by
  decide +kernel

end Source

end AccMachine
