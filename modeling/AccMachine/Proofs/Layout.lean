/-
**The layout of a source text does not matter.**

The lines of a program can be written down in many ways: with white space around the words, with
comments at the ends of lines, with lines that are comments in between, and with either kind of line
end.  Reading the text gives the lines back, at the indices that they had before, so a label leads
to the line that it was given to.  Only at the end of a text blank lines are lost, since line ends
there do not count.

Main definitions:

* `Line.Writable` — a line whose label and operand can be written down;
* `Source.Shows` — what a line of text shows: a line of the program, or nothing;
* `Source.Written` — a text in which the lines of a program are written down.

Main results:

* `Source.Shows.read` — a line of text is read as what it shows;
* `Source.physicalLines_last`, `Source.physicalLines_next` — where a text is cut into lines;
* `Source.Written.read` — the words of a written text are those of its lines, line by line;
* `Source.lines_written` — **a written text is read as the program that was written down**, and its
  labels lead to the lines that they were given to.
-/

import AccMachine.Program
import AccMachine.Proofs.PhysicalLines

set_option relaxedAutoImplicit false
set_option autoImplicit false

namespace AccMachine

/-! ### Lines that can be written down -/

/-- A text that can stand for a label or an operand: a word in which no comment begins. -/
structure Text.IsName (w : String) : Prop where
  isWord : IsWord w
  no_comment : ';' ∉ w.toList

/-- A line whose label is a name and no mnemonic, and whose operand is a name. -/
structure Line.Writable (line : Line) : Prop where
  wellLabelled : line.WellLabelled
  label : ∀ w, line.label? = some w → Text.IsName w
  operand : ∀ i w, line = .instruction i → i.operand = some w → Text.IsName w

theorem Line.Writable.tokens {line : Line} (h : line.Writable) :
    ∀ w ∈ line.tokens, Text.IsName w := by
  cases line with
  | blank => exact nofun
  | anchor label =>
      intro w hw
      obtain rfl := List.mem_singleton.1 hw
      exact h.label w rfl
  | instruction i =>
      intro w hw
      simp only [Line.tokens, Instruction.tokens, List.mem_append, List.mem_cons,
        Option.mem_toList] at hw
      rcases hw with hw | rfl | hw
      · exact h.label w hw
      · exact ⟨i.mnemonic.isWord, i.mnemonic.semicolon_not_mem⟩
      · exact h.operand i w rfl hw

namespace Source

/-! ### Single lines of text -/

/-- `Shows shown? text`: the line `text`, without its line end, shows a line of a program, or
nothing. -/
inductive Shows : Option Line → List Char → Prop
  | blank : Shows (some .blank) []
  /-- A line that is a comment. -/
  | comment {comment : List Char} (hc : '\n' ∉ comment) : Shows none (';' :: comment)
  | spaced {line : Line} {body : List Char} (h : Text.Spaced line.tokens body) :
      Shows (some line) body
  /-- A line with a comment at its end. -/
  | commented {line : Line} {body comment : List Char} (h : Text.Spaced line.tokens body)
      (hc : '\n' ∉ comment) : Shows (some line) (body ++ ';' :: comment)

section

variable {line : Line} {body : List Char}

/-- A spaced line is one line, and no comment begins in it. -/
theorem not_mem_of_spaced (h : Text.Spaced line.tokens body) (hw : line.Writable) :
    '\n' ∉ body ∧ ';' ∉ body := by
  constructor
  · intro hmem
    rcases h.mem hmem with ⟨-, hne⟩ | ⟨w, hmem', hc⟩
    · exact hne rfl
    · exact absurd ((hw.tokens w hmem').isWord.not_blank '\n' hc) (by decide)
  · intro hmem
    rcases h.mem hmem with ⟨hblank, -⟩ | ⟨w, hmem', hc⟩
    · exact absurd hblank (by decide)
    · exact (hw.tokens w hmem').no_comment hc

/-- A spaced line holds more than line ends. -/
theorem solid_of_spaced (h : Text.Spaced line.tokens body) (hw : line.Writable) :
    ∃ c ∈ body, isLineEnd c = false := by
  obtain ⟨c, hc, hsolid⟩ := h.exists_not_blank fun w hmem => (hw.tokens w hmem).isWord
  refine ⟨c, hc, Bool.eq_false_iff.2 fun hend => ?_⟩
  rw [Text.isBlank_of_isLineEnd hend] at hsolid
  cases hsolid

end

variable {shown? : Option Line} {text : List Char}

/-- A line of text is one line. -/
theorem Shows.newline_not_mem (h : Shows shown? text) (hw : ∀ line ∈ shown?, line.Writable) :
    '\n' ∉ text := by
  cases h with
  | blank => exact nofun
  | comment hc => simpa using hc
  | spaced h => exact (not_mem_of_spaced h (hw _ rfl)).1
  | commented h hc => simpa using ⟨(not_mem_of_spaced h (hw _ rfl)).1, hc⟩

/-- A line of text that does not show a blank line holds more than line ends. -/
theorem Shows.solid (h : Shows shown? text) (hw : ∀ line ∈ shown?, line.Writable)
    (hblank : shown? ≠ some .blank) : ∃ c ∈ text, isLineEnd c = false := by
  cases h with
  | blank => exact absurd rfl hblank
  | comment _ => exact ⟨';', List.mem_cons_self, by decide⟩
  | spaced h => exact solid_of_spaced h (hw _ rfl)
  | commented h _ => exact ⟨';', by simp, by decide⟩

/-- **A line of text is read as what it shows.** -/
theorem Shows.read (h : Shows shown? text) (hw : ∀ line ∈ shown?, line.Writable) :
    (uncomment (Text.trim isLineEnd text)).map Text.words =
      shown?.map fun line => line.tokens.map String.toList := by
  cases h with
  | blank => rfl
  | @comment comment _ =>
      rw [uncomment_trim_comment]
      rfl
  | @spaced line body h =>
      have hline : line.Writable := hw _ rfl
      have hcut : uncomment (Text.trim isLineEnd text) = some (Text.trim isLineEnd text) :=
        uncomment_eq_self fun hc => (not_mem_of_spaced h hline).2 (Text.mem_of_mem_trim hc)
      rw [hcut, Option.map_some, Option.map_some,
        Text.words_trim fun _ => Text.isBlank_of_isLineEnd,
        h.words fun w hmem => (hline.tokens w hmem).isWord]
  | @commented line body comment h _ =>
      have hline : line.Writable := hw _ rfl
      -- Only the front of the line is trimmed: behind the words comes the comment.
      have htrim : Text.trim isLineEnd (body ++ ';' :: comment) =
          body.dropWhile isLineEnd ++ ';' :: Text.trimEnd isLineEnd comment :=
        Text.trim_append_cons (by decide) body comment
      have hne : body.dropWhile isLineEnd ≠ [] := by
        obtain ⟨c, hc, hsolid⟩ := solid_of_spaced h hline
        intro hnil
        rw [List.dropWhile_eq_nil_iff.1 hnil c hc] at hsolid
        cases hsolid
      have hcut : ';' ∉ body.dropWhile isLineEnd := fun hc =>
        (not_mem_of_spaced h hline).2 ((List.dropWhile_sublist _).subset hc)
      rw [htrim, uncomment_append_comment hcut hne, Option.map_some, Option.map_some,
        Text.words_dropWhile fun _ => Text.isBlank_of_isLineEnd,
        h.words fun w hmem => (hline.tokens w hmem).isWord]

/-! ### Texts -/

/-- The end of a line: a line feed, or a carriage return and a line feed. -/
def IsEnding (ending : List Char) : Prop := ending = ['\n'] ∨ ending = ['\r', '\n']

instance (ending : List Char) : Decidable (IsEnding ending) :=
  inferInstanceAs (Decidable (ending = ['\n'] ∨ ending = ['\r', '\n']))

theorem IsEnding.isLineEnd {ending : List Char} (h : IsEnding ending) :
    ∀ c ∈ ending, isLineEnd c = true := by
  rcases h with rfl | rfl <;> simp [Source.isLineEnd]

/-- `Written lines text`: the lines of a program are written down in the text, line by line, with
any number of line ends behind the last one. -/
inductive Written : List Line → List Char → Prop
  | last {shown? : Option Line} {text : List Char} {endings : List (List Char)}
      (h : Shows shown? text) (hends : ∀ ending ∈ endings, IsEnding ending) :
      Written shown?.toList (text ++ endings.flatten)
  | next {shown? : Option Line} {lines : List Line} {text ending rest : List Char}
      (h : Shows shown? text) (hend : IsEnding ending) (hrest : Written lines rest) :
      Written (shown?.toList ++ lines) (text ++ ending ++ rest)

/-- The last line of a text, with line ends behind it. -/
theorem physicalLines_last {tail : List Char} (hline : '\n' ∉ text)
    (htail : ∀ c ∈ tail, isLineEnd c = true) :
    physicalLines (text ++ tail) = [Text.trim isLineEnd text] := by
  rw [physicalLines_append_lineEnds text htail, physicalLines_of_not_mem hline]

/-- A line of a text with a line end behind it, and more than line ends to come. -/
theorem physicalLines_next {ending rest : List Char} (hline : '\n' ∉ text) (hend : IsEnding ending)
    (hsolid : ∃ c ∈ rest, isLineEnd c = false) :
    physicalLines (text ++ ending ++ rest) =
      Text.trim isLineEnd text :: physicalLines rest := by
  rcases hend with rfl | rfl
  · rw [List.append_assoc, List.singleton_append, physicalLines_append_cons text hsolid,
      trimmedLines_of_not_mem hline, List.singleton_append]
  · -- The carriage return is cut off with the line, and trimmed.
    have hparts : text ++ ['\r', '\n'] ++ rest = (text ++ ['\r']) ++ '\n' :: rest := by simp
    rw [hparts, physicalLines_append_cons _ hsolid, trimmedLines_append_return,
      trimmedLines_of_not_mem hline, List.singleton_append]

/-- What a line of text adds to the words of a text. -/
theorem Shows.read_cons (h : Shows shown? text) (hw : ∀ line ∈ shown?, line.Writable)
    (others : List (List Char)) :
    ((Text.trim isLineEnd text :: others).filterMap uncomment).map Text.words =
      (shown?.toList.map fun line => line.tokens.map String.toList) ++
        (others.filterMap uncomment).map Text.words := by
  have hread := h.read hw
  rw [List.filterMap_cons]
  cases hcut : uncomment (Text.trim isLineEnd text) with
  | none =>
      rw [hcut] at hread
      cases shown? with
      | none => rfl
      | some line => cases hread
  | some cs =>
      rw [hcut] at hread
      cases shown? with
      | none => cases hread
      | some line => exact congrArg (· :: _) (Option.some.inj hread)

variable {lines : List Line}

/-- A written text holds more than line ends, unless its last line is blank. -/
theorem Written.solid (h : Written lines text) (hw : ∀ line ∈ lines, line.Writable)
    (hlast : lines.getLast? ≠ some .blank) : ∃ c ∈ text, isLineEnd c = false := by
  induction h with
  | @last shown? text endings h _ =>
      have hblank : shown? ≠ some .blank := by
        rintro rfl
        exact hlast rfl
      obtain ⟨c, hc, hsolid⟩ :=
        h.solid (fun line hline => hw line (Option.mem_toList.2 hline)) hblank
      exact ⟨c, List.mem_append_left _ hc, hsolid⟩
  | next _ _ _ ih =>
      obtain ⟨c, hc, hsolid⟩ := ih (fun line hline => hw line (List.mem_append_right _ hline))
        (fun hblank => hlast (by rw [List.getLast?_append, hblank, Option.some_or]))
      exact ⟨c, List.mem_append_right _ hc, hsolid⟩

/-- **The words of a written text are the words of its lines**, line by line. -/
theorem Written.read (h : Written lines text) (hw : ∀ line ∈ lines, line.Writable)
    (hlast : lines.getLast? ≠ some .blank) :
    (lineChars text).map Text.words = lines.map fun line => line.tokens.map String.toList := by
  induction h with
  | @last shown? text endings h hends =>
      have hshown : ∀ line ∈ shown?, line.Writable := fun line hline =>
        hw line (Option.mem_toList.2 hline)
      have htail : ∀ c ∈ endings.flatten, isLineEnd c = true := by
        intro c hc
        obtain ⟨ending, hending, hmem⟩ := List.mem_flatten.1 hc
        exact (hends ending hending).isLineEnd c hmem
      rw [lineChars, physicalLines_last (h.newline_not_mem hshown) htail, h.read_cons hshown]
      exact List.append_nil _
  | @next shown? lines text ending rest h hend hrest ih =>
      have hshown : ∀ line ∈ shown?, line.Writable := fun line hline =>
        hw line (List.mem_append_left _ (Option.mem_toList.2 hline))
      have hlines : ∀ line ∈ lines, line.Writable := fun line hline =>
        hw line (List.mem_append_right _ hline)
      have hblank : lines.getLast? ≠ some .blank := fun hblank =>
        hlast (by rw [List.getLast?_append, hblank, Option.some_or])
      rw [lineChars, physicalLines_next (h.newline_not_mem hshown) hend
        (hrest.solid hlines hblank), h.read_cons hshown, ← lineChars, ih hlines hblank,
        List.map_append]

/-- **A written text is read as the program that was written down.**  Let the lines of a program be
written down in a text, with any white space, comments and line ends, where the last line is not
blank.  Then the text has as many lines as the program, each is read as the line that was written
down at its index, and a label leads to the last of the lines that it was given to, and to no
other. -/
theorem lines_written {text : String} (h : Written lines text.toList)
    (hw : ∀ line ∈ lines, line.Writable) (hlast : lines.getLast? ≠ some .blank) :
    (Source.lines text).map (fun line => Line.decode (Text.wordsOf line)) = lines.map .ok ∧
    ∀ reference label i,
      (Program.ofLines reference (Source.lines text)).label? label = some i ↔
        (∃ line, lines[i]? = some line ∧ line.label? = some label) ∧
          ∀ j line, i < j → lines[j]? = some line → line.label? ≠ some label := by
  have hdecode : (Source.lines text).map (fun line => Line.decode (Text.wordsOf line)) =
      lines.map .ok := by
    calc (Source.lines text).map (fun line => Line.decode (Text.wordsOf line))
        = ((lineChars text.toList).map Text.words).map
            (fun words => Line.decode (words.map String.ofList)) := by
          simp [Source.lines, Text.wordsOf, Function.comp_def]
      _ = lines.map (fun line => Line.decode line.tokens) := by
          rw [h.read hw hlast]
          simp [Function.comp_def]
      _ = lines.map .ok :=
          List.map_congr_left fun line hline => Line.decode_tokens (hw line hline).wellLabelled
  refine ⟨hdecode, fun reference label i => ?_⟩
  have hcarries : ∀ j : Nat,
      (∃ text', (Source.lines text)[j]? = some text' ∧ Line.labelOf? text' = some label) ↔
        ∃ line : Line, lines[j]? = some line ∧ line.label? = some label := by
    intro j
    have hline := congrArg (fun decoded => decoded[j]?) hdecode
    simp only [List.getElem?_map] at hline
    cases htext : (Source.lines text)[j]? with
    | none =>
        rw [htext, Option.map_none, eq_comm, Option.map_eq_none_iff] at hline
        simp [hline]
    | some text' =>
        rw [htext, Option.map_some, eq_comm, Option.map_eq_some_iff] at hline
        obtain ⟨line, hline, hok⟩ := hline
        simp [hline, Line.labelOf?_of_decode hok.symm]
  rw [Program.label?_eq_some_iff]
  refine and_congr (hcarries i) ⟨?_, ?_⟩
  · intro hlater j line hlt hline hlabel
    obtain ⟨text', htext', hlabel'⟩ := (hcarries j).2 ⟨line, hline, hlabel⟩
    exact hlater j text' hlt htext' hlabel'
  · intro hlater j text' hlt htext' hlabel
    obtain ⟨line, hline, hlabel'⟩ := (hcarries j).1 ⟨text', htext', hlabel⟩
    exact hlater j line hlt hline hlabel'

/-- A label on a line of its own, a blank line, and a jump that carries the same label. -/
def loopLines : List Line :=
  [.anchor "loop", .blank, .instruction ⟨some "loop", .jump, some "loop"⟩]

/-- The lines in a text with comments, both kinds of line ends, and a no-break space. -/
def loopText : String := ";jump\r\nloop\n\r\n\tloop\u00a0JUMP \x0bloop;back\n;end\n\r\n"

theorem writable_loopLines : ∀ line ∈ loopLines, line.Writable := by
  have hname : Text.IsName "loop" := ⟨Text.isWord_of_all (by decide) (by decide), by decide⟩
  have hlabel : Mnemonic.ofText? "loop" = none := by decide
  intro line hline
  simp only [loopLines, List.mem_cons, List.not_mem_nil, or_false] at hline
  rcases hline with rfl | rfl | rfl
  · exact ⟨fun _ h => Option.some.inj h ▸ hlabel, fun _ h => Option.some.inj h ▸ hname, nofun⟩
  · exact ⟨nofun, nofun, nofun⟩
  · refine ⟨fun _ h => Option.some.inj h ▸ hlabel, fun _ h => Option.some.inj h ▸ hname, ?_⟩
    intro i w hi hw
    cases hi
    exact Option.some.inj hw ▸ hname

theorem written_loopText : Written loopLines loopText.toList := by
  have hanchor : Shows (some (.anchor "loop")) ([] ++ "loop".toList ++ []) :=
    .spaced (.last nofun nofun)
  have hjump : Shows (some (.instruction ⟨some "loop", .jump, some "loop"⟩))
      (['\t'] ++ "loop".toList ++ ['\u00a0'] ++ ([] ++ "JUMP".toList ++ [' '] ++
        (['\x0b'] ++ "loop".toList ++ [])) ++ ';' :: "back".toList) :=
    .commented (.next (by decide) (by decide) nofun (.next nofun (by decide) nofun
      (.last (by decide) nofun))) (by decide)
  have hhead : Shows none (';' :: "jump".toList) := .comment (by decide)
  have hend : Written [] ((';' :: "end".toList) ++ [['\n'], ['\r', '\n']].flatten) :=
    .last (.comment (by decide)) (by decide)
  have hwritten := Written.next hhead (Or.inr rfl) (.next hanchor (Or.inl rfl)
    (.next .blank (Or.inr rfl) (.next hjump (Or.inl rfl) hend)))
  refine Eq.subst (motive := Written loopLines) ?_ hwritten
  decide +kernel

/-- The text is read as the lines, and the label leads to the last of the two lines that carry
it. -/
theorem lines_written_loopText :
    (Source.lines loopText).map (fun line => Line.decode (Text.wordsOf line)) =
        loopLines.map .ok ∧
      (Program.ofLines "root" (Source.lines loopText)).label? "loop" = some 2 := by
  obtain ⟨hdecode, hlabels⟩ := lines_written written_loopText writable_loopLines (by decide)
  refine ⟨hdecode, (hlabels "root" "loop" 2).2 ⟨⟨_, rfl, rfl⟩, ?_⟩⟩
  intro j line hlt hline
  rw [List.getElem?_eq_none (Nat.succ_le_of_lt hlt)] at hline
  cases hline

end Source

end AccMachine
