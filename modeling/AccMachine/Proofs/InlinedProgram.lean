/-
**Inlining a subroutine in a program.**

A program that declares a subroutine on its first line can do without it when the subroutine's
lines are put in place of every call: the first line is left blank, and a label on a call stays
behind on a line of its own.  This module says what the new program looks like: where the lines of
the old one have gone, and that a label leads to the place of the line that it led to before.

Main definitions:

* `Program.inlineLine`, `Program.inline` — a line, and a program, with the calls inlined;
* `Program.place` — where a line has gone;
* `Line.UsedIn` — the slots that lines name;
* `Program.Inlinable` — a program that declares a subroutine once, on its first line, and shares no
  slot with its lines.

Main results:

* `Program.inlineLine_cases` — a line is a call or stays as it is;
* `Program.line?_inline` — the lines of the new program;
* `Program.label?_inline` — **labels lead to the places of their lines**.
-/

import AccMachine.Proofs.Parallel
import AccMachine.Proofs.SourceText

set_option relaxedAutoImplicit false
set_option autoImplicit false

namespace AccMachine

namespace Line

/-! ### Labels of lines that can be read -/

/-- The label of a line of text stands alone on a line as an anchor. -/
theorem decode_label {text label : String} {mnemonic : Mnemonic} {operand : Option String}
    (h : decode (Text.wordsOf text) = .ok (.instruction ⟨some label, mnemonic, operand⟩)) :
    decode (Text.wordsOf label) = .ok (.anchor label) := by
  have hmem : label ∈ Text.wordsOf text := by
    rw [← tokens_of_decode h]
    exact List.mem_cons_self
  have hword : Text.IsWord label := by
    obtain ⟨w, hw, rfl⟩ := List.mem_map.1 hmem
    obtain ⟨hne, hblank⟩ := Text.mem_words hw
    constructor
    · intro hempty
      exact hne (by rw [← String.toList_ofList (l := w), hempty]; rfl)
    · rwa [String.toList_ofList]
  have hlabel : Mnemonic.ofText? label = none := wellLabelled_of_decode h label rfl
  rw [Text.wordsOf_word hword]
  simp [decode, hlabel]

theorem Computes.labelOf? {text : String} (h : Computes text) : labelOf? text = none := by
  rcases h with h | ⟨mnemonic, operand, -, -, h⟩
  · exact labelOf?_of_decode h
  · exact labelOf?_of_decode h

/-- One of the lines names the slot. -/
def UsedIn (lines : List String) (key : String) : Prop := ∃ text ∈ lines, slotOf? text = some key

/-- The slots that lines name can be listed. -/
theorem usedIn_iff_mem {lines : List String} {key : String} :
    UsedIn lines key ↔ key ∈ lines.filterMap slotOf? := List.mem_filterMap.symm

end Line

namespace Program

/-! ### Inlining -/

/-- The lines that take the place of a line: those of `body`, behind the label if there is one, if
the line calls the subroutine of that name, and otherwise the line itself. -/
def inlineLine (name : String) (body : List String) (text : String) : List String :=
  match Line.decode (Text.wordsOf text) with
  | .ok (.instruction ⟨label, .run, some operand⟩) =>
    if operand = name then label.toList ++ body else [text]
  | _ => [text]

/-- The program with its first line left blank, and `body` in place of every call of the subroutine
of that name. -/
def inline (p : Program) (name : String) (body : List String) : Program :=
  .ofLines p.reference ("" :: p.lines.tail.flatMap (inlineLine name body))

variable {name : String} {body : List String}

theorem inlineLine_of_call {text : String} {label : Option String}
    (h : Line.decode (Text.wordsOf text) = .ok (.instruction ⟨label, .run, some name⟩)) :
    inlineLine name body text = label.toList ++ body := by
  simp only [inlineLine, h, if_true]

/-- A line is a call of the subroutine, or stays as it is. -/
theorem inlineLine_cases (name : String) (body : List String) (text : String) :
    (∃ label, Line.decode (Text.wordsOf text) = .ok (.instruction ⟨label, .run, some name⟩)) ∨
      ((∀ label, Line.decode (Text.wordsOf text) ≠ .ok (.instruction ⟨label, .run, some name⟩)) ∧
        inlineLine name body text = [text]) := by
  unfold inlineLine
  split
  · next label operand hd =>
    by_cases hname : operand = name
    · exact Or.inl ⟨label, hname ▸ hd⟩
    · refine Or.inr ⟨?_, if_neg hname⟩
      intro label' hd'
      rw [hd] at hd'
      cases hd'
      exact hname rfl
  · next hother =>
    exact Or.inr ⟨fun label hd => hother label name hd, rfl⟩

/-! ### Where the lines have gone -/

/-- The index of the first of the lines that have taken the place of a line, given by its index
behind the first line. -/
def place (name : String) (body rest : List String) (k : Nat) : Nat :=
  1 + ((rest.take k).flatMap (inlineLine name body)).length

variable {rest : List String}

theorem place_succ {k : Nat} {text : String} (h : rest[k]? = some text) :
    place name body rest (k + 1) = place name body rest k + (inlineLine name body text).length := by
  rw [place, place, List.take_add_one, h]
  simp only [Option.toList_some, List.flatMap_append, List.flatMap_cons, List.flatMap_nil,
    List.append_nil, List.length_append]
  omega

/-- The lines that have taken the place of a line stand there in order. -/
theorem line?_place {k j : Nat} {text : String} (h : rest[k]? = some text)
    (hj : j < (inlineLine name body text).length) :
    ("" :: rest.flatMap (inlineLine name body))[place name body rest k + j]? =
      (inlineLine name body text)[j]? := by
  obtain ⟨hk, htext⟩ := List.getElem?_eq_some_iff.1 h
  have hsplit : rest.flatMap (inlineLine name body) =
      (rest.take k).flatMap (inlineLine name body) ++
        (inlineLine name body text ++ (rest.drop (k + 1)).flatMap (inlineLine name body)) := by
    rw [← List.flatMap_cons, ← htext, ← List.drop_eq_getElem_cons hk, ← List.flatMap_append,
      List.take_append_drop]
  rw [place, Nat.add_comm 1, Nat.add_right_comm, List.getElem?_cons_succ, hsplit,
    List.getElem?_append_right (Nat.le_add_right _ _), Nat.add_sub_cancel_left,
    List.getElem?_append_left hj]

/-- Behind the last place are no more lines. -/
theorem line?_place_length :
    ("" :: rest.flatMap (inlineLine name body))[place name body rest rest.length]? = none := by
  rw [List.getElem?_eq_none_iff, place, List.take_length, List.length_cons]
  omega

/-! ### Labels -/

theorem lastCarrier?_append (i : Nat) (label : String) (lines lines' : List String) :
    lastCarrier? i label (lines ++ lines') =
      (lastCarrier? (i + lines.length) label lines').or (lastCarrier? i label lines) := by
  induction lines generalizing i with
  | nil => simp [lastCarrier?]
  | cons text lines ih =>
      have hlength : i + (text :: lines).length = i + 1 + lines.length := by
        rw [List.length_cons]
        omega
      rw [List.cons_append, hlength]
      simp only [lastCarrier?, ih]
      cases lastCarrier? (i + 1 + lines.length) label lines' <;> rfl

/-- Counting from another index moves the carriers along. -/
theorem lastCarrier?_add (i j : Nat) (label : String) (lines : List String) :
    lastCarrier? (i + j) label lines = (lastCarrier? i label lines).map (· + j) := by
  induction lines generalizing i with
  | nil => rfl
  | cons text lines ih =>
      have hnext : lastCarrier? (i + j + 1) label lines =
          (lastCarrier? (i + 1) label lines).map (· + j) := by
        rw [Nat.add_right_comm, ih]
      simp only [lastCarrier?, hnext]
      cases lastCarrier? (i + 1) label lines with
      | some k => rfl
      | none => by_cases h : Line.labelOf? text = some label <;> simp [h]

/-- Lines without labels carry none. -/
theorem lastCarrier?_eq_none {lines : List String} (h : ∀ text ∈ lines, Line.labelOf? text = none)
    (i : Nat) (label : String) : lastCarrier? i label lines = none := by
  induction lines generalizing i with
  | nil => rfl
  | cons text lines ih =>
      have htext : Line.labelOf? text = none := h text List.mem_cons_self
      have hlines : lastCarrier? (i + 1) label lines = none :=
        ih (fun text' htext' => h text' (List.mem_cons_of_mem _ htext')) (i + 1)
      simp [lastCarrier?, htext, hlines]

/-- Of the lines that take the place of a line, the first one carries its label. -/
theorem lastCarrier?_inlineLine (hbody : ∀ text ∈ body, Line.labelOf? text = none) (i : Nat)
    (label text : String) :
    lastCarrier? i label (inlineLine name body text) =
      if Line.labelOf? text = some label then some i else none := by
  rcases inlineLine_cases name body text with ⟨label?, hd⟩ | ⟨-, hline⟩
  · have hlabel : Line.labelOf? text = label? := Line.labelOf?_of_decode hd
    rw [inlineLine_of_call hd, lastCarrier?_append, lastCarrier?_eq_none hbody, hlabel]
    cases label? with
    | none => rfl
    | some label' =>
        have hanchor : Line.labelOf? label' = some label' :=
          Line.labelOf?_of_decode (Line.decode_label hd)
        simp [lastCarrier?, hanchor]
  · rw [hline]
    rfl

/-- A label is carried by the first line in the place of the line that carried it. -/
theorem lastCarrier?_flatMap (hbody : ∀ text ∈ body, Line.labelOf? text = none) (label : String)
    (rest : List String) (i : Nat) :
    lastCarrier? i label (rest.flatMap (inlineLine name body)) =
      (lastCarrier? 0 label rest).map
        fun k => i + ((rest.take k).flatMap (inlineLine name body)).length := by
  induction rest generalizing i with
  | nil => rfl
  | cons text rest ih =>
      have hnext : lastCarrier? 1 label rest = (lastCarrier? 0 label rest).map (· + 1) := by
        simpa using lastCarrier?_add 0 1 label rest
      rw [List.flatMap_cons, lastCarrier?_append, ih, lastCarrier?_inlineLine hbody]
      simp only [lastCarrier?, Nat.zero_add, hnext]
      cases lastCarrier? 0 label rest with
      | some k => simp [Nat.add_assoc]
      | none => by_cases h : Line.labelOf? text = some label <;> simp [h]

/-! ### Programs that can do without a subroutine -/

/-- The program declares the subroutine on its first line and on no other, and shares no slot with
`body`, whose lines only compute. -/
structure Inlinable (p : Program) (name : String) (body : List String) : Prop where
  declares : ∃ first, p.lines.head? = some first ∧
    Line.decode (Text.wordsOf first) = .ok (.instruction ⟨none, .declare, some name⟩)
  once : ∀ text ∈ p.lines.tail, ∀ label,
    Line.decode (Text.wordsOf text) ≠ .ok (.instruction ⟨label, .declare, some name⟩)
  computes : ∀ text ∈ body, Line.Computes text
  apart : ∀ key, Line.UsedIn p.lines key → ¬ Line.UsedIn body key

variable {p : Program}

theorem Inlinable.lines (h : p.Inlinable name body) : ∃ first, p.lines = first :: p.lines.tail ∧
    Line.decode (Text.wordsOf first) = .ok (.instruction ⟨none, .declare, some name⟩) := by
  obtain ⟨first, hfirst, hd⟩ := h.declares
  refine ⟨first, ?_, hd⟩
  rw [← List.cons_head?_tail hfirst]
  rfl

/-- The first line carries no label, so the labels are those of the lines behind it. -/
theorem label?_of_inlinable (h : p.Inlinable name body) (label : String) :
    p.label? label = (lastCarrier? 0 label p.lines.tail).map (· + 1) := by
  obtain ⟨first, hlines, hd⟩ := h.lines
  have hfirst : Line.labelOf? first = none := Line.labelOf?_of_decode hd
  have hnext : lastCarrier? 1 label p.lines.tail =
      (lastCarrier? 0 label p.lines.tail).map (· + 1) := by
    simpa using lastCarrier?_add 0 1 label p.lines.tail
  rw [label?_eq, hlines]
  simp only [lastCarrier?, List.tail_cons, hnext, hfirst]
  cases lastCarrier? 0 label p.lines.tail <;> rfl

/-- **Labels lead to the places of their lines.** -/
theorem label?_inline (h : p.Inlinable name body) (label : String) :
    (p.inline name body).label? label =
      (p.label? label).map fun target => place name body p.lines.tail (target - 1) := by
  have hbody : ∀ text ∈ body, Line.labelOf? text = none :=
    fun text ht => (h.computes text ht).labelOf?
  have hblank : Line.labelOf? "" = none := rfl
  have hnew : (p.inline name body).label? label = (lastCarrier? 0 label p.lines.tail).map
      (place name body p.lines.tail) := by
    rw [label?_eq]
    change lastCarrier? 0 label ("" :: p.lines.tail.flatMap (inlineLine name body)) = _
    simp only [lastCarrier?, hblank, lastCarrier?_flatMap hbody]
    cases lastCarrier? 0 label p.lines.tail <;> rfl
  rw [hnew, label?_of_inlinable h, Option.map_map]
  rfl

/-- A label leads behind the first line. -/
theorem exists_of_label? (h : p.Inlinable name body) {label : String} {target : Nat}
    (ht : p.label? label = some target) : ∃ k, target = k + 1 ∧ k < p.lines.tail.length := by
  rw [label?_of_inlinable h] at ht
  obtain ⟨k, hk, rfl⟩ := Option.map_eq_some_iff.1 ht
  exact ⟨k, rfl, by simpa using lastCarrier?_lt hk⟩

end Program

end AccMachine
