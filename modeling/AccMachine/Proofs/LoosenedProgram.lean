/-
**Programs with a looser layout.**

A program may be laid out more loosely: a blank line may stand between two of its lines, or a label
may get a line of its own, in front of the line that it named.  Either way the program has one line
more, and that line does nothing.  All other lines do what they did before, behind it under an index
that is one higher, and every label leads to the line that it led to, or to the idle line right
before it.

Main definitions:

* `Line.doing?` — what a line of text does, apart from its label;
* `Program.origin`, `Program.moved` — the indices of the lines in the one program and in the other;
* `Program.Loosened` — the second program is laid out more loosely at an index;
* `Program.Stretched` — what the two programs have in common.

Main results:

* `Machine.obeyWords_eq` — what a machine does on a line depends on nothing else of its text;
* `Program.Loosened.stretched` — **a looser layout adds a line that does nothing**, and moves the
  others along with their labels.
-/

import AccMachine.Proofs.InlinedProgram

set_option relaxedAutoImplicit false
set_option autoImplicit false

namespace AccMachine

/-! ### What lines do -/

/-- The mnemonic and the operand of a line of text, if it has an instruction. -/
def Line.doing? (text : String) : Except Line.Flaw (Option (Mnemonic × Option String)) :=
  (decode (Text.wordsOf text)).map fun line =>
    match line with
    | .blank => none
    | .anchor _ => none
    | .instruction i => some (i.mnemonic, i.operand)

/-- What a machine does on a line depends on nothing else of its text. -/
theorem Machine.obeyWords_eq (m : Machine) (text : String) :
    m.obeyWords (Text.wordsOf text) =
      match Line.doing? text with
      | .error flaw => .fail (.line flaw)
      | .ok none => .done (m, .next)
      | .ok (some (mnemonic, operand)) => m.obey ⟨none, mnemonic, operand⟩ := by
  unfold Line.doing?; rw [obeyWords_def]
  rcases Line.decode (Text.wordsOf text) with flaw | _ | label | i <;> rfl

/-- A machine does the same on lines that have the same instruction. -/
theorem Machine.obeyWords_congr (m : Machine) {text text' : String}
    (h : Line.doing? text' = Line.doing? text) :
    m.obeyWords (Text.wordsOf text') = m.obeyWords (Text.wordsOf text) := by
  rw [obeyWords_eq, obeyWords_eq, h]

namespace Program

/-! ### Indices -/

/-- The index, in the program without the idle line at `k`, of the line with index `j` in the
program that has it.  The idle line itself counts as the line behind it. -/
def origin (k j : Nat) : Nat := if j ≤ k then j else j - 1

/-- The index, in the program with the idle line at `k`, of the line with index `i` in the program
without it. -/
def moved (k i : Nat) : Nat := if i < k then i else i + 1

theorem origin_of_le {k j : Nat} (h : j ≤ k) : origin k j = j := if_pos h

theorem origin_succ_of_le {k j : Nat} (h : k ≤ j) : origin k (j + 1) = j := by
  rw [origin, if_neg (by omega), Nat.add_sub_cancel]

/-- Except behind the idle line, the next line is the next line in both programs. -/
theorem origin_succ_iff {k j : Nat} : origin k (j + 1) = origin k j + 1 ↔ j ≠ k := by
  unfold origin
  split <;> split <;> omega

theorem moved_origin {k j : Nat} (h : j ≠ k) : moved k (origin k j) = j := by
  unfold moved origin
  split <;> split <;> omega

/-! ### Looser layouts -/

/-- The program `p'` is `p`, laid out more loosely at the index `k`. -/
inductive Loosened (k : Nat) (p p' : Program) : Prop
  /-- A blank line was put in. -/
  | blank {text : String} (reference : p'.reference = p.reference) (bound : k ≤ p.size)
      (words : Text.wordsOf text = [])
      (lines : p'.lines = p.lines.take k ++ text :: p.lines.drop k)
  /-- The label of an instruction got a line of its own. -/
  | anchored {text anchor bare label : String} {mnemonic : Mnemonic} {operand : Option String}
      (reference : p'.reference = p.reference) (line : p.line? k = some text)
      (decoded : Line.decode (Text.wordsOf text) =
        .ok (.instruction ⟨some label, mnemonic, operand⟩))
      (anchorWords : Text.wordsOf anchor = [label])
      (bareWords : Text.wordsOf bare = Instruction.tokens ⟨none, mnemonic, operand⟩)
      (lines : p'.lines = p.lines.take k ++ anchor :: bare :: p.lines.drop (k + 1))

/-- The program `p'` has the lines of `p` and an idle one at the index `k`. -/
structure Stretched (k : Nat) (p p' : Program) : Prop where
  reference : p'.reference = p.reference
  idle : ∃ text, p'.line? k = some text ∧ Line.doing? text = .ok none
  lines : ∀ j, j ≠ k → (p'.line? j).map Line.doing? = (p.line? (origin k j)).map Line.doing?
  labels : ∀ label, p.label? label = (p'.label? label).map (origin k)

/-! ### The labels -/

/-- Labels in front of the idle line stay where they are. -/
theorem lastCarrier?_front {k : Nat} {lines : List String} (h : lines.length ≤ k)
    (label : String) :
    (lastCarrier? 0 label lines).map (origin k) = lastCarrier? 0 label lines := by
  cases hj : lastCarrier? 0 label lines with
  | none => rfl
  | some j =>
      have hlt := lastCarrier?_lt hj
      rw [Option.map_some, origin_of_le (by omega)]

/-- Labels behind the idle line move along. -/
theorem lastCarrier?_back {k i : Nat} (h : k ≤ i) (label : String) (lines : List String) :
    (lastCarrier? (i + 1) label lines).map (origin k) = lastCarrier? i label lines := by
  rw [lastCarrier?_add, Option.map_map]
  cases hj : lastCarrier? i label lines with
  | none => rfl
  | some j =>
      obtain ⟨n, -, rfl, -⟩ := lastCarrier?_carries hj
      rw [Option.map_some, Function.comp_apply, origin_succ_of_le (by omega)]

/-! ### Looser layouts are stretched -/

variable {k : Nat} {p p' : Program}

theorem stretched_of_blank {text : String} (hr : p'.reference = p.reference) (hk : k ≤ p.size)
    (hw : Text.wordsOf text = [])
    (hl : p'.lines = p.lines.take k ++ text :: p.lines.drop k) : Stretched k p p' := by
  have hlength : (p.lines.take k).length = k := List.length_take_of_le hk
  have hdecode : Line.decode (Text.wordsOf text) = .ok .blank := by rw [hw]; rfl
  refine ⟨hr, ⟨text, ?_, ?_⟩, ?_, ?_⟩
  · rw [line?, hl, List.getElem?_append_right (by omega), hlength, Nat.sub_self]
    rfl
  · rw [Line.doing?, hdecode]
    rfl
  · intro j hj
    rw [line?, line?, hl]
    rcases Nat.lt_or_ge j k with hlt | hge
    · rw [List.getElem?_append_left (by omega), List.getElem?_take_of_lt hlt,
        origin_of_le (by omega)]
    · obtain ⟨d, rfl⟩ := Nat.exists_eq_add_of_lt (Nat.lt_of_le_of_ne hge (Ne.symm hj))
      rw [List.getElem?_append_right (by omega), hlength, origin_succ_of_le (by omega)]
      rw [show k + d + 1 - k = d + 1 by omega, List.getElem?_cons_succ, List.getElem?_drop]
  · intro label
    have hnone : Line.labelOf? text = none := Line.labelOf?_of_decode hdecode
    rw [label?_eq, label?_eq, hl]
    conv_lhs => rw [← List.take_append_drop k p.lines]
    rw [lastCarrier?_append, lastCarrier?_append, hlength, Nat.zero_add, Option.map_or,
      lastCarrier?_front (by omega)]
    congr 1
    simp only [lastCarrier?, hnone, reduceCtorEq, if_false]
    rw [← lastCarrier?_back (Nat.le_refl k)]
    cases lastCarrier? (k + 1) label (p.lines.drop k) <;> rfl

theorem stretched_of_anchored {text anchor bare label : String} {mnemonic : Mnemonic}
    {operand : Option String} (hr : p'.reference = p.reference) (hline : p.line? k = some text)
    (hd : Line.decode (Text.wordsOf text) = .ok (.instruction ⟨some label, mnemonic, operand⟩))
    (ha : Text.wordsOf anchor = [label])
    (hb : Text.wordsOf bare = Instruction.tokens ⟨none, mnemonic, operand⟩)
    (hl : p'.lines = p.lines.take k ++ anchor :: bare :: p.lines.drop (k + 1)) :
    Stretched k p p' := by
  have hk : k < p.lines.length := (List.getElem?_eq_some_iff.1 hline).1
  have hlength : (p.lines.take k).length = k := List.length_take_of_le (Nat.le_of_lt hk)
  have hanchor : Line.decode (Text.wordsOf anchor) = .ok (.anchor label) := by
    have hwell : (Line.anchor label).WellLabelled := fun label' hlabel =>
      Line.wellLabelled_of_decode hd label' hlabel
    rw [ha]
    exact Line.decode_tokens hwell
  have hbare : Line.decode (Text.wordsOf bare) =
      .ok (.instruction ⟨none, mnemonic, operand⟩) := by
    have hwell : (Line.instruction ⟨none, mnemonic, operand⟩).WellLabelled := nofun
    rw [hb]
    exact Line.decode_tokens hwell
  have hdrop : p.lines.drop k = text :: p.lines.drop (k + 1) := by
    rw [line?] at hline
    rw [List.drop_eq_getElem_cons hk, ← (List.getElem?_eq_some_iff.1 hline).2]
  refine ⟨hr, ⟨anchor, ?_, ?_⟩, ?_, ?_⟩
  · rw [line?, hl, List.getElem?_append_right (by omega), hlength, Nat.sub_self]
    rfl
  · rw [Line.doing?, hanchor]
    rfl
  · intro j hj
    rcases Nat.lt_or_ge j k with hlt | hge
    · rw [line?, line?, hl, List.getElem?_append_left (by omega), List.getElem?_take_of_lt hlt,
        origin_of_le (by omega)]
    · obtain ⟨d, rfl⟩ := Nat.exists_eq_add_of_lt (Nat.lt_of_le_of_ne hge (Ne.symm hj))
      rw [line?, hl, List.getElem?_append_right (by omega), hlength, origin_succ_of_le (by omega)]
      rw [show k + d + 1 - k = d + 1 by omega, List.getElem?_cons_succ]
      cases d with
      | zero =>
          simp only [Nat.add_zero, hline, List.getElem?_cons_zero, Option.map_some, Line.doing?,
            hbare, hd]
          rfl
      | succ d =>
          rw [List.getElem?_cons_succ, List.getElem?_drop, line?]
          congr 2
          omega
  · intro label'
    have hlabel : Line.labelOf? text = some label := Line.labelOf?_of_decode hd
    have hlabel' : Line.labelOf? anchor = some label := Line.labelOf?_of_decode hanchor
    have hnone : Line.labelOf? bare = none := Line.labelOf?_of_decode hbare
    rw [label?_eq, label?_eq, hl]
    conv_lhs => rw [← List.take_append_drop k p.lines, hdrop]
    rw [lastCarrier?_append, lastCarrier?_append, hlength, Nat.zero_add, Option.map_or,
      lastCarrier?_front (by omega)]
    congr 1
    -- The label of the line is now one of the line before it.
    simp only [lastCarrier?, hnone, hlabel, hlabel', reduceCtorEq, if_false]
    rw [← lastCarrier?_back (Nat.le_succ k)]
    cases lastCarrier? (k + 1 + 1) label' (p.lines.drop (k + 1)) with
    | some j => rfl
    | none =>
        by_cases heq : some label = some label'
        · simp only [Option.map_none, if_pos heq, Option.map_some, origin_of_le (Nat.le_refl k)]
        · simp only [Option.map_none, if_neg heq]

/-- **A looser layout adds a line that does nothing**, and moves the others along. -/
theorem Loosened.stretched (h : Loosened k p p') : Stretched k p p' := by
  cases h with
  | blank hr hk hw hl => exact stretched_of_blank hr hk hw hl
  | anchored hr hline hd ha hb hl => exact stretched_of_anchored hr hline hd ha hb hl

end Program

end AccMachine
