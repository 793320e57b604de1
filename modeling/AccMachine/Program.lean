/-
**Programs.**

A program is a list of lines together with the reference it was loaded under.  A label names the
last line that carries it; the labels are resolved once, when the program is made, so that jumps
need not search.

Main definitions:

* `Program.resolve` — the label table of a list of lines;
* `Program` — lines, reference and resolved labels;
* `Program.line?`, `Program.label?` — the line at an index, and the index of a label.

Main results:

* `Program.find?_resolve` — the table gives a label the index of the last line that carries it;
* `Program.label?_eq_some_iff` — a label leads to the last line that carries it, and to no other;
* `Program.label?_lt` — a label leads to a line of the program.
-/

import AccMachine.Line
import AccMachine.Table

set_option relaxedAutoImplicit false
set_option autoImplicit false

namespace AccMachine

namespace Program

/-! ### Labels -/

/-- Adds the labels of lines that begin at index `i`, a later line overruling an earlier one. -/
def resolveFrom (i : Nat) (table : Table Nat) : List String → Table Nat
  | [] => table
  | text :: rest =>
    match Line.labelOf? text with
    | some label => resolveFrom (i + 1) (table.put label i) rest
    | none => resolveFrom (i + 1) table rest

/-- The labels of a list of lines, each with the index of the last line that carries it. -/
def resolve (lines : List String) : Table Nat := resolveFrom 0 Table.empty lines

/-- The index of the last of the lines that carries the label, counted from `i`. -/
def lastCarrier? (i : Nat) (label : String) : List String → Option Nat
  | [] => none
  | text :: rest =>
    match lastCarrier? (i + 1) label rest with
    | some j => some j
    | none => if Line.labelOf? text = some label then some i else none

theorem find?_resolveFrom (i : Nat) (table : Table Nat) (lines : List String) (label : String) :
    (resolveFrom i table lines).find? label
      = (lastCarrier? i label lines).or (table.find? label) := by
  induction lines generalizing i table with
  | nil => simp [resolveFrom, lastCarrier?]
  | cons text rest ih =>
    unfold resolveFrom lastCarrier?
    cases hl : Line.labelOf? text with
    | none =>
      simp only [ih, reduceCtorEq, if_false]
      cases lastCarrier? (i + 1) label rest <;> rfl
    | some l =>
      simp only [ih, Table.find?_put]
      cases lastCarrier? (i + 1) label rest with
      | some j => rfl
      | none => by_cases h : l = label <;> simp [h]

/-- The table gives a label the index of the last line that carries it. -/
theorem find?_resolve (lines : List String) (label : String) :
    (resolve lines).find? label = lastCarrier? 0 label lines := by
  simp [resolve, find?_resolveFrom]

theorem lastCarrier?_lt {i j : Nat} {label : String} {lines : List String}
    (h : lastCarrier? i label lines = some j) : j < i + lines.length := by
  induction lines generalizing i with
  | nil => cases h
  | cons text rest ih =>
    unfold lastCarrier? at h
    split at h
    · next k hk =>
      obtain rfl := Option.some.inj h
      have := ih hk
      simp only [List.length_cons]
      omega
    · split at h
      · obtain rfl := Option.some.inj h
        simp
      · cases h

/-- The line at the index that is found carries the label. -/
theorem lastCarrier?_carries {i j : Nat} {label : String} {lines : List String}
    (h : lastCarrier? i label lines = some j) :
    ∃ n text, j = i + n ∧ lines[n]? = some text ∧ Line.labelOf? text = some label := by
  induction lines generalizing i with
  | nil => cases h
  | cons text rest ih =>
    unfold lastCarrier? at h
    split at h
    · next k hk =>
      obtain rfl := Option.some.inj h
      obtain ⟨n, text', rfl, htext, hlabel⟩ := ih hk
      exact ⟨n + 1, text', by omega, by rw [List.getElem?_cons_succ, htext], hlabel⟩
    · split at h
      · next hlabel =>
        obtain rfl := Option.some.inj h
        exact ⟨0, text, rfl, rfl, hlabel⟩
      · cases h

/-- No line behind the index that is found carries the label. -/
theorem exists_lastCarrier? {i n : Nat} {label text : String} {lines : List String}
    (htext : lines[n]? = some text) (hlabel : Line.labelOf? text = some label) :
    ∃ j, lastCarrier? i label lines = some j ∧ i + n ≤ j := by
  induction lines generalizing i n with
  | nil => cases htext
  | cons first rest ih =>
    unfold lastCarrier?
    cases n with
    | zero =>
      obtain rfl := Option.some.inj htext
      split
      · next k hk =>
        obtain ⟨m, _, rfl, -⟩ := lastCarrier?_carries hk
        exact ⟨_, rfl, by omega⟩
      · exact ⟨i, if_pos hlabel, Nat.le_refl i⟩
    | succ n =>
      rw [List.getElem?_cons_succ] at htext
      obtain ⟨j, hj, hle⟩ := @ih (i + 1) n htext
      rw [hj]
      exact ⟨j, rfl, by omega⟩

end Program

/-! ### Programs -/

/-- Lines under a reference, with their labels resolved. -/
structure Program where
  reference : String
  lines : List String
  labels : Table Nat := Program.resolve lines
  labels_eq : labels = Program.resolve lines := by rfl

namespace Program

/-- The program of the given lines. -/
def ofLines (reference : String) (lines : List String) : Program where
  reference := reference
  lines := lines

instance : Inhabited Program := ⟨ofLines "" []⟩

/-- The number of lines. -/
def size (p : Program) : Nat := p.lines.length

/-- The line at an index, if there is one. -/
def line? (p : Program) (i : Nat) : Option String := p.lines[i]?

/-- The index that a label names, if it is one of the program. -/
def label? (p : Program) (label : String) : Option Nat := p.labels.find? label

/-- A label names the last line that carries it. -/
theorem label?_eq (p : Program) (label : String) :
    p.label? label = lastCarrier? 0 label p.lines := by
  rw [label?, p.labels_eq, find?_resolve]

/-- A label leads to a line exactly if this carries it and no later line does. -/
theorem label?_eq_some_iff {p : Program} {label : String} {i : Nat} :
    p.label? label = some i ↔
      (∃ text, p.line? i = some text ∧ Line.labelOf? text = some label) ∧
        ∀ j text, i < j → p.line? j = some text → Line.labelOf? text ≠ some label := by
  rw [label?_eq]
  constructor
  · intro h
    obtain ⟨n, text, rfl, htext, hlabel⟩ := lastCarrier?_carries h
    rw [Nat.zero_add] at h ⊢
    refine ⟨⟨text, htext, hlabel⟩, fun j later hlt hlater hcarries => ?_⟩
    obtain ⟨k, hk, hle⟩ := exists_lastCarrier? (i := 0) hlater hcarries
    rw [h] at hk
    obtain rfl := Option.some.inj hk
    omega
  · rintro ⟨⟨text, htext, hlabel⟩, hlast⟩
    obtain ⟨j, hj, hle⟩ := exists_lastCarrier? (i := 0) htext hlabel
    obtain ⟨n, later, rfl, hlater, hcarries⟩ := lastCarrier?_carries hj
    -- A carrier behind `i` would contradict that `i` is the last one.
    have heq : n = i := Nat.le_antisymm
      (Nat.not_lt.1 fun hlt => hlast n later hlt hlater hcarries) (by omega)
    rw [hj, heq, Nat.zero_add]

/-- A label leads to a line of the program. -/
theorem label?_lt {p : Program} {label : String} {i : Nat} (h : p.label? label = some i) :
    i < p.size := by
  rw [label?_eq] at h
  have := lastCarrier?_lt h
  simp only [size]
  omega

end Program

end AccMachine
