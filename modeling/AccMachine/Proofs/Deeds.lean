/-
**What the machines of a run have done.**

A run is a history: line after line was executed by one machine or another.  This module keeps that
history.  What a machine did is told by its place in the tree, the line on which it stood and the
accumulator that it had; nothing else about the machine is needed to say which slot it stored, and
with which value, or which subroutine it declared.

Main definitions:

* `Line.operandOf?` — the operand of a line with a given mnemonic;
* `Deed` — what a machine did on a line;
* `Deed.stored?`, `Deed.declared?` — the slot that it stored, and the place of the subroutine that
  it declared;
* `Chain.Passes` — the chains that a run reaches, with the moments that it went through before;
* `deedsOf` — what was done at these moments.

Main results:

* `Line.operandOf?_eq_some_iff` — which lines have an operand with the mnemonic;
* `Chain.Reaches.passes` — a run that comes to a chain went through certain moments before.
-/

import AccMachine.Proofs.TreeInvariant

set_option relaxedAutoImplicit false
set_option autoImplicit false

namespace AccMachine

/-! ### Lines with a given mnemonic -/

/-- The operand of the instruction on a line of text, if it is the instruction of that name. -/
def Line.operandOf? (mnemonic : Mnemonic) (text : String) : Option String :=
  match decode (Text.wordsOf text) with
  | .ok (.instruction i) => if i.mnemonic = mnemonic then i.operand else none
  | _ => none

theorem Line.operandOf?_of_instruction {text : String} {i : Instruction}
    (h : decode (Text.wordsOf text) = .ok (.instruction i)) (mnemonic : Mnemonic) :
    operandOf? mnemonic text = if i.mnemonic = mnemonic then i.operand else none := by
  simp only [operandOf?, h]

theorem Line.operandOf?_of_pass {text : String}
    (h : decode (Text.wordsOf text) = .ok .blank ∨
      ∃ label, decode (Text.wordsOf text) = .ok (.anchor label)) (mnemonic : Mnemonic) :
    operandOf? mnemonic text = none := by
  rcases h with h | ⟨label, h⟩ <;> simp only [operandOf?, h]

/-- A line has the operand behind the mnemonic exactly if it is that instruction, with or without a
label. -/
theorem Line.operandOf?_eq_some_iff {mnemonic : Mnemonic} {text operand : String} :
    operandOf? mnemonic text = some operand ↔
      ∃ label, decode (Text.wordsOf text) = .ok (.instruction ⟨label, mnemonic, some operand⟩) := by
  constructor
  · intro h
    unfold operandOf? at h
    split at h
    · next i hd =>
        obtain ⟨label, mnemonic', operand?⟩ := i
        split at h
        · next hm =>
            cases hm
            obtain rfl : operand? = some operand := h
            exact ⟨label, hd⟩
        · cases h
    · cases h
  · rintro ⟨label, hd⟩
    rw [operandOf?_of_instruction hd, if_pos rfl]

/-! ### Deeds -/

/-- What a machine did on a line: the path that leads to the machine, the text of the line, and the
accumulator that it had then. -/
structure Deed where
  path : List String
  text : String
  accumulator : Int64
  deriving DecidableEq, Repr

namespace Deed

/-- The slot that was stored. -/
def stored? (d : Deed) : Option String := Line.operandOf? .store d.text

/-- The path to the subroutine that was declared. -/
def declared? (d : Deed) : Option (List String) :=
  (Line.operandOf? .declare d.text).map fun name => d.path ++ [name]

end Deed

namespace Chain

/-- What the active machine of a chain is about to do. -/
def deed (c : Chain) : Deed where
  path := pathOf c.callers
  text := c.active.currentLine?.getD ""
  accumulator := c.active.accumulator

theorem deed_text {c : Chain} {text : String} (h : c.active.currentLine? = some text) :
    c.deed.text = text := by
  simp only [deed, h, Option.getD_some]

/-! ### The past of a run -/

variable {κ : Type} [Console κ]

/-- `Passes c s passed c' s'`: a run that is at the chain `c` in the session `s` comes to the chain
`c'` in the session `s'`, and takes a step at each of the moments `passed` on its way, in that
order. -/
inductive Passes (c : Chain) (s : Session κ) :
    List (Chain × Session κ) → Chain → Session κ → Prop
  | refl : Passes c s [] c s
  | tail {passed : List (Chain × Session κ)} {c₁ c₂ : Chain} {s₁ s₂ : Session κ}
      (h : Passes c s passed c₁ s₁) (hs : c₁.step s₁ = (.running c₂, s₂)) :
      Passes c s (passed ++ [(c₁, s₁)]) c₂ s₂

theorem Passes.reaches {c c' : Chain} {s s' : Session κ} {passed : List (Chain × Session κ)}
    (h : Passes c s passed c' s') : Reaches c s c' s' := by
  induction h with
  | refl => exact .refl
  | tail _ hs ih => exact ih.tail hs

/-- A run that comes to a chain went through certain moments before. -/
theorem Reaches.passes {c c' : Chain} {s s' : Session κ} (h : Reaches c s c' s') :
    ∃ passed, Passes c s passed c' s' := by
  induction h with
  | refl => exact ⟨[], .refl⟩
  | tail _ hs ih =>
      obtain ⟨passed, hpassed⟩ := ih
      exact ⟨_, hpassed.tail hs⟩

end Chain

/-- What was done at the moments that a run went through. -/
def deedsOf {κ : Type} (passed : List (Chain × Session κ)) : List Deed :=
  passed.map fun moment => moment.1.deed

theorem deedsOf_concat {κ : Type} (passed : List (Chain × Session κ)) (c : Chain)
    (s : Session κ) : deedsOf (passed ++ [(c, s)]) = deedsOf passed ++ [c.deed] :=
  List.map_append

end AccMachine
