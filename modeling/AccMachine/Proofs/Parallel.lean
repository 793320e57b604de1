/-
**Two machines on the same line.**

What a line does depends on little of the machine that executes it: the accumulator, the slot that
the line names, and for some instructions the labels or the subroutines.  Two machines that have
these in common take the same turns in their dialogues, and the line does the same to both.

Main definitions:

* `Mnemonic.computes` — the instructions that only work on the accumulator and the slots;
* `Mnemonic.jumps` — the instructions that look up a label;
* `Mnemonic.slot?`, `Line.slotOf?` — the slot that an instruction or a line of text names;
* `Line.Computes` — a line without a label that only computes;
* `Machine.Computed`, `Machine.Concurs` — the same was done to two machines;
* `Machine.Common`, `Machine.Shared` — two machines have in common what the lines of a program
  depend on, apart from labels or with them.

Main results:

* `Machine.agree_computing` — **machines with the same accumulator and slots compute the same**;
* `Machine.agree_unjumping` — **so do the other instructions that look up no label**, if subroutines
  are in common;
* `Machine.agree_line_of_computes`, `Machine.agree_line_of_shared` — **a line does the same to
  both** if it computes, or if they have the same labels and subroutines as well.
-/

import AccMachine.Proofs.Agreement

set_option relaxedAutoImplicit false
set_option autoImplicit false

namespace AccMachine

/-! ### The slots of a line -/

/-- Whether the instruction does no more than work on the accumulator and the slots and speak with
the console. -/
def Mnemonic.computes : Mnemonic → Bool
  | jump | jumpNegative | jumpZero | declare | run | ret | halt => false
  | _ => true

/-- Whether the instruction looks up the label that its operand names. -/
def Mnemonic.jumps : Mnemonic → Bool
  | jump | jumpNegative | jumpZero => true
  | _ => false

theorem Mnemonic.takesOperand_of_jumps {mnemonic : Mnemonic} (h : mnemonic.jumps = true) :
    mnemonic.takesOperand = true := by
  cases mnemonic with
  | jump | jumpNegative | jumpZero => rfl
  | _ => cases h

/-- The slot that an instruction with this operand names.  Stores and bitwise instructions take
every operand for a slot, loads and arithmetic instructions only if it is no integer. -/
def Mnemonic.slot? (mnemonic : Mnemonic) (operand : String) : Option String :=
  match mnemonic with
  | store | xor | or | and | andNot => some operand
  | load | add | subtract | multiply | divide =>
    match Operand.ofText operand with
    | .slot key => some key
    | .literal _ => none
  | _ => none

/-- The slot that a line of text names. -/
def Line.slotOf? (text : String) : Option String :=
  match Line.decode (Text.wordsOf text) with
  | .ok (.instruction ⟨_, mnemonic, some operand⟩) => mnemonic.slot? operand
  | _ => none

/-- The line has no label, and is blank or an instruction that computes, with the operand that it
requires. -/
def Line.Computes (text : String) : Prop :=
  Line.decode (Text.wordsOf text) = .ok .blank ∨
    ∃ mnemonic operand, mnemonic.computes = true ∧
      (mnemonic.takesOperand = true → operand ≠ none) ∧
      Line.decode (Text.wordsOf text) = .ok (.instruction ⟨none, mnemonic, operand⟩)

namespace Dialogue

variable {α β γ δ : Type}

/-! ### Agreement of dialogues that are put together -/

theorem Agree.mono {R S : α → β → Prop} (hRS : ∀ a b, R a b → S a b) {d : Dialogue α}
    {d' : Dialogue β} (h : Agree R d d') : Agree S d d' := by
  induction h with
  | done h => exact .done (hRS _ _ h)
  | fail cause => exact .fail cause
  | trace words accumulator _ ih => exact .trace words accumulator ih
  | emit output ho _ ih => exact .emit output ho ih
  | read _ ih => exact .read ih
  | load reference _ ih => exact .load reference ih
  | note event event' _ ih => exact .note event event' ih

theorem Agree.bind {R : α → β → Prop} {S : γ → δ → Prop} {d : Dialogue α} {d' : Dialogue β}
    (h : Agree R d d') {k : α → Dialogue γ} {k' : β → Dialogue δ}
    (hk : ∀ a b, R a b → Agree S (k a) (k' b)) : Agree S (d.bind k) (d'.bind k') := by
  induction h with
  | done h => exact hk _ _ h
  | fail cause => exact .fail cause
  | trace words accumulator _ ih => exact .trace words accumulator ih
  | emit output ho _ ih => exact .emit output ho ih
  | read _ ih => exact .read ih
  | load reference _ ih => exact .load reference ih
  | note event event' _ ih => exact .note event event' ih

end Dialogue

namespace Machine

/-! ### The same computation on two machines -/

/-- `Computed K a b r r'`: the machines `a` and `b` went on to the next line with the same new
accumulator, or with their accumulators stored in the same slot among `K`. -/
inductive Computed (K : String → Prop) (a b : Machine) : Machine × Flow → Machine × Flow → Prop
  | accumulate (value : Int64) :
      Computed K a b (a.accumulate value, .next) (b.accumulate value, .next)
  | store {key : String} (hk : K key) :
      Computed K a b ({ a with storage := a.storage.put key a.accumulator }, .next)
        ({ b with storage := b.storage.put key b.accumulator }, .next)

variable {K D : String → Prop} {a b : Machine}

/-- To leave both machines as they are is to give them the accumulator that both have. -/
theorem Computed.same (h : b.accumulator = a.accumulator) :
    Computed K a b (a, .next) (b, .next) := by
  have hsame : Computed K a b (a.accumulate a.accumulator, .next)
      (b.accumulate b.accumulator, .next) := by
    rw [h]
    exact .accumulate a.accumulator
  rwa [accumulate_self, accumulate_self] at hsame

/-- The machines find the same under the slot that the operand denotes, if it denotes one. -/
def SameOperand (a b : Machine) (operand : String) : Prop :=
  ∀ key, Operand.ofText operand = .slot key → b.storage.find? key = a.storage.find? key

/-- Operands are looked up in the same way. -/
theorem agree_checkedValue {operand : String} (hslots : SameOperand a b operand) :
    Dialogue.Agree Eq (a.checkedValue operand) (b.checkedValue operand) := by
  have hsame : b.checkedValue operand = a.checkedValue operand := by
    unfold checkedValue
    cases hx : Operand.ofText operand with
    | literal value => rfl
    | slot key => simp only [hslots key hx]
  rw [hsame]
  have htakes : (a.checkedValue operand).Takes (a.Turns operand .add) :=
    a.checkedValue_takes operand (by decide)
  exact Dialogue.Agree.of_speaks (htakes.speaks (fun _ _ => Turns.not_trace) fun _ => Turns.entry?)

theorem agree_arithmetic (hacc : b.accumulator = a.accumulator) {operand : String}
    (hslots : SameOperand a b operand) (op : Int64 → Int64 → Int64) :
    Dialogue.Agree (Computed K a b) (a.arithmetic op operand) (b.arithmetic op operand) := by
  rw [arithmetic_def, arithmetic_def]
  refine (agree_checkedValue hslots).bind ?_
  rintro value _ rfl
  rw [hacc]
  exact .done (.accumulate _)

theorem agree_division (hacc : b.accumulator = a.accumulator) {operand : String}
    (hslots : SameOperand a b operand) :
    Dialogue.Agree (Computed K a b) (a.division operand) (b.division operand) := by
  rw [division_def, division_def]
  refine (agree_checkedValue hslots).bind ?_
  rintro value _ rfl
  rw [hacc]
  split
  · exact .fail _
  · exact .done (.accumulate _)

theorem agree_readNumber : Dialogue.Agree (Computed K a b) a.readNumber b.readNumber := by
  rw [readNumber_def, readNumber_def]
  refine .read fun line => ?_
  cases line with
  | none => exact .fail _
  | some text =>
      dsimp only [Dialogue.bind]
      split
      · exact .done (.accumulate _)
      · exact .fail _

/-- **Machines with the same accumulator and the same slots compute the same.** -/
theorem agree_computing (hacc : b.accumulator = a.accumulator)
    (hslots : ∀ key, K key → b.storage.find? key = a.storage.find? key) {mnemonic : Mnemonic}
    (hm : mnemonic.computes = true) {operand : String}
    (hK : ∀ key, mnemonic.slot? operand = some key → K key) :
    Dialogue.Agree (Computed K a b) (a.execute mnemonic operand) (b.execute mnemonic operand) := by
  -- A bitwise instruction reads the slot of its operand.
  have hbitwise : K operand → ∀ op : Int64 → Int64 → Int64,
      Dialogue.Agree (Computed K a b) (a.bitwise op operand) (b.bitwise op operand) := by
    intro hk op
    have hslot : b.slot operand = a.slot operand := by
      rw [slot, slot, hslots operand hk]
    rw [bitwise_def, bitwise_def, hacc, hslot]
    exact .done (.accumulate _)
  -- A load or an arithmetic instruction does so if the operand is no integer.
  have hlooked : mnemonic ∈ [.load, .add, .subtract, .multiply, .divide] →
      SameOperand a b operand := by
    intro hmem key hkey
    refine hslots key (hK key ?_)
    simp only [List.mem_cons, List.not_mem_nil, or_false] at hmem
    rcases hmem with rfl | rfl | rfl | rfl | rfl <;> simp only [Mnemonic.slot?, hkey]
  cases mnemonic with
  | load =>
      have hvalue : b.valueOf operand = a.valueOf operand := by
        unfold valueOf
        cases hx : Operand.ofText operand with
        | literal value => rfl
        | slot key => simp only [slot, hlooked (by decide) key hx]
      rw [execute_def, execute_def, hvalue]
      exact .done (.accumulate _)
  | store => exact .done (.store (hK operand rfl))
  | add => exact agree_arithmetic hacc (hlooked (by decide)) _
  | subtract => exact agree_arithmetic hacc (hlooked (by decide)) _
  | multiply => exact agree_arithmetic hacc (hlooked (by decide)) _
  | divide => exact agree_division hacc (hlooked (by decide))
  | xor => exact hbitwise (hK operand rfl) _
  | or => exact hbitwise (hK operand rfl) _
  | and => exact hbitwise (hK operand rfl) _
  | andNot => exact hbitwise (hK operand rfl) fun x y => x &&& ~~~y
  | input => exact agree_readNumber
  | output =>
      rw [execute_def, execute_def, hacc]
      exact .emit _ rfl (.done (.same hacc))
  | outputChar =>
      rw [execute_def, execute_def, hacc]
      exact .emit _ rfl (.done (.same hacc))
  | jump | jumpNegative | jumpZero | declare | run | ret | halt => cases hm

/-- An instruction without an operand names no slot. -/
theorem slot?_of_not_takesOperand {mnemonic : Mnemonic} (h : mnemonic.takesOperand = false)
    (operand : String) : mnemonic.slot? operand = none := by
  cases mnemonic <;> first | rfl | cases h

/-- **A line that computes does the same to two machines** with the same accumulator and the same
slots. -/
theorem agree_line_of_computes (hacc : b.accumulator = a.accumulator)
    (hslots : ∀ key, K key → b.storage.find? key = a.storage.find? key) {text : String}
    (htext : Line.Computes text) (hK : ∀ key, Line.slotOf? text = some key → K key) :
    Dialogue.Agree (Computed K a b) (a.line text) (b.line text) := by
  rw [line_def, line_def, hacc]
  refine .trace _ _ ?_
  rcases htext with hd | ⟨mnemonic, operand?, hm, hneeds, hd⟩
  · simp only [obeyWords_def, hd]
    exact .done (.same hacc)
  · simp only [obeyWords_def, hd, obey_def]
    cases operand? with
    | some operand =>
        refine agree_computing hacc hslots hm ?_
        intro key hkey
        refine hK key ?_
        rw [Line.slotOf?, hd]
        exact hkey
    | none =>
        have ht : mnemonic.takesOperand = false := by
          cases ht : mnemonic.takesOperand with
          | false => rfl
          | true => exact absurd rfl (hneeds ht)
        simp only [ht, Bool.false_eq_true, if_false]
        refine agree_computing hacc hslots hm ?_
        intro key hkey
        rw [slot?_of_not_takesOperand ht] at hkey
        cases hkey

/-! ### The same line on two machines -/

/-- `Common K D a b`: the machines have the accumulator, the slots among `K` and the subroutines
among `D` in common, and nobody waits for one of them. -/
structure Common (K D : String → Prop) (a b : Machine) : Prop where
  accumulator : b.accumulator = a.accumulator
  slots : ∀ key, K key → b.storage.find? key = a.storage.find? key
  subroutines : ∀ name, D name → b.subroutines.find? name = a.subroutines.find? name
  reference : b.program.reference = a.program.reference
  awaited : a.awaited = false ∧ b.awaited = false

/-- `Shared K D f a b`: besides, a label that leads `a` to a line leads `b` to the line that `f`
gives. -/
structure Shared (K D : String → Prop) (f : Nat → Nat) (a b : Machine) : Prop
    extends Common K D a b where
  labels : ∀ label, b.program.label? label = (a.program.label? label).map f

/-- `Concurs K D f a b r r'`: the same was done to the machines `a` and `b`. -/
inductive Concurs (K D : String → Prop) (f : Nat → Nat) (a b : Machine) :
    Machine × Flow → Machine × Flow → Prop
  | computed {r r' : Machine × Flow} (h : Computed K a b r r') : Concurs K D f a b r r'
  | jump {label : String} {target : Nat} (h : a.program.label? label = some target) :
      Concurs K D f a b (a, .jump target) (b, .jump (f target))
  | declare {name : String} (h : D name) (callee : Machine) :
      Concurs K D f a b ({ a with subroutines := a.subroutines.put name callee }, .next)
        ({ b with subroutines := b.subroutines.put name callee }, .next)
  | call {name : String} (h : D name) (callee : Machine) :
      Concurs K D f a b (a, .call name callee) (b, .call name callee)
  | halt : Concurs K D f a b (a, .halt) (b, .halt)

variable {f : Nat → Nat}

theorem agree_jumpIf (h : Shared K D f a b) (taken : Bool) (label : String) :
    Dialogue.Agree (Concurs K D f a b) (a.jumpIf taken label) (b.jumpIf taken label) := by
  have hfind : Dialogue.Agree
      (fun target? target?' => target? = a.program.label? label ∧ target?' = target?.map f)
      (a.findLabel label) (b.findLabel label) := by
    unfold findLabel
    rw [h.labels label]
    cases a.program.label? label with
    | none => exact .emit _ rfl (.done ⟨rfl, rfl⟩)
    | some target => exact .done ⟨rfl, rfl⟩
  rw [jumpIf_def, jumpIf_def]
  refine hfind.bind ?_
  rintro target? _ ⟨hlabel, rfl⟩
  cases taken with
  | false => exact .done (.computed (.same h.accumulator))
  | true =>
      cases target? with
      | none => exact .fail _
      | some target => exact .done (.jump hlabel.symm)

/-- **Machines do the same with an instruction that looks up no label** if they have in common what
it depends on. -/
theorem agree_unjumping (h : Common K D a b) {mnemonic : Mnemonic} (hm : mnemonic.jumps = false)
    {operand : String} (hK : ∀ key, mnemonic.slot? operand = some key → K key)
    (hD : mnemonic ∈ [.declare, .run] → D operand) :
    Dialogue.Agree (Concurs K D f a b) (a.execute mnemonic operand)
      (b.execute mnemonic operand) := by
  by_cases hcomputes : mnemonic.computes = true
  · exact (agree_computing h.accumulator h.slots hcomputes hK).mono fun _ _ => .computed
  · cases mnemonic with
    | jump | jumpNegative | jumpZero => cases hm
    | declare =>
        rw [execute_def, execute_def, declareSubroutine_def, declareSubroutine_def]
        refine .load operand fun program _ => .note _ _ (.done ?_)
        have hcallee : b.subroutine program = a.subroutine program := by
          rw [subroutine, subroutine, h.reference]
        rw [hcallee]
        exact .declare (hD (by decide)) _
    | run =>
        have hsubroutine := h.subroutines operand (hD (by decide))
        rw [execute_def, execute_def, callSubroutine_def, callSubroutine_def, hsubroutine,
          h.accumulator]
        cases a.subroutines.find? operand with
        | none => exact .fail _
        | some callee => exact .note _ _ (.done (.call (hD (by decide)) _))
    | ret =>
        obtain ⟨ha, hb⟩ := h.awaited
        rw [execute_def, execute_def, returnToCaller_def, returnToCaller_def, ha, hb]
        exact .fail _
    | halt => exact .done .halt
    | load | store | add | subtract | multiply | divide | xor | or | and | andNot | input | output
    | outputChar => exact absurd rfl hcomputes

/-- **Machines that have in common what an instruction depends on do the same.** -/
theorem agree_execute (h : Shared K D f a b) (mnemonic : Mnemonic) {operand : String}
    (hK : ∀ key, mnemonic.slot? operand = some key → K key)
    (hD : mnemonic ∈ [.declare, .run] → D operand) :
    Dialogue.Agree (Concurs K D f a b) (a.execute mnemonic operand)
      (b.execute mnemonic operand) := by
  cases mnemonic with
  | jump => exact agree_jumpIf h _ operand
  | jumpNegative =>
      rw [execute_def, execute_def, h.accumulator]
      exact agree_jumpIf h _ operand
  | jumpZero =>
      rw [execute_def, execute_def, h.accumulator]
      exact agree_jumpIf h _ operand
  | _ => exact agree_unjumping h.toCommon rfl hK hD

/-- What two machines do on a line agrees if what they do with its instruction agrees. -/
theorem agree_obeyWords (hacc : b.accumulator = a.accumulator) {text : String}
    (hexecute : ∀ i operand, Line.decode (Text.wordsOf text) = .ok (.instruction i) →
      OperandText i operand → Dialogue.Agree (Concurs K D f a b) (a.execute i.mnemonic operand)
        (b.execute i.mnemonic operand)) :
    Dialogue.Agree (Concurs K D f a b) (a.obeyWords (Text.wordsOf text))
      (b.obeyWords (Text.wordsOf text)) := by
  rw [obeyWords_def, obeyWords_def]
  cases hd : Line.decode (Text.wordsOf text) with
  | error flaw => exact .fail _
  | ok line =>
      cases line with
      | blank => exact .done (.computed (.same hacc))
      | anchor label => exact .done (.computed (.same hacc))
      | instruction i =>
          simp only [obey_def]
          cases ho : i.operand with
          | some operand => exact hexecute i operand hd (Or.inl ho)
          | none =>
              cases ht : i.mnemonic.takesOperand with
              | true => exact .fail _
              | false => exact hexecute i "" hd (Or.inr ⟨ho, ht, rfl⟩)

/-- The slot that an instruction names on its line is the one that the line names. -/
theorem OperandText.slotOf? {text operand key : String} {i : Instruction}
    (h : OperandText i operand) (hd : Line.decode (Text.wordsOf text) = .ok (.instruction i))
    (hslot : i.mnemonic.slot? operand = some key) : Line.slotOf? text = some key := by
  obtain ⟨label, mnemonic, operand?⟩ := i
  rcases h with ho | ⟨-, ht, -⟩
  · obtain rfl : operand? = some operand := ho
    rw [Line.slotOf?, hd]
    exact hslot
  · rw [slot?_of_not_takesOperand ht] at hslot
    cases hslot

/-- **The same line does the same to two machines that have in common what it depends on.** -/
theorem agree_line_of_shared (h : Shared K D f a b) {text : String}
    (hK : ∀ key, Line.slotOf? text = some key → K key)
    (hD : ∀ label mnemonic name, mnemonic ∈ [.declare, .run] →
      Line.decode (Text.wordsOf text) = .ok (.instruction ⟨label, mnemonic, some name⟩) → D name) :
    Dialogue.Agree (Concurs K D f a b) (a.line text) (b.line text) := by
  rw [line_def, line_def, h.accumulator]
  refine .trace _ _ (agree_obeyWords h.accumulator ?_)
  intro i operand hd ho
  refine agree_execute h i.mnemonic (fun key hkey => hK key (ho.slotOf? hd hkey)) ?_
  intro hm
  obtain ⟨label, mnemonic, operand?⟩ := i
  rcases ho with ho | ⟨-, ht, -⟩
  · obtain rfl : operand? = some operand := ho
    exact hD label mnemonic operand hm hd
  · simp only [List.mem_cons, List.not_mem_nil, or_false] at hm
    rcases hm with rfl | rfl <;> cases ht

end Machine

end AccMachine
