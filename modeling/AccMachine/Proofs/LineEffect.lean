/-
**What a line can do.**

A machine executes a line by holding a dialogue, and the dialogue may come to many results, one
for every way in which the session answers.  This module says once what all of them have in
common, so that later proofs need not open the instructions again: a line either leaves the
machine as it is, or has one of seven effects, each belonging to certain instructions.

Main definitions:

* `Dialogue.Yields` — every result of a dialogue has a property;
* `Machine.Effect` — the effects of the instructions;
* `Machine.LineEffect` — the effects of a line of text.

Main results:

* `Session.perform_yields` — a session meets no other results than those;
* `Machine.execute_yields` — **every instruction has one of the effects**;
* `Machine.LineEffect.kept`, `Machine.LineEffect.of_call` — what a line leaves alone, and what it
  needs for a call;
* `Machine.perform_line` — what a line that succeeded has done.
-/

import AccMachine.Proofs.LineDialogue

set_option relaxedAutoImplicit false
set_option autoImplicit false

namespace AccMachine

/-! ### The results of a dialogue -/

namespace Dialogue

variable {α β : Type}

/-- `d.Yields P`: whatever the answers are, the dialogue `d` ends in a value with `P` or fails.  A
program that is handed out bears the reference under which it was asked for. -/
def Yields (P : α → Prop) : Dialogue α → Prop
  | done a => P a
  | fail _ => True
  | trace _ _ next => next.Yields P
  | emit _ next => next.Yields P
  | read next => ∀ line, (next line).Yields P
  | load reference next =>
      ∀ program : Program, program.reference = reference → (next program).Yields P
  | note _ next => next.Yields P

theorem Yields.mono {P Q : α → Prop} (hPQ : ∀ a, P a → Q a) {d : Dialogue α}
    (h : d.Yields P) : d.Yields Q := by
  induction d with
  | done a => exact hPQ a h
  | fail cause => trivial
  | trace words accumulator next ih => exact ih h
  | emit output next ih => exact ih h
  | read next ih => exact fun line => ih line (h line)
  | load reference next ih => exact fun program hp => ih program (h program hp)
  | note event next ih => exact ih h

theorem Yields.bind {P : α → Prop} {Q : β → Prop} {d : Dialogue α} {k : α → Dialogue β}
    (h : d.Yields P) (hk : ∀ a, P a → (k a).Yields Q) : (d.bind k).Yields Q := by
  induction d with
  | done a => exact hk a h
  | fail cause => trivial
  | trace words accumulator next ih => exact ih h
  | emit output next ih => exact ih h
  | read next ih => exact fun line => ih line (h line)
  | load reference next ih => exact fun program hp => ih program (h program hp)
  | note event next ih => exact ih h

end Dialogue

namespace Session

variable {κ : Type} {α : Type}

/-- A program that was loaded bears the reference it was loaded under. -/
theorem load_reference {s s' : Session κ} {reference : String} {program : Program}
    (h : s.load reference = (.ok program, s')) : program.reference = reference := by
  unfold load at h
  split at h
  · cases h
  · cases h
    rfl

variable [Console κ]

/-- A dialogue that is held with a session meets no other results than those it can yield. -/
theorem perform_yields {P : α → Prop} {d : Dialogue α} (hd : d.Yields P) {s s' : Session κ}
    {a : α} (h : s.perform d = (.ok a, s')) : P a := by
  induction d generalizing s with
  | done b =>
      cases h
      exact hd
  | fail cause => cases h
  | trace words accumulator next ih =>
      simp only [perform] at h
      split at h
      · cases h
      · exact ih hd h
  | emit output next ih =>
      simp only [perform] at h
      split at h
      · cases h
      · exact ih hd h
  | read next ih =>
      simp only [perform] at h
      split at h
      · cases h
      · exact ih _ (hd _) h
  | load reference next ih =>
      simp only [perform] at h
      split at h
      · cases h
      · next hl => exact ih _ (hd _ (load_reference hl)) h
  | note event next ih => exact ih hd h

end Session

namespace Machine

/-! ### The effects of instructions -/

/-- `Effect m operand mnemonic m' flow`: the instruction, with that operand, may take the machine
`m` to `m'`, and control goes on as `flow` says. -/
inductive Effect (m : Machine) (operand : String) : Mnemonic → Machine → Flow → Prop
  /-- The accumulator gets a value, possibly the one it has; most instructions do no more. -/
  | compute (mnemonic : Mnemonic) (value : Int64)
      (hm : mnemonic ∉ [.store, .declare, .run, .ret, .halt]) :
      Effect m operand mnemonic (m.accumulate value) .next
  | store :
      Effect m operand .store { m with storage := m.storage.put operand m.accumulator } .next
  | jump (mnemonic : Mnemonic) (hm : mnemonic ∈ [.jump, .jumpNegative, .jumpZero]) {target : Nat}
      (ht : m.program.label? operand = some target) : Effect m operand mnemonic m (.jump target)
  | declare (program : Program) (hp : program.reference = operand) :
      Effect m operand .declare
        { m with subroutines := m.subroutines.put operand (m.subroutine program) } .next
  | call {callee : Machine} (hc : m.subroutines.find? operand = some callee) :
      Effect m operand .run m (.call operand (callee.invoked m.accumulator))
  | ret (ha : m.awaited = true) : Effect m operand .ret { m with awaited := false } .ret
  | halt : Effect m operand .halt m .halt

theorem accumulate_self (m : Machine) : m.accumulate m.accumulator = m := by
  cases m
  rfl

/-- An instruction that goes on to the next line may leave the machine as it is. -/
theorem Effect.same (m : Machine) (operand : String) (mnemonic : Mnemonic)
    (hm : mnemonic ∉ [.store, .declare, .run, .ret, .halt]) :
    Effect m operand mnemonic m .next := by
  have h : Effect m operand mnemonic (m.accumulate m.accumulator) .next :=
    Effect.compute mnemonic m.accumulator hm
  rwa [accumulate_self] at h

/-- Looking up an operand comes to its value, with a warning or without one. -/
theorem checkedValue_yields (m : Machine) (operand : String) :
    (m.checkedValue operand).Yields (· = m.valueOf operand) := by
  cases ho : Operand.ofText operand with
  | literal value =>
      simp only [checkedValue, valueOf, ho]
      exact rfl
  | slot key =>
      simp only [checkedValue, valueOf, slot, ho]
      cases m.storage.find? key with
      | none => exact rfl
      | some value => exact rfl

theorem findLabel_yields (m : Machine) (label : String) :
    (m.findLabel label).Yields fun target? => target? = m.program.label? label := by
  unfold findLabel
  split
  · next target ht => exact ht.symm
  · next hn => exact hn.symm

theorem arithmetic_yields (m : Machine) (op : Int64 → Int64 → Int64) (operand : String)
    (mnemonic : Mnemonic) (hm : mnemonic ∉ [.store, .declare, .run, .ret, .halt]) :
    (m.arithmetic op operand).Yields fun r => Effect m operand mnemonic r.1 r.2 :=
  (m.checkedValue_yields operand).bind fun _ _ => Effect.compute mnemonic _ hm

theorem division_yields (m : Machine) (operand : String) :
    (m.division operand).Yields fun r => Effect m operand .divide r.1 r.2 := by
  rw [division_def]
  refine (m.checkedValue_yields operand).bind fun value _ => ?_
  split
  · trivial
  · exact Effect.compute .divide _ (by decide)

theorem jumpIf_yields (m : Machine) (taken : Bool) (label : String) (mnemonic : Mnemonic)
    (hm : mnemonic ∈ [.jump, .jumpNegative, .jumpZero]) :
    (m.jumpIf taken label).Yields fun r => Effect m label mnemonic r.1 r.2 := by
  have hpass : mnemonic ∉ [.store, .declare, .run, .ret, .halt] := by
    intro h
    cases mnemonic <;> simp at hm h
  rw [jumpIf_def]
  -- The label is looked up even if the jump is not taken.
  refine (m.findLabel_yields label).bind fun target? ht => ?_
  split
  · split
    · exact Effect.jump mnemonic hm ht.symm
    · trivial
  · exact Effect.same m label mnemonic hpass

theorem readNumber_yields (m : Machine) (operand : String) :
    m.readNumber.Yields fun r => Effect m operand .input r.1 r.2 := by
  rw [readNumber_def]
  intro line
  cases line with
  | none => trivial
  | some text =>
      dsimp only [Dialogue.bind]
      split
      · exact Effect.compute .input _ (by decide)
      · trivial

theorem callSubroutine_yields (m : Machine) (name : String) :
    (m.callSubroutine name).Yields fun r => Effect m name .run r.1 r.2 := by
  rw [callSubroutine_def]
  split
  · trivial
  · next callee hc => exact Effect.call hc

theorem returnToCaller_yields (m : Machine) (operand : String) :
    m.returnToCaller.Yields fun r => Effect m operand .ret r.1 r.2 := by
  rw [returnToCaller_def]
  split
  · next ha => exact Effect.ret ha
  · trivial

/-- **Every instruction has one of the effects.** -/
theorem execute_yields (m : Machine) (mnemonic : Mnemonic) (operand : String) :
    (m.execute mnemonic operand).Yields fun r => Effect m operand mnemonic r.1 r.2 := by
  rw [execute_def]
  cases mnemonic with
  | load => exact Effect.compute .load _ (by decide)
  | store => exact Effect.store
  | add => exact m.arithmetic_yields _ operand .add (by decide)
  | subtract => exact m.arithmetic_yields _ operand .subtract (by decide)
  | multiply => exact m.arithmetic_yields _ operand .multiply (by decide)
  | divide => exact m.division_yields operand
  | jump => exact m.jumpIf_yields _ operand .jump (by decide)
  | jumpNegative => exact m.jumpIf_yields _ operand .jumpNegative (by decide)
  | jumpZero => exact m.jumpIf_yields _ operand .jumpZero (by decide)
  | xor => exact Effect.compute .xor _ (by decide)
  | or => exact Effect.compute .or _ (by decide)
  | and => exact Effect.compute .and _ (by decide)
  | andNot => exact Effect.compute .andNot _ (by decide)
  | input => exact m.readNumber_yields operand
  | output => exact Effect.same m operand .output (by decide)
  | outputChar => exact Effect.same m operand .outputChar (by decide)
  | declare => exact fun program hp => Effect.declare program hp
  | run => exact m.callSubroutine_yields operand
  | ret => exact m.returnToCaller_yields operand
  | halt => exact Effect.halt

/-! ### The effects of lines -/

/-- The text with which an instruction is executed: its operand, or nothing if it needs none. -/
def OperandText (i : Instruction) (operand : String) : Prop :=
  i.operand = some operand ∨
    (i.operand = none ∧ i.mnemonic.takesOperand = false ∧ operand = "")

/-- `LineEffect m text m' flow`: the line may take the machine `m` to `m'`, and control goes on as
`flow` says. -/
inductive LineEffect (m : Machine) (text : String) : Machine → Flow → Prop
  /-- A line without an instruction does nothing. -/
  | pass (hd : Line.decode (Text.wordsOf text) = .ok .blank ∨
        ∃ label, Line.decode (Text.wordsOf text) = .ok (.anchor label)) :
      LineEffect m text m .next
  | obey {i : Instruction} {operand : String} {m' : Machine} {flow : Flow}
      (hd : Line.decode (Text.wordsOf text) = .ok (.instruction i)) (ho : OperandText i operand)
      (he : Effect m operand i.mnemonic m' flow) : LineEffect m text m' flow

theorem obey_yields (m : Machine) (text : String) (i : Instruction)
    (hd : Line.decode (Text.wordsOf text) = .ok (.instruction i)) :
    (m.obey i).Yields fun r => LineEffect m text r.1 r.2 := by
  rw [obey_def]
  split
  · next operand ho =>
      exact (m.execute_yields i.mnemonic operand).mono fun r he =>
        LineEffect.obey hd (Or.inl ho) he
  · next ho =>
      split
      · trivial
      · next ht =>
          exact (m.execute_yields i.mnemonic "").mono fun r he =>
            LineEffect.obey hd (Or.inr ⟨ho, by simpa using ht, rfl⟩) he

/-- Every line has one of the effects. -/
theorem line_yields (m : Machine) (text : String) :
    (m.line text).Yields fun r => LineEffect m text r.1 r.2 := by
  change (m.obeyWords (Text.wordsOf text)).Yields _
  rw [obeyWords_def]
  split
  · trivial
  · next hd => exact LineEffect.pass (Or.inl hd)
  · next label hd => exact LineEffect.pass (Or.inr ⟨label, hd⟩)
  · next i hd => exact m.obey_yields text i hd

/-! ### What an effect leaves alone -/

/-- An instruction changes neither the program, nor the parent, nor the program counter. -/
theorem Effect.kept {m m' : Machine} {operand : String} {mnemonic : Mnemonic} {flow : Flow}
    (h : Effect m operand mnemonic m' flow) :
    m'.program = m.program ∧ m'.parent = m.parent ∧ m'.pc = m.pc := by
  cases h <;> exact ⟨rfl, rfl, rfl⟩

/-- Only a return ends the waiting of the caller. -/
theorem Effect.awaited {m m' : Machine} {operand : String} {mnemonic : Mnemonic} {flow : Flow}
    (h : Effect m operand mnemonic m' flow) (hf : flow ≠ .ret) : m'.awaited = m.awaited := by
  cases h with
  | ret ha => exact absurd rfl hf
  | _ => rfl

/-- Only a machine that a caller waits for returns, and then it is waited for no longer. -/
theorem Effect.of_ret {m m' : Machine} {operand : String} {mnemonic : Mnemonic}
    (h : Effect m operand mnemonic m' .ret) :
    m.awaited = true ∧ m' = { m with awaited := false } := by
  cases h with
  | ret ha => exact ⟨ha, rfl⟩

/-- Only the instruction for it halts, and it changes nothing. -/
theorem Effect.of_halt {m m' : Machine} {operand : String} {mnemonic : Mnemonic}
    (h : Effect m operand mnemonic m' .halt) : mnemonic = .halt ∧ m' = m := by
  cases h with
  | halt => exact ⟨rfl, rfl⟩

/-- Only the instruction for it calls; its operand is the name of a declared subroutine, and it
changes nothing in the caller. -/
theorem Effect.of_call {m m' callee : Machine} {operand name : String} {mnemonic : Mnemonic}
    (h : Effect m operand mnemonic m' (.call name callee)) :
    mnemonic = .run ∧ operand = name ∧ m' = m ∧
      ∃ child, m.subroutines.find? name = some child ∧ callee = child.invoked m.accumulator := by
  cases h with
  | call hc => exact ⟨rfl, rfl, rfl, _, hc, rfl⟩

/-- A line changes neither the program, nor the parent, nor the program counter. -/
theorem LineEffect.kept {m m' : Machine} {text : String} {flow : Flow}
    (h : LineEffect m text m' flow) :
    m'.program = m.program ∧ m'.parent = m.parent ∧ m'.pc = m.pc := by
  cases h with
  | pass hd => exact ⟨rfl, rfl, rfl⟩
  | obey hd ho he => exact he.kept

theorem LineEffect.awaited {m m' : Machine} {text : String} {flow : Flow}
    (h : LineEffect m text m' flow) (hf : flow ≠ .ret) : m'.awaited = m.awaited := by
  cases h with
  | pass hd => rfl
  | obey hd ho he => exact he.awaited hf

/-- What a line with an instruction does, the instruction does. -/
theorem LineEffect.of_instruction {m m' : Machine} {text : String} {flow : Flow}
    (h : LineEffect m text m' flow) {label operand? : Option String} {mnemonic : Mnemonic}
    (hd : Line.decode (Text.wordsOf text) = .ok (.instruction ⟨label, mnemonic, operand?⟩)) :
    ∃ operand, OperandText ⟨label, mnemonic, operand?⟩ operand ∧
      Effect m operand mnemonic m' flow := by
  cases h with
  | pass hpass =>
      rw [hd] at hpass
      rcases hpass with hpass | ⟨_, hpass⟩ <;> cases hpass
  | @obey i operand _ _ hd' ho he =>
      rw [hd] at hd'
      cases hd'
      exact ⟨operand, ho, he⟩

/-- A line that returns belongs to a machine that a caller waits for. -/
theorem LineEffect.of_ret {m m' : Machine} {text : String} (h : LineEffect m text m' .ret) :
    m.awaited = true ∧ m' = { m with awaited := false } := by
  cases h with
  | obey _ _ he => exact he.of_ret

/-- A line that halts carries the mnemonic for it with the operand that it needs, and changes
nothing. -/
theorem LineEffect.of_halt {m m' : Machine} {text : String} (h : LineEffect m text m' .halt) :
    m' = m ∧ ∃ i operand, Line.decode (Text.wordsOf text) = .ok (.instruction i) ∧
      i.mnemonic = .halt ∧ OperandText i operand := by
  cases h with
  | @obey i operand _ _ hd ho he =>
      obtain ⟨hmnemonic, rfl⟩ := he.of_halt
      exact ⟨rfl, i, operand, hd, hmnemonic, ho⟩

/-- A line that calls carries the mnemonic for it and the name of a declared subroutine, and
changes nothing in the caller. -/
theorem LineEffect.of_call {m m' : Machine} {text name : String} {callee : Machine}
    (h : LineEffect m text m' (.call name callee)) :
    m' = m ∧
      (∃ label, Line.decode (Text.wordsOf text) = .ok (.instruction ⟨label, .run, some name⟩)) ∧
      ∃ child, m.subroutines.find? name = some child ∧ callee = child.invoked m.accumulator := by
  cases h with
  | @obey i operand _ _ hd ho he =>
      obtain ⟨label, mnemonic, operand?⟩ := i
      obtain ⟨hmnemonic, rfl, rfl, hchild⟩ := he.of_call
      obtain rfl : mnemonic = .run := hmnemonic
      refine ⟨rfl, ⟨label, ?_⟩, hchild⟩
      -- A call takes an operand, so the name stands on the line.
      rcases ho with ho | ⟨_, ht, _⟩
      · obtain rfl : operand? = some operand := ho
        exact hd
      · cases ht

variable {κ : Type} [Console κ]

/-- What a line that succeeded has done. -/
theorem perform_line {m m' : Machine} {s s' : Session κ} {text : String} {flow : Flow}
    (h : s.perform (m.line text) = (.ok (m', flow), s')) : LineEffect m text m' flow :=
  Session.perform_yields (m.line_yields text) h

end Machine

end AccMachine
