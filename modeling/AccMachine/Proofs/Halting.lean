/-
**A halt ends everything.**

When a machine anywhere in a chain of calls comes to the instruction for it, the whole run halts:
no line is executed afterwards, every caller is left as it was when it made its call, and the root
writes the sheet, once.  Conversely a run halts in no other way.

Main definitions:

* `Chain.Dispatches` — the active machine comes to an instruction with a certain mnemonic.

Main results:

* `Chain.step_of_halt` — a chain that comes to a halt stops, and every caller takes its callee back;
* `Chain.Stop.dispatches_halt` — a chain that stops by halting came to a halt;
* `Machine.run_halt` — **a halt at any depth ends the run**, and no other line ends it so.
-/

import AccMachine.Proofs.CallRuns
import AccMachine.Proofs.Sheet

set_option relaxedAutoImplicit false
set_option autoImplicit false

namespace AccMachine

namespace Chain

variable {κ : Type} [Console κ]

/-! ### Coming to a halt -/

/-- `c.Dispatches s mnemonic`: the current line of the active machine is an instruction with that
mnemonic, which has the operand that it needs, and the line is recorded in the trace. -/
def Dispatches (c : Chain) (s : Session κ) (mnemonic : Mnemonic) : Prop :=
  ∃ text i, c.active.currentLine? = some text ∧
    Line.decode (Text.wordsOf text) = .ok (.instruction i) ∧ i.mnemonic = mnemonic ∧
    (∃ operand, Machine.OperandText i operand) ∧
    (s.trace (Text.wordsOf text) c.active.accumulator).1 = .ok ()

/-- An instruction that has the operand it needs is executed with it. -/
theorem obey_of_operandText {m : Machine} {i : Instruction} {operand : String}
    (h : Machine.OperandText i operand) : m.obey i = m.execute i.mnemonic operand := by
  rcases h with ho | ⟨ho, ht, rfl⟩
  · simp only [Machine.obey_def, ho]
  · simp only [Machine.obey_def, ho, ht, Bool.false_eq_true, if_false]

/-- A machine that comes to a halt comes to a result, and stays as it is. -/
theorem Dispatches.perform_halt {c : Chain} {s : Session κ} (h : c.Dispatches s .halt) :
    ∃ text s', c.active.currentLine? = some text ∧
      s.perform (c.active.line text) = (.ok (c.active, .halt), s') := by
  obtain ⟨text, i, ht, hd, hi, ⟨operand, ho⟩, htrace⟩ := h
  rcases hs : s.trace (Text.wordsOf text) c.active.accumulator with ⟨answer, s'⟩
  rw [hs] at htrace
  cases htrace
  refine ⟨text, s', ht, ?_⟩
  have hobey : c.active.obeyWords (Text.wordsOf text) = .done (c.active, .halt) := by
    simp only [Machine.obeyWords_def, hd]
    rw [obey_of_operandText ho, hi]
    rfl
  simp only [Machine.line_def, Session.perform, hs, hobey]

/-- **A chain that comes to a halt stops**, and every caller takes its callee back. -/
theorem step_of_halt {c : Chain} {s : Session κ} (h : c.Dispatches s .halt) :
    ∃ s', c.step s = (.ended .halted (adoptAll c.active c.callers), s') := by
  obtain ⟨text, s', ht, hp⟩ := h.perform_halt
  rw [step_of_line ht hp]
  exact ⟨_, Prod.ext (deliver_halted _ _) rfl⟩

/-- A chain that stops by halting came to a halt. -/
theorem Stop.dispatches_halt {c : Chain} {s : Session κ} {m : Machine}
    (h : c.Stop s .halted m) : c.Dispatches s .halt := by
  cases h with
  | @halted text s' ht hp =>
      obtain ⟨-, i, operand, hd, hi, ho⟩ := (Machine.perform_line hp).of_halt
      refine ⟨text, i, ht, hd, hi, ⟨operand, ho⟩, ?_⟩
      simp only [Machine.line_def, Session.perform] at hp
      split at hp
      · cases hp
      · next hs => rw [hs]

/-! ### The callers after a halt -/

/-- A caller that takes back what it called is at its place in the outermost machine, on its line
and with the accumulator and the storage that it has in the chain. -/
theorem at?_adoptAll_caller (m : Machine) {callers inner outer : List Frame} {f : Frame}
    (hf : callers = inner ++ f :: outer) :
    ∃ n, (adoptAll m callers).at? (pathOf outer) = some n ∧ n.program = f.caller.program ∧
      n.pc = f.caller.pc ∧ n.accumulator = f.caller.accumulator ∧
      n.storage = f.caller.storage := by
  subst hf
  rw [adoptAll_append, adoptAll]
  obtain ⟨n, hn, hreleased⟩ := at?_adoptAll (f.caller.adopt f.callee (adoptAll m inner)) outer
  rw [Machine.released, Machine.released, Machine.mk.injEq] at hreleased
  obtain ⟨hprogram, haccumulator, hstorage, hpc, -⟩ := hreleased
  exact ⟨n, hn, hprogram, hpc, haccumulator, hstorage⟩

end Chain

/-- Whether a run ended halted. -/
def Ending.isHalted : Ending → Bool
  | halted => true
  | _ => false

theorem Ending.eq_of_isHalted {ending : Ending} (h : ending.isHalted = true) :
    ending = .halted := by
  cases ending with
  | halted => rfl
  | _ => cases h

namespace Machine

section

variable {κ : Type}

/-! ### Whole runs -/

/-- A run whose last step halts has the sheet written by the root, and ends so unless the file is
refused. -/
theorem close_halted {m : Machine} (hm : m.isRoot = true) {s s' : Session κ} {ending : Ending}
    (h : m.close s .halted = (ending, s')) :
    s.writeSheet = (.ok (), s') ∧ ending = .halted ∨
      ∃ fault, s.writeSheet = (.error fault, s') ∧ ending = .failed ⟨[], .device fault⟩ := by
  simp only [close, hm, if_true] at h
  split at h
  · next hw =>
      cases h
      exact Or.inl ⟨hw, rfl⟩
  · next fault _ hw =>
      cases h
      exact Or.inr ⟨fault, hw, rfl⟩

/-- The run of a machine ends halted only if its last step halts. -/
theorem of_close_halted {m : Machine} {s s' : Session κ} {ending : Ending}
    (h : m.close s ending = (.halted, s')) : ending = .halted := by
  cases ending with
  | halted => rfl
  | _ => cases h

variable [Console κ]

/-- **A halt at any depth ends the run.**  Let the run of a root end.  If a chain that it comes to
dispatches a halt, then it is the last chain of the run and its step the last one; every caller is
on the line of its call, with the accumulator and the storage with which it made that call; no step
has written the sheet, and the root writes it once, so that the run ends halted unless the file is
refused.  And if the run ends halted, then the last of its chains dispatched a halt. -/
theorem run_halt {m m' : Machine} (hm : m.Rooted) {fuel : Nat} {s s' : Session κ}
    {ending : Ending} (h : m.run fuel s = some (ending, m', s')) :
    (∀ c s₁, Chain.Reaches (Chain.start m) s c s₁ → c.Dispatches s₁ .halt →
      (∀ c₂ s₂, Chain.Reaches (Chain.start m) s c₂ s₂ → Chain.Reaches c₂ s₂ c s₁) ∧
      (∀ inner f outer, c.callers = inner ++ f :: outer →
        Chain.MadeCall (Chain.start m) s f outer ∧ f.caller.CallsAt f.callee ∧
          ∃ n, m'.at? (Chain.pathOf outer) = some n ∧ n.program = f.caller.program ∧
            n.pc = f.caller.pc ∧ n.accumulator = f.caller.accumulator ∧
            n.storage = f.caller.storage) ∧
      (∃ s₂, c.step s₁ = (.ended .halted m', s₂) ∧ Session.Unwritten s s₂ ∧
        (s₂.writeSheet = (.ok (), s') ∧ ending = .halted ∨
          ∃ fault, s₂.writeSheet = (.error fault, s') ∧ ending = .failed ⟨[], .device fault⟩)) ∧
      s'.flushes = s.flushes + if s.tracer.mode = .dryRun then 1 else 0) ∧
    (ending = .halted → ∃ c s₁ s₂, Chain.Reaches (Chain.start m) s c s₁ ∧
      c.step s₁ = (.ended .halted m', s₂) ∧ c.Dispatches s₁ .halt) := by
  obtain ⟨c₀, s₀, ending₀, s₂, hreach₀, hstep₀, hclose⟩ := run_eq_some_iff.1 ⟨fuel, h⟩
  have hstop := Chain.stop_of_step hstep₀
  have hfits := hreach₀.fits hm.tidy.fits_start
  constructor
  · intro c s₁ hreach hhalt
    obtain ⟨s₃, hstep⟩ := Chain.step_of_halt hhalt
    -- Both chains are last, so they are the same.
    have hlast : ∀ c₂ s₂, Chain.Reaches (Chain.start m) s c₂ s₂ → Chain.Reaches c₂ s₂ c s₁ :=
      fun c₂ s₂ h₂ => hreach.last hstep h₂
    rcases (hlast c₀ s₀ hreach₀).head_cases with ⟨rfl, rfl⟩ | ⟨_, _, hmove, _⟩
    · rw [hstep₀] at hstep
      cases hstep
      have hroot : (Chain.adoptAll c.active c.callers).isRoot = true := by
        rw [isRoot, (hstop.fits hfits).2.1]
        exact congrArg Option.isNone hm.parent
      have hunwritten : Session.Unwritten s s₂ := by
        have hlaststep := c.step_unwritten s₁
        rw [hstep₀] at hlaststep
        exact hreach.unwritten.trans hlaststep
      have hwritten := close_halted hroot hclose
      refine ⟨hlast, ?_, ⟨s₂, hstep₀, hunwritten, hwritten⟩, ?_⟩
      · intro inner f outer hf
        refine ⟨hreach.madeCall rfl hf, ?_, Chain.at?_adoptAll_caller c.active hf⟩
        refine hreach.onCalls (Chain.onCalls_start m) f ?_
        rw [hf]
        exact List.mem_append_right _ List.mem_cons_self
      · have hs' : s₂.writeSheet.2 = s' := by
          rcases hwritten with ⟨hw, _⟩ | ⟨fault, hw, _⟩ <;> rw [hw]
        rw [← hs', s₂.writeSheet_flushes, hunwritten.flushes, hunwritten.mode]
    · rw [hstep₀] at hmove
      cases hmove
  · rintro rfl
    obtain rfl := of_close_halted hclose
    exact ⟨c₀, s₀, s₂, hreach₀, hstep₀, hstop.dispatches_halt⟩

end

/-- A halt two calls below the root, in a dry run: the root writes the sheet once, and the machine
between them still stands on its call. -/
theorem run_halt_nested :
    ∃ m' s', (ofProgram (.ofLines "root" ["INC outer", "RUN outer", "OUT"])).run 20
        { Session.inMemory [("outer", "INC inner\nRUN inner"), ("inner", "HALT")] [] with
          tracer := { mode := .dryRun } } = some (.halted, m', s') ∧
      s'.flushes = 1 ∧ (m'.at? ["outer"]).map Machine.pc = some 1 := by
  have hrun : (((ofProgram (.ofLines "root" ["INC outer", "RUN outer", "OUT"])).run 20
      { Session.inMemory [("outer", "INC inner\nRUN inner"), ("inner", "HALT")] [] with
        tracer := { mode := .dryRun } }).map fun answer =>
          (answer.1.isHalted, (answer.2.1.at? ["outer"]).map Machine.pc)) =
      some (true, some 1) := by decide +kernel
  obtain ⟨⟨ending, m', s'⟩, h, hanswer⟩ := Option.map_eq_some_iff.1 hrun
  obtain ⟨hending, hpc⟩ := Prod.ext_iff.1 hanswer
  obtain rfl := Ending.eq_of_isHalted hending
  obtain ⟨hdispatched, hhalted⟩ := run_halt (rooted_ofProgram _) h
  obtain ⟨c, s₁, _, hreach, _, hhalt⟩ := hhalted rfl
  obtain ⟨_, _, _, hflushes⟩ := hdispatched c s₁ hreach hhalt
  exact ⟨m', s', h, hflushes, hpc⟩

end Machine

end AccMachine
