/-
**The trace does not influence a run.**

A session keeps no trace, shows it on the console, or collects it in the sheet.  Machines cannot
tell: a run ends in the same way in all three modes, after the same number of lines, and leaves the
same machine and the same input.  Only what is said differs.  A dry run says exactly what is said
without a trace; debugging says the entries besides, and these are the lines of the sheet.

Main definitions:

* `Session.inMode` — a session in another trace mode;
* `Session.Writable` — the file of the sheet can be written;
* `untraced`, `entriesOf` — what is said without the trace entries, and these entries;
* `Session.Unlogged`, `Session.Unsheeted`, `Session.Mirrored` — the pairs of sessions that go on in
  step.

Main results:

* `Session.unlogged_alike`, `Session.unsheeted_alike`, `Session.mirrored_alike` — machines cannot
  tell such sessions apart;
* `Machine.run_modes` — **the three modes agree on everything but the trace**.
-/

import AccMachine.Proofs.Agreement
import AccMachine.Proofs.Files
import AccMachine.Proofs.Halting
import AccMachine.Proofs.Transcript

set_option relaxedAutoImplicit false
set_option autoImplicit false

namespace AccMachine

/-! ### What is said besides the trace -/

/-- What is said without the trace entries. -/
def untraced (said : List Output) : List Output := said.filter fun o => o.entry?.isNone

/-- The trace entries of what is said. -/
def entriesOf (said : List Output) : List String := said.filterMap Output.entry?

namespace Session

variable {κ ι : Type}

/-! ### Modes -/

/-- The session in another trace mode. -/
def inMode (s : Session κ) (mode : TraceMode) : Session κ :=
  { s with tracer := { s.tracer with mode := mode } }

/-- The file of the sheet can be written, whatever the sheet holds. -/
def Writable (s : Session κ) : Prop :=
  ∀ text, ∃ files, s.files.write s.tracer.path text = .ok files

variable [Console κ]

/-! ### Sessions without a trace -/

/-- Both sessions keep no trace, and they differ in their log at most. -/
structure Unlogged (s t : Session κ) : Prop where
  shelf : t.shelf = s.shelf
  files : t.files = s.files
  console : t.console = s.console
  off : s.tracer.mode = .off ∧ t.tracer.mode = .off

omit [Console κ] in
theorem Unlogged.refl {s : Session κ} (h : s.tracer.mode = .off) : Unlogged s s :=
  ⟨rfl, rfl, rfl, h, h⟩

/-- **A machine cannot tell sessions apart by their log.** -/
theorem unlogged_alike : Alike (Unlogged (κ := κ)) where
  emit := by
    intro s t output _ h
    rw [emit_eq, emit_eq, h.console]
    exact ⟨rfl, h.shelf, h.files, rfl, h.off⟩
  trace := by
    intro s t words accumulator h
    simp only [trace, h.off.1, h.off.2]
    exact ⟨trivial, h⟩
  readLine := by
    intro s t h
    rw [readLine_eq, readLine_eq, h.console]
    exact ⟨rfl, h.shelf, h.files, rfl, h.off⟩
  source := by
    intro s t reference h
    simp only [Session.source, h.shelf, h.files]
  noteLeft := fun _ h => ⟨h.shelf, h.files, h.console, h.off⟩
  noteRight := fun _ h => ⟨h.shelf, h.files, h.console, h.off⟩

/-! ### A session without a trace beside a dry run -/

/-- A session that keeps no trace, and one in a dry run that began in the session `s₀`; they differ
only in the tracer and the log. -/
structure Unsheeted (s₀ off dry : Session κ) : Prop where
  shelf : dry.shelf = off.shelf
  files : dry.files = off.files
  console : dry.console = off.console
  unchanged : off.files = s₀.files ∧ dry.tracer.path = s₀.tracer.path
  offMode : off.tracer.mode = .off
  dryMode : dry.tracer.mode = .dryRun

/-- **A machine cannot tell a dry run from a session without a trace.** -/
theorem unsheeted_alike (s₀ : Session κ) : Alike (Unsheeted s₀) where
  emit := by
    intro off dry output _ h
    rw [emit_eq, emit_eq, h.console]
    exact ⟨rfl, h.shelf, h.files, rfl, h.unchanged, h.offMode, h.dryMode⟩
  trace := by
    intro off dry words accumulator h
    simp only [trace, h.offMode, h.dryMode]
    exact ⟨trivial, h.shelf, h.files, h.console, h.unchanged, h.offMode, h.dryMode⟩
  readLine := by
    intro off dry h
    rw [readLine_eq, readLine_eq, h.console]
    exact ⟨rfl, h.shelf, h.files, rfl, h.unchanged, h.offMode, h.dryMode⟩
  source := by
    intro off dry reference h
    simp only [Session.source, h.shelf, h.files]
  noteLeft := by
    intro off dry event h
    exact ⟨h.shelf, h.files, h.console, h.unchanged, h.offMode, h.dryMode⟩
  noteRight := by
    intro off dry event h
    exact ⟨h.shelf, h.files, h.console, h.unchanged, h.offMode, h.dryMode⟩

/-! ### Debugging beside a dry run -/

/-- A session in debug mode and one in a dry run that both began in the session `s₀`: the one has
said since then, besides, the entries that the other has in its sheet. -/
structure Mirrored (view : Console.Steady κ ι) (s₀ debug dry : Session κ) : Prop where
  shelf : dry.shelf = debug.shelf
  files : dry.files = debug.files
  input : view.input dry.console = view.input debug.console
  said : ∃ said, view.outputs debug.console = view.outputs s₀.console ++ said ∧
    view.outputs dry.console = view.outputs s₀.console ++ untraced said ∧
    dry.tracer.sheet = s₀.tracer.sheet ++ sheetText (entriesOf said)
  debugMode : debug.tracer.mode = .debug
  dryMode : dry.tracer.mode = .dryRun

/-- **A machine cannot tell a dry run from debugging** on a steady console. -/
theorem mirrored_alike (view : Console.Steady κ ι) (s₀ : Session κ) :
    Alike (Mirrored view s₀) where
  emit := by
    intro debug dry output ho h
    obtain ⟨said, hdebug, hdry, hsheet⟩ := h.said
    rw [emit_eq, emit_eq]
    refine ⟨by rw [view.emit_ok, view.emit_ok], h.shelf, h.files, ?_, ?_, h.debugMode, h.dryMode⟩
    · simp only [view.input_emit, h.input]
    · refine ⟨said ++ [output], ?_, ?_, ?_⟩
      · rw [view.outputs_append, hdebug, List.append_assoc]
      · rw [view.outputs_append, hdry]
        simp [untraced, ho]
      · simp [hsheet, entriesOf, ho]
  trace := by
    intro debug dry words accumulator h
    obtain ⟨said, hdebug, hdry, hsheet⟩ := h.said
    simp only [trace, h.debugMode, h.dryMode, emit_eq, view.emit_ok]
    refine ⟨trivial, h.shelf, h.files, ?_, ?_, h.debugMode, h.dryMode⟩
    · simp only [view.input_emit, h.input]
    · refine ⟨said ++ [.trace (traceEntry words accumulator)], ?_, ?_, ?_⟩
      · rw [view.outputs_append, hdebug, List.append_assoc]
      · rw [hdry]
        simp [untraced, Output.entry?]
      · rw [Tracer.append_eq, hsheet, String.append_assoc, ← sheetText_append]
        simp [entriesOf, Output.entry?]
  readLine := by
    intro debug dry h
    rw [readLine_eq, readLine_eq]
    refine ⟨?_, h.shelf, h.files, ?_, ?_, h.debugMode, h.dryMode⟩
    · rw [view.read_eq, view.read_eq, h.input]
    · simp only [view.input_read, h.input]
    · simpa only [view.outputs_read] using h.said
  source := by
    intro debug dry reference h
    simp only [Session.source, h.shelf, h.files]
  noteLeft := by
    intro debug dry event h
    exact ⟨h.shelf, h.files, h.input, h.said, h.debugMode, h.dryMode⟩
  noteRight := by
    intro debug dry event h
    exact ⟨h.shelf, h.files, h.input, h.said, h.debugMode, h.dryMode⟩

end Session

namespace Machine

variable {κ ι : Type}

/-! ### Whole runs -/

/-- Without a dry run, there is nothing to write at the end of a run. -/
theorem close_of_not_dryRun (m : Machine) {s : Session κ} (h : s.tracer.mode ≠ .dryRun)
    (ending : Ending) : m.close s ending = (ending, s) := by
  have hsheet : s.writeSheet = (.ok (), s) := by
    unfold Session.writeSheet
    split
    · rfl
    · rfl
    · next hm => exact absurd hm h
  cases ending with
  | halted => simp only [close, hsheet, ite_self]
  | _ => rfl

/-- A sheet that can be written does not change how a run ends, nor the console, nor the sheet. -/
theorem close_of_writable (m : Machine) {s : Session κ} (h : s.Writable) (ending : Ending) :
    ∃ s', m.close s ending = (ending, s') ∧ s'.console = s.console ∧ s'.tracer = s.tracer := by
  have hsheet : ∃ s', s.writeSheet = (.ok (), s') ∧ s'.console = s.console ∧
      s'.tracer = s.tracer := by
    obtain ⟨files, hfiles⟩ := h s.tracer.sheet
    unfold Session.writeSheet
    split
    · exact ⟨s, rfl, rfl, rfl⟩
    · exact ⟨s, rfl, rfl, rfl⟩
    · exact ⟨{ s.note (.writingSheet s.tracer.path) with files := files },
        by simp only [Session.note, hfiles], rfl, rfl⟩
  obtain ⟨s', hs', hconsole, htracer⟩ := hsheet
  cases ending with
  | halted =>
      by_cases hm : m.isRoot = true
      · exact ⟨s', by simp only [close, hm, if_true, hs'], hconsole, htracer⟩
      · exact ⟨s, by simp only [close, hm, if_false, Bool.false_eq_true], rfl, rfl⟩
  | _ => exact ⟨s, rfl, rfl, rfl⟩

variable [Console κ]

/-- Without a trace, to execute a line is to do what its words say. -/
theorem perform_line_off {s : Session κ} (h : s.tracer.mode = .off) (m : Machine) (text : String) :
    s.perform (m.line text) = s.perform (m.obeyWords (Text.wordsOf text)) := by
  rw [line_def]
  simp only [Session.perform, Session.trace, h]

/-- Without a trace, a run is what its chain does. -/
theorem run_of_off {s : Session κ} (h : s.tracer.mode = .off) (m : Machine) (fuel : Nat) :
    m.run fuel s = (Chain.start m).runFor fuel s := by
  rcases Chain.runFor_alike Session.unlogged_alike fuel (Chain.start m) (.refl h) with
    ⟨hnone, -⟩ | ⟨ending, m', s', _, hsome, -, hs'⟩
  · simp only [run_def, hnone]
  · have hclose : m'.close s' ending = (ending, s') :=
      m'.close_of_not_dryRun (by rw [hs'.off.1]; decide) ending
    simp only [run_def, hsome, hclose]

/-- **The three modes agree on everything but the trace.**  Let a machine run in a session without
a trace, in the same session with debugging, and in the same session as a dry run whose sheet can be
written, on a steady console.  With any number of lines that they may take, none of the three runs
has ended, or all have ended in the same way, with the same machine and the same input left.  The
dry run has then said what was said without a trace; debugging has said this too, and the entries
of the trace between, which are the lines that the dry run has added to its sheet. -/
theorem run_modes (view : Console.Steady κ ι) (m : Machine) {s : Session κ} (hw : s.Writable)
    (fuel : Nat) :
    (m.run fuel (s.inMode .off) = none ∧ m.run fuel (s.inMode .debug) = none ∧
      m.run fuel (s.inMode .dryRun) = none) ∨
    ∃ ending m' off debug dry said,
      m.run fuel (s.inMode .off) = some (ending, m', off) ∧
      m.run fuel (s.inMode .debug) = some (ending, m', debug) ∧
      m.run fuel (s.inMode .dryRun) = some (ending, m', dry) ∧
      view.input debug.console = view.input off.console ∧
      view.input dry.console = view.input off.console ∧
      view.outputs debug.console = view.outputs s.console ++ said ∧
      view.outputs off.console = view.outputs s.console ++ untraced said ∧
      view.outputs dry.console = view.outputs off.console ∧
      dry.tracer.sheet = s.tracer.sheet ++ sheetText (entriesOf said) := by
  have hoff : Session.Unsheeted s (s.inMode .off) (s.inMode .dryRun) :=
    ⟨rfl, rfl, rfl, ⟨rfl, rfl⟩, rfl, rfl⟩
  have hdebug : Session.Mirrored view s (s.inMode .debug) (s.inMode .dryRun) :=
    ⟨rfl, rfl, rfl, ⟨[], by simp [Session.inMode, untraced, entriesOf]⟩, rfl, rfl⟩
  have hruns := Chain.runFor_alike (Session.unsheeted_alike s) fuel (Chain.start m) hoff
  have hruns' := Chain.runFor_alike (Session.mirrored_alike view s) fuel (Chain.start m) hdebug
  rcases hruns with ⟨hnone, hdry⟩ | ⟨ending, m', off, dry, hoff, hdry, hunsheeted⟩
  · rcases hruns' with ⟨hnone', -⟩ | ⟨_, _, _, _, -, hdry', -⟩
    · exact Or.inl ⟨by simp only [run_def, hnone], by simp only [run_def, hnone'],
        by simp only [run_def, hdry]⟩
    · rw [hdry] at hdry'
      cases hdry'
  · rcases hruns' with ⟨-, hdry'⟩ | ⟨ending', m₁, debug, dry', hdebug, hdry', hmirrored⟩
    · rw [hdry] at hdry'
      cases hdry'
    · rw [hdry] at hdry'
      cases hdry'
      obtain ⟨hfiles, hpath⟩ := hunsheeted.unchanged
      have hwritable : dry.Writable := by
        intro text
        rw [hunsheeted.files, hfiles, hpath]
        exact hw text
      obtain ⟨dry', hclose, hconsole, htracer⟩ := m'.close_of_writable hwritable ending
      have hcloseOff := m'.close_of_not_dryRun (s := off) (by simp [hunsheeted.offMode]) ending
      have hcloseDebug := m'.close_of_not_dryRun (s := debug) (by simp [hmirrored.debugMode]) ending
      obtain ⟨said, hsaid, huntraced, hsheet⟩ := hmirrored.said
      refine Or.inr ⟨ending, m', off, debug, dry', said, by simp only [run_def, hoff, hcloseOff],
        by simp only [run_def, hdebug, hcloseDebug], by simp only [run_def, hdry, hclose], ?_, ?_,
        hsaid, ?_, ?_, ?_⟩
      · rw [← hmirrored.input, hunsheeted.console]
      · rw [hconsole, hunsheeted.console]
      · rw [← hunsheeted.console, huntraced]
      · rw [hconsole, hunsheeted.console]
      · rw [htracer, hsheet]

/-- In a session in memory the sheet can be written. -/
theorem writable_inMemory (texts : List (String × String)) (input : List String) :
    (Session.inMemory texts input).Writable := by
  have hwrite : ∃ files, FileTree.empty.write "dryrun.txt" "" = .ok files := ⟨_, rfl⟩
  obtain ⟨files, hfiles⟩ := hwrite
  intro text
  exact FileTree.write_any hfiles text

/-- A root that calls a subroutine, which reads a slot that was never stored, and then halts.
Debugging shows the six lines that are executed besides the warning and the value, and the dry run
has them in its sheet. -/
theorem run_modes_call :
    ∃ (m' : Machine) (off debug dry : Session Buffer) (said : List Output),
      (ofProgram (.ofLines "root" ["INC leaf", "RUN leaf", "OUT", "HALT"])).run 20
        ((Session.inMemory [("leaf", "ADD x\nRET")] []).inMode .off) = some (.halted, m', off) ∧
      (ofProgram (.ofLines "root" ["INC leaf", "RUN leaf", "OUT", "HALT"])).run 20
        ((Session.inMemory [("leaf", "ADD x\nRET")] []).inMode .debug) =
          some (.halted, m', debug) ∧
      (ofProgram (.ofLines "root" ["INC leaf", "RUN leaf", "OUT", "HALT"])).run 20
        ((Session.inMemory [("leaf", "ADD x\nRET")] []).inMode .dryRun) =
          some (.halted, m', dry) ∧
      debug.console.outputs.toList = said ∧ off.console.outputs.toList = untraced said ∧
      dry.console.outputs.toList = untraced said ∧ dry.tracer.sheet = sheetText (entriesOf said) ∧
      untraced said = [missingSlot "x", .value 0] ∧ (entriesOf said).length = 6 := by
  have hrun : (((ofProgram (.ofLines "root" ["INC leaf", "RUN leaf", "OUT", "HALT"])).run 20
      ((Session.inMemory [("leaf", "ADD x\nRET")] []).inMode .debug)).map fun answer =>
        (answer.1.isHalted, untraced answer.2.2.console.outputs.toList,
          (entriesOf answer.2.2.console.outputs.toList).length)) =
      some (true, [missingSlot "x", .value 0], 6) := by decide +kernel
  obtain ⟨⟨ending, m', debug⟩, hdebug, hanswer⟩ := Option.map_eq_some_iff.1 hrun
  simp only [Prod.mk.injEq] at hanswer
  obtain ⟨hhalted, huntraced, hlength⟩ := hanswer
  obtain rfl := Ending.eq_of_isHalted hhalted
  rcases run_modes Buffer.steady
      (ofProgram (.ofLines "root" ["INC leaf", "RUN leaf", "OUT", "HALT"]))
      (writable_inMemory [("leaf", "ADD x\nRET")] []) 20 with
    ⟨-, hnone, -⟩ | ⟨_, _, off, _, dry, said, hoff, hdebug', hdry, -, -, hsaid, hsaid', heq, hsheet⟩
  · rw [hdebug] at hnone
    cases hnone
  · rw [hdebug] at hdebug'
    cases hdebug'
    have hshown : debug.console.outputs.toList = said := hsaid
    have hkept : dry.console.outputs.toList = off.console.outputs.toList := heq
    refine ⟨m', off, debug, dry, said, hoff, hdebug, hdry, hshown, hsaid', hkept.trans hsaid', ?_,
      hshown ▸ huntraced, hshown ▸ hlength⟩
    exact hsheet.trans String.empty_append

end Machine

end AccMachine
