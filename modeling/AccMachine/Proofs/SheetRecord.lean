/-
**The sheet is a record of the run.**

In a dry run the sheet of a session gets one entry for every line that a machine executes, in the
order in which they are executed: the words of the line, and the accumulator before it.  It does
not matter whether the line can be read, fails or halts.  What stands in the sheet stays there, and
the sheet is written to its file when a root halts, and at no other time.  On a console that refuses
nothing, the values and characters that were shown can be read off the entries.

Main definitions:

* `Record` — a line that was executed, with its entry and what it shows;
* `Chain.Executes` — the chains that a run comes through, with the lines that were executed;
* `Machine.RunsThrough`, `Session.Runs` — a whole run, and runs one after another in one session;
* `Chain.Refuses` — the console refuses something on the current line.

Main results:

* `Chain.step_tracer` — a step adds the entry of its line to the sheet, and nothing else;
* `Chain.step_shown` — a step shows what its line is there to show;
* `Session.Runs.sheet_faithful` — **the sheet is a faithful record of all runs of a session**, and
  its file holds it after every halt.
-/

import AccMachine.Proofs.Files
import AccMachine.Proofs.Halting
import AccMachine.Proofs.Speech
import AccMachine.Proofs.Transcript

set_option relaxedAutoImplicit false
set_option autoImplicit false

namespace AccMachine

/-! ### Records -/

/-- A line that was executed: its words, and the accumulator that its machine had before. -/
structure Record where
  words : List String
  accumulator : Int64
  deriving DecidableEq

/-- The entry of a record in the sheet. -/
def Record.entry (r : Record) : String := traceEntry r.words r.accumulator

/-- What the line of a record is there to show: the accumulator as a value, or as a character. -/
def Record.shown? (r : Record) : Option Output :=
  match Line.decode r.words with
  | .ok (.instruction i) =>
    match i.mnemonic with
    | .output => some (.value r.accumulator)
    | .outputChar => some (.char (Output.characterOf r.accumulator))
    | _ => none
  | _ => none

/-- Whether an output is a value or a character. -/
def Output.isShown : Output → Bool
  | value _ => true
  | char _ => true
  | _ => false

theorem Output.IsWarning.isShown {o : Output} (h : o.IsWarning) : o.isShown = false := by
  cases o with
  | warning text => rfl
  | _ => cases h

namespace Session

variable {κ : Type}

/-- Notes change nothing but the log. -/
theorem noteAll_eq (s : Session κ) (events : List LogEvent) :
    ∃ log, s.noteAll events = { s with log := log } := by
  induction events generalizing s with
  | nil => exact ⟨s.log, rfl⟩
  | cons event events ih =>
      obtain ⟨log, hlog⟩ := ih (s.note event)
      exact ⟨log, hlog⟩

variable [Console κ] {α : Type}

/-- A dialogue that records nothing leaves the tracer alone. -/
theorem perform_tracer {P : Output → Prop} {d : Dialogue α} (hd : d.Speaks P) (s : Session κ) :
    (s.perform d).2.tracer = s.tracer := by
  induction d generalizing s with
  | done a => rfl
  | fail cause => rfl
  | trace words accumulator next ih => cases hd
  | emit output next ih =>
      simp only [perform, emit_eq]
      rcases Console.emit s.console output with ⟨answer, console⟩
      cases answer with
      | error fault => rfl
      | ok _ => exact ih hd.2 _
  | read next ih =>
      simp only [perform, readLine_eq]
      rcases Console.read s.console with ⟨answer, console⟩
      cases answer with
      | error fault => rfl
      | ok line => exact ih line (hd line) _
  | load reference next ih =>
      simp only [perform, load]
      cases s.source reference with
      | error fault => rfl
      | ok text => exact ih _ (hd _) _
  | note event next ih => exact ih hd _

/-- What a dialogue says, if the console refuses nothing: only outputs that it can say. -/
theorem perform_outputs (view : Console.Transcript κ) {P : Output → Prop} {d : Dialogue α}
    (hd : d.Speaks P) {s : Session κ} (hok : ∀ fault, (s.perform d).1 ≠ .error (.device fault)) :
    ∃ said, view.outputs (s.perform d).2.console = view.outputs s.console ++ said ∧
      ∀ o ∈ said, P o := by
  induction d generalizing s with
  | done a => exact ⟨[], (List.append_nil _).symm, nofun⟩
  | fail cause => exact ⟨[], (List.append_nil _).symm, nofun⟩
  | trace words accumulator next ih => cases hd
  | emit output next ih =>
      simp only [perform, emit_eq] at hok ⊢
      rcases hemit : Console.emit s.console output with ⟨answer, console⟩
      simp only [hemit] at hok ⊢
      cases answer with
      | error fault => exact absurd rfl (hok fault)
      | ok _ =>
          obtain ⟨said, hsaid, hP⟩ := ih hd.2 hok
          have hkept := view.outputs_emit s.console output (by rw [hemit])
          rw [hemit] at hkept
          refine ⟨output :: said, ?_, List.forall_mem_cons.2 ⟨hd.1, hP⟩⟩
          rw [hsaid, hkept, List.append_assoc]
          rfl
  | read next ih =>
      simp only [perform, readLine_eq] at hok ⊢
      have hkept := view.outputs_read s.console
      rcases hread : Console.read s.console with ⟨answer, console⟩
      simp only [hread] at hok hkept ⊢
      cases answer with
      | error fault => exact absurd rfl (hok fault)
      | ok line =>
          obtain ⟨said, hsaid, hP⟩ := ih line (hd line) hok
          exact ⟨said, by rw [hsaid, hkept], hP⟩
  | load reference next ih =>
      simp only [perform, load] at hok ⊢
      cases hsource : s.source reference with
      | error fault => exact ⟨[], (List.append_nil _).symm, nofun⟩
      | ok text =>
          simp only [hsource] at hok ⊢
          exact ih _ (hd _) hok
  | note event next ih => exact ih hd hok

/-- In a dry run a line is executed after its entry was added to the sheet. -/
theorem perform_line_dryRun {s : Session κ} (hmode : s.tracer.mode = .dryRun) (m : Machine)
    (text : String) :
    s.perform (m.line text) =
      { s with tracer := s.tracer.append (traceEntry (Text.wordsOf text) m.accumulator) }.perform
        (m.obeyWords (Text.wordsOf text)) := by
  simp only [Machine.line_def, perform, trace, hmode]

end Session

namespace Machine

variable {κ : Type} [Console κ]

/-! ### What a line shows -/

/-- The dialogue of an instruction that is there to show something. -/
theorem obey_output (m : Machine) {i : Instruction} (h : i.mnemonic = .output) :
    m.obey i = m.announce (.value m.accumulator) := by
  rw [obey_def]
  cases i.operand with
  | some operand => simp only [h, execute_def]
  | none => simp only [h, execute_def, Mnemonic.takesOperand, Bool.false_eq_true, if_false]

theorem obey_outputChar (m : Machine) {i : Instruction} (h : i.mnemonic = .outputChar) :
    m.obey i = m.announce (.char (Output.characterOf m.accumulator)) := by
  rw [obey_def]
  cases i.operand with
  | some operand => simp only [h, execute_def]
  | none => simp only [h, execute_def, Mnemonic.takesOperand, Bool.false_eq_true, if_false]

theorem obey_warns (m : Machine) {i : Instruction} (hvalue : i.mnemonic ≠ .output)
    (hchar : i.mnemonic ≠ .outputChar) : (m.obey i).Speaks Output.IsWarning := by
  rw [obey_def]
  split
  · exact m.execute_warns _ hvalue hchar
  · split
    · trivial
    · exact m.execute_warns _ hvalue hchar

/-- An announcement that is not refused is one more output. -/
theorem perform_announce (view : Console.Transcript κ) (m : Machine) (output : Output)
    {s : Session κ} (hok : ∀ fault, (s.perform (m.announce output)).1 ≠ .error (.device fault)) :
    view.outputs (s.perform (m.announce output)).2.console =
      view.outputs s.console ++ [output] := by
  have hkept := view.outputs_emit s.console output
  simp only [announce_def, Dialogue.bind_eq, Dialogue.say_bind, Dialogue.pure_eq, Session.perform,
    Session.emit_eq] at hok ⊢
  rcases hemit : Console.emit s.console output with ⟨answer, console⟩
  simp only [hemit] at hok hkept ⊢
  cases answer with
  | error fault => exact absurd rfl (hok fault)
  | ok _ => exact hkept rfl

/-- The values and characters that a line shows, if the console refuses nothing, are what its record
says. -/
theorem perform_obeyWords_shown (view : Console.Transcript κ) (m : Machine) (words : List String)
    {s : Session κ} (hok : ∀ fault, (s.perform (m.obeyWords words)).1 ≠ .error (.device fault)) :
    ∃ said, view.outputs (s.perform (m.obeyWords words)).2.console =
        view.outputs s.console ++ said ∧
      said.filter Output.isShown = (Record.shown? ⟨words, m.accumulator⟩).toList := by
  -- Most lines only warn, and their record shows nothing.
  have hquiet : (m.obeyWords words).Speaks Output.IsWarning →
      Record.shown? ⟨words, m.accumulator⟩ = none →
      ∃ said, view.outputs (s.perform (m.obeyWords words)).2.console =
          view.outputs s.console ++ said ∧
        said.filter Output.isShown = (Record.shown? ⟨words, m.accumulator⟩).toList := by
    intro hspeaks hnone
    obtain ⟨said, hsaid, hwarnings⟩ := Session.perform_outputs view hspeaks hok
    refine ⟨said, hsaid, ?_⟩
    rw [hnone]
    exact List.filter_eq_nil_iff.2 fun o ho => by simp [(hwarnings o ho).isShown]
  cases hd : Line.decode words with
  | error flaw =>
      refine hquiet ?_ (by simp only [Record.shown?, hd])
      simp only [obeyWords_def, hd]
      trivial
  | ok line =>
      cases line with
      | blank =>
          refine hquiet ?_ (by simp only [Record.shown?, hd])
          simp only [obeyWords_def, hd]
          trivial
      | anchor label =>
          refine hquiet ?_ (by simp only [Record.shown?, hd])
          simp only [obeyWords_def, hd]
          trivial
      | instruction i =>
          have hobey : m.obeyWords words = m.obey i := by simp only [obeyWords_def, hd]
          by_cases hvalue : i.mnemonic = .output
          · rw [hobey, m.obey_output hvalue] at hok ⊢
            refine ⟨_, perform_announce view m _ hok, ?_⟩
            simp [Record.shown?, hd, hvalue, Output.isShown]
          · by_cases hchar : i.mnemonic = .outputChar
            · rw [hobey, m.obey_outputChar hchar] at hok ⊢
              refine ⟨_, perform_announce view m _ hok, ?_⟩
              simp [Record.shown?, hd, hchar, Output.isShown]
            · refine hquiet (hobey ▸ m.obey_warns hvalue hchar) ?_
              simp only [Record.shown?, hd]

end Machine

namespace Chain

variable {κ : Type} [Console κ]

/-! ### Steps -/

/-- The console refuses something on the current line. -/
def Refuses (c : Chain) (s : Session κ) : Prop :=
  ∃ text fault s', c.active.currentLine? = some text ∧
    s.perform (c.active.line text) = (.error (.device fault), s')

/-- In a run that halts, the console refuses nothing. -/
theorem Reaches.not_refuses {c c' : Chain} {s s' s₁ : Session κ} {m : Machine}
    (h : Reaches c s c' s') (hs : c'.step s' = (.ended .halted m, s₁)) {c₂ : Chain}
    {s₂ : Session κ} (h₂ : Reaches c s c₂ s₂) : ¬ c₂.Refuses s₂ := by
  rintro ⟨text, fault, s₃, ht, hp⟩
  have hfailed := step_of_line ht hp
  -- A chain that is refused something stops, so it is the one that halts.
  rcases (h.last hs h₂).head_cases with ⟨rfl, rfl⟩ | ⟨c₄, s₄, hmove, -⟩
  · rw [hs] at hfailed
    have hended := congrArg Prod.fst hfailed
    simp only [settle, proceed, deliver_failed] at hended
    cases hended
  · rw [hfailed] at hmove
    have hended := congrArg Prod.fst hmove
    simp only [settle, proceed, deliver_failed] at hended
    cases hended

/-- The record of the line that the active machine is about to execute, if it has one left. -/
def record? (c : Chain) : Option Record :=
  c.active.currentLine?.map fun text => ⟨Text.wordsOf text, c.active.accumulator⟩

/-- **In a dry run a step adds the entry of its line to the sheet**, and changes nothing else of
the tracer. -/
theorem step_tracer {c : Chain} {s : Session κ} (hmode : s.tracer.mode = .dryRun) :
    (c.step s).2.tracer = { s.tracer with
      sheet := s.tracer.sheet ++ sheetText (c.record?.toList.map Record.entry) } := by
  cases ht : c.active.currentLine? with
  | none =>
      obtain ⟨log, hlog⟩ := s.noteAll_eq c.runOut.2
      rw [step_of_none ht, hlog]
      simp [record?, ht]
  | some text =>
      rcases hp : s.perform (c.active.line text) with ⟨result, s'⟩
      have htracer : s'.tracer =
          s.tracer.append (traceEntry (Text.wordsOf text) c.active.accumulator) := by
        rw [Session.perform_line_dryRun hmode] at hp
        have hkept := Session.perform_tracer (c.active.obeyWords_speaks (Text.wordsOf text))
          { s with tracer :=
            s.tracer.append (traceEntry (Text.wordsOf text) c.active.accumulator) }
        rwa [hp] at hkept
      obtain ⟨log, hlog⟩ := s'.noteAll_eq (c.settle result).2
      rw [step_of_line ht hp, hlog]
      simp only [htracer, Tracer.append_eq, record?, ht]
      rfl

/-- **In a dry run a step shows what its line is there to show**, if the console refuses
nothing. -/
theorem step_shown (view : Console.Transcript κ) {c : Chain} {s : Session κ}
    (hmode : s.tracer.mode = .dryRun) (hconsole : ¬ c.Refuses s) :
    ∃ said, view.outputs (c.step s).2.console = view.outputs s.console ++ said ∧
      said.filter Output.isShown = c.record?.toList.filterMap Record.shown? := by
  cases ht : c.active.currentLine? with
  | none =>
      obtain ⟨log, hlog⟩ := s.noteAll_eq c.runOut.2
      rw [step_of_none ht, hlog]
      exact ⟨[], (List.append_nil _).symm, by simp [record?, ht]⟩
  | some text =>
      rcases hp : s.perform (c.active.line text) with ⟨result, s'⟩
      have hok : ∀ fault, result ≠ .error (.device fault) := by
        rintro fault rfl
        exact hconsole ⟨text, fault, s', ht, hp⟩
      rw [Session.perform_line_dryRun hmode] at hp
      obtain ⟨said, hsaid, hshown⟩ := c.active.perform_obeyWords_shown view (Text.wordsOf text)
        (s := { s with tracer :=
          s.tracer.append (traceEntry (Text.wordsOf text) c.active.accumulator) })
        (by rw [hp]; exact hok)
      rw [hp] at hsaid
      rw [← Session.perform_line_dryRun hmode] at hp
      obtain ⟨log, hlog⟩ := s'.noteAll_eq (c.settle result).2
      rw [step_of_line ht hp, hlog]
      refine ⟨said, hsaid, ?_⟩
      rw [hshown, record?, ht]
      cases hr : Record.shown? ⟨Text.wordsOf text, c.active.accumulator⟩ <;> simp [hr]

/-! ### The outermost machine -/

omit [Console κ] in
/-- The parent of the outermost machine does not depend on what the callers take back. -/
theorem parent_adoptAll {m n : Machine} (h : m.parent = n.parent) (callers : List Frame) :
    (adoptAll m callers).parent = (adoptAll n callers).parent := by
  induction callers generalizing m n with
  | nil => exact h
  | cons f callers ih => exact ih rfl

omit [Console κ] in
/-- A move keeps the parent of the outermost machine. -/
theorem Move.parent {c c' : Chain} (h : c.Move c') :
    (adoptAll c'.active c'.callers).parent = (adoptAll c.active c.callers).parent := by
  cases h with
  | @next _ m ht he => exact parent_adoptAll (m := m.advance) he.kept.2.1 c.callers
  | @jump _ m target ht he => exact parent_adoptAll (m := m.goto target) he.kept.2.1 c.callers
  | @call _ name child ht hline hchild =>
      exact parent_adoptAll (m := c.active.adopt name (child.invoked c.active.accumulator))
        (n := c.active) rfl c.callers
  | @ret _ m f callers ht he hf =>
      rw [hf]
      exact parent_adoptAll
        (m := ((f.caller.adopt f.callee m).accumulate m.accumulator).advance)
        (n := f.caller.adopt f.callee c.active) rfl callers

theorem Stop.parent {c : Chain} {s : Session κ} {ending : Ending} {m : Machine}
    (h : c.Stop s ending m) : m.parent = (adoptAll c.active c.callers).parent := by
  cases h with
  | failed ht hp => rfl
  | halted ht hp => rfl
  | returned ht he hf =>
      rw [hf]
      exact he.kept.2.1
  | finished ht hf => rw [hf, adoptAll]
  | lost ht hf => rw [hf]

/-- The machine that is left at the end of a run has the parent that it had at the beginning. -/
theorem Reaches.parent {c c' : Chain} {s s' s₁ : Session κ} {ending : Ending} {m : Machine}
    (h : Reaches c s c' s') (hs : c'.step s' = (.ended ending m, s₁)) :
    m.parent = (adoptAll c.active c.callers).parent := by
  rw [(stop_of_step hs).parent]
  exact h.keeps (P := fun c₁ =>
    (adoptAll c₁.active c₁.callers).parent = (adoptAll c.active c.callers).parent)
    (fun _ _ hm => hm.parent.trans) rfl

/-! ### The lines that a run executes -/

/-- `Executes c s records c' s'`: a run that is at the chain `c` in the session `s` comes to the
chain `c'` in the session `s'`, and has executed the lines of the records on its way, whichever
machine of the chain was active. -/
inductive Executes (c : Chain) (s : Session κ) : List Record → Chain → Session κ → Prop
  | refl : Executes c s [] c s
  | tail {records : List Record} {c₁ c₂ : Chain} {s₁ s₂ : Session κ}
      (h : Executes c s records c₁ s₁) (hs : c₁.step s₁ = (.running c₂, s₂)) :
      Executes c s (records ++ c₁.record?.toList) c₂ s₂

theorem Executes.reaches {c c' : Chain} {s s' : Session κ} {records : List Record}
    (h : Executes c s records c' s') : Reaches c s c' s' := by
  induction h with
  | refl => exact .refl
  | tail _ hs ih => exact ih.tail hs

theorem Reaches.executes {c c' : Chain} {s s' : Session κ} (h : Reaches c s c' s') :
    ∃ records, Executes c s records c' s' := by
  induction h with
  | refl => exact ⟨[], .refl⟩
  | tail _ hs ih =>
      obtain ⟨records, hrecords⟩ := ih
      exact ⟨_, hrecords.tail hs⟩

/-- What a dry run has added to the sheet: the entries of the lines that it has executed. -/
theorem Executes.tracer {c c' : Chain} {s s' : Session κ} {records : List Record}
    (hmode : s.tracer.mode = .dryRun) (h : Executes c s records c' s') :
    s'.tracer = { s.tracer with
      sheet := s.tracer.sheet ++ sheetText (records.map Record.entry) } := by
  induction h with
  | refl => simp
  | @tail records c₁ c₂ s₁ s₂ _ hs ih =>
      have hstep := step_tracer (c := c₁) (s := s₁) (by rw [ih]; exact hmode)
      rw [hs] at hstep
      rw [hstep, ih, List.map_append, sheetText_append, String.append_assoc]

/-- What a dry run has shown, if the console refused nothing: what the lines that it has executed
are there to show. -/
theorem Executes.shown (view : Console.Transcript κ) {c c' : Chain} {s s' : Session κ}
    {records : List Record} (hmode : s.tracer.mode = .dryRun) (h : Executes c s records c' s')
    (hconsole : ∀ c₁ s₁, Reaches c s c₁ s₁ → ¬ c₁.Refuses s₁) :
    ∃ said, view.outputs s'.console = view.outputs s.console ++ said ∧
      said.filter Output.isShown = records.filterMap Record.shown? := by
  induction h with
  | refl => exact ⟨[], (List.append_nil _).symm, rfl⟩
  | @tail records c₁ c₂ s₁ s₂ h hs ih =>
      obtain ⟨said, hsaid, hshown⟩ := ih
      have hmode₁ : s₁.tracer.mode = .dryRun := by
        rw [h.tracer hmode]
        exact hmode
      obtain ⟨more, hmore, hmoreShown⟩ := step_shown view hmode₁ (hconsole c₁ s₁ h.reaches)
      rw [hs] at hmore
      refine ⟨said ++ more, ?_, ?_⟩
      · rw [hmore, hsaid, List.append_assoc]
      · rw [List.filter_append, hshown, hmoreShown, List.filterMap_append]

end Chain

/-! ### Whole runs, and runs one after another -/

section

variable {κ : Type} [Console κ]

/-- `m.RunsThrough s records ending m' s'`: the run of the machine `m` in the session `s` executes
the lines of the records, comes to that ending, and leaves `m'` and `s'`. -/
def Machine.RunsThrough (m : Machine) (s : Session κ) (records : List Record) (ending : Ending)
    (m' : Machine) (s' : Session κ) : Prop :=
  ∃ earlier c s₁ ending₁ s₂, Chain.Executes (Chain.start m) s earlier c s₁ ∧
    c.step s₁ = (.ended ending₁ m', s₂) ∧ m'.close s₂ ending₁ = (ending, s') ∧
    records = earlier ++ c.record?.toList

/-- `s.Runs records s'`: runs of roots, one after another, lead from the session `s` to `s'`, and
have executed the lines of the records, all together. -/
inductive Session.Runs (s : Session κ) : List Record → Session κ → Prop
  | none : Runs s [] s
  | run {records more : List Record} {s₁ s₂ : Session κ} {m m' : Machine} {ending : Ending}
      (h : Runs s records s₁) (hm : m.isRoot = true) (hr : m.RunsThrough s₁ more ending m' s₂) :
      Runs s (records ++ more) s₂

namespace Machine

/-- A run that ends has executed certain lines. -/
theorem runsThrough_of_run {m m' : Machine} {s s' : Session κ} {ending : Ending} {fuel : Nat}
    (h : m.run fuel s = some (ending, m', s')) :
    ∃ records, m.RunsThrough s records ending m' s' := by
  obtain ⟨c, s₁, ending₁, s₂, hreach, hstep, hclose⟩ := run_eq_some_iff.1 ⟨fuel, h⟩
  obtain ⟨earlier, hearlier⟩ := hreach.executes
  exact ⟨_, earlier, c, s₁, ending₁, s₂, hearlier, hstep, hclose, rfl⟩

omit [Console κ] in
/-- Closing a run leaves the console and the tracer alone. -/
theorem close_keeps {m : Machine} {s s' : Session κ} {ending ending' : Ending}
    (h : m.close s ending = (ending', s')) : s'.console = s.console ∧ s'.tracer = s.tracer := by
  have hsheet : s.writeSheet.2.console = s.console ∧ s.writeSheet.2.tracer = s.tracer := by
    unfold Session.writeSheet
    split
    · exact ⟨rfl, rfl⟩
    · exact ⟨rfl, rfl⟩
    · dsimp only
      split <;> exact ⟨rfl, rfl⟩
  cases ending with
  | halted =>
      simp only [close] at h
      split at h
      · split at h
        · next hw =>
            cases h
            rwa [hw] at hsheet
        · next hw =>
            cases h
            rwa [hw] at hsheet
      · cases h
        exact ⟨rfl, rfl⟩
  | _ =>
      cases h
      exact ⟨rfl, rfl⟩

omit [Console κ] in
/-- Closing a run does not depend on the console. -/
theorem close_mapConsole {κ' : Type} (f : κ → κ') (m : Machine) (s : Session κ)
    (ending : Ending) :
    m.close (s.mapConsole f) ending =
      ((m.close s ending).1, (m.close s ending).2.mapConsole f) := by
  cases ending with
  | halted =>
      simp only [close, Session.writeSheet_mapConsole]
      split
      · rcases s.writeSheet with ⟨_ | _, s'⟩ <;> rfl
      · rfl
  | _ => rfl

omit [Console κ] in
/-- In a dry run, a root that ends halted has its sheet written to the file; a run that ends
otherwise leaves the files as they were. -/
theorem close_files {m : Machine} (hm : m.isRoot = true) {s s' : Session κ}
    (hmode : s.tracer.mode = .dryRun) {ending ending' : Ending}
    (h : m.close s ending = (ending', s')) :
    (ending' = .halted → s.files.write s.tracer.path s.tracer.sheet = .ok s'.files) ∧
      (ending' ≠ .halted → s'.files = s.files) := by
  by_cases hhalted : ending = .halted
  · subst hhalted
    have hw := close_halted hm h
    simp only [Session.writeSheet, hmode] at hw
    cases hfiles : (s.note (.writingSheet s.tracer.path)).files.write s.tracer.path
        s.tracer.sheet with
    | ok files =>
        rw [hfiles] at hw
        rcases hw with ⟨hw, rfl⟩ | ⟨fault, hw, -⟩
        · cases hw
          exact ⟨fun _ => hfiles, fun hne => absurd rfl hne⟩
        · cases hw
    | error fault =>
        rw [hfiles] at hw
        rcases hw with ⟨hw, -⟩ | ⟨fault, hw, rfl⟩
        · cases hw
        · cases hw
          exact ⟨fun heq => (by cases heq), fun _ => rfl⟩
  · rw [close_of_ne_halted hhalted] at h
    cases h
    exact ⟨fun heq => absurd heq hhalted, fun _ => rfl⟩

variable {m m' : Machine} {s s' : Session κ} {records : List Record} {ending : Ending}

/-- **A dry run has added the entries of its lines to the sheet**, and nothing else. -/
theorem RunsThrough.tracer (hmode : s.tracer.mode = .dryRun)
    (h : m.RunsThrough s records ending m' s') :
    s'.tracer = { s.tracer with
      sheet := s.tracer.sheet ++ sheetText (records.map Record.entry) } := by
  obtain ⟨earlier, c, s₁, ending₁, s₂, hearlier, hstep, hclose, rfl⟩ := h
  have h₁ := hearlier.tracer hmode
  have h₂ := Chain.step_tracer (c := c) (s := s₁) (by rw [h₁]; exact hmode)
  rw [hstep] at h₂
  rw [(close_keeps hclose).2, h₂, h₁, List.map_append, sheetText_append, String.append_assoc]

/-- **What a dry run has shown** on a console that refused nothing is what its lines are there to
show. -/
theorem RunsThrough.shown (view : Console.Transcript κ) (hmode : s.tracer.mode = .dryRun)
    (h : m.RunsThrough s records ending m' s')
    (hconsole : ∀ c s₁, Chain.Reaches (Chain.start m) s c s₁ → ¬ c.Refuses s₁) :
    ∃ said, view.outputs s'.console = view.outputs s.console ++ said ∧
      said.filter Output.isShown = records.filterMap Record.shown? := by
  obtain ⟨earlier, c, s₁, ending₁, s₂, hearlier, hstep, hclose, rfl⟩ := h
  obtain ⟨said, hsaid, hshown⟩ := hearlier.shown view hmode hconsole
  have hmode₁ : s₁.tracer.mode = .dryRun := by
    rw [hearlier.tracer hmode]
    exact hmode
  obtain ⟨more, hmore, hmoreShown⟩ :=
    Chain.step_shown view hmode₁ (hconsole c s₁ hearlier.reaches)
  rw [hstep] at hmore
  refine ⟨said ++ more, ?_, ?_⟩
  · rw [(close_keeps hclose).1, hmore, hsaid, List.append_assoc]
  · rw [List.filter_append, hshown, hmoreShown, List.filterMap_append]

/-- The last line of a run that ends halted is a halt. -/
theorem RunsThrough.last_halts (h : m.RunsThrough s records .halted m' s') :
    ∃ last i, records.getLast? = some last ∧
      Line.decode last.words = .ok (.instruction i) ∧ i.mnemonic = .halt := by
  obtain ⟨earlier, c, s₁, ending₁, s₂, hearlier, hstep, hclose, rfl⟩ := h
  obtain rfl := of_close_halted hclose
  obtain ⟨text, i, ht, hd, hi, -⟩ := (Chain.stop_of_step hstep).dispatches_halt
  refine ⟨⟨Text.wordsOf text, c.active.accumulator⟩, i, ?_, hd, hi⟩
  simp [Chain.record?, ht]

/-- **The file of the sheet is written when a root ends halted**, and at no other time. -/
theorem RunsThrough.files (hm : m.isRoot = true) (hmode : s.tracer.mode = .dryRun)
    (h : m.RunsThrough s records ending m' s') :
    (ending = .halted → s.files.write s.tracer.path s'.tracer.sheet = .ok s'.files) ∧
      (ending ≠ .halted → s'.files = s.files) := by
  obtain ⟨earlier, c, s₁, ending₁, s₂, hearlier, hstep, hclose, -⟩ := h
  have hroot : m'.isRoot = true := by
    rw [isRoot, hearlier.reaches.parent hstep]
    exact hm
  have htracer : s₂.tracer.mode = .dryRun ∧ s₂.tracer.path = s.tracer.path := by
    have h₁ := hearlier.tracer hmode
    have h₂ := Chain.step_tracer (c := c) (s := s₁) (by rw [h₁]; exact hmode)
    rw [hstep] at h₂
    rw [h₂, h₁]
    exact ⟨hmode, rfl⟩
  have hfiles : s₂.files = s.files := by
    have hlast := c.step_unwritten s₁
    rw [hstep] at hlast
    exact (hearlier.reaches.unwritten.trans hlast).files
  obtain ⟨hwritten, hkept⟩ := close_files hroot htracer.1 hclose
  rw [(close_keeps hclose).2, ← hfiles, ← htracer.2]
  exact ⟨hwritten, hkept⟩

end Machine

/-- What the dry runs of a session have added to the sheet, all together. -/
theorem Session.Runs.tracer {s s' : Session κ} {records : List Record}
    (hmode : s.tracer.mode = .dryRun) (h : s.Runs records s') :
    s'.tracer = { s.tracer with
      sheet := s.tracer.sheet ++ sheetText (records.map Record.entry) } := by
  induction h with
  | none => simp
  | run _ _ hr ih =>
      have hrun := hr.tracer (by rw [ih]; exact hmode)
      rw [hrun, ih, List.map_append, sheetText_append, String.append_assoc]

/-- **The sheet is a faithful record.**  Let runs of roots, one after another, lead from a session
in a dry run to another, and let a root run there.  Then the sheet holds the entries of all lines
that were executed so far, and at every moment of the run it has grown by exactly the entries of
the lines that the run has executed, in order, while no file has changed.  The same holds at the
end of the run.  If it ends halted, then its last line is a halt, and the file of the sheet is
written and holds the whole sheet; otherwise no file has changed.  And if the console refused
nothing, then the values and characters that the run has shown are those that its records say. -/
theorem Session.Runs.sheet_faithful (view : Console.Transcript κ) {s₀ s : Session κ}
    {earlier : List Record} (hmode : s₀.tracer.mode = .dryRun) (h : s₀.Runs earlier s) {m : Machine}
    (hm : m.isRoot = true) :
    s.tracer.sheet = s₀.tracer.sheet ++ sheetText (earlier.map Record.entry) ∧
    (∀ records c s₁, Chain.Executes (Chain.start m) s records c s₁ →
      s₁.tracer.sheet = s.tracer.sheet ++ sheetText (records.map Record.entry) ∧
        s₁.files = s.files) ∧
    ∀ fuel ending m' s', m.run fuel s = some (ending, m', s') →
      ∃ records, m.RunsThrough s records ending m' s' ∧
        s'.tracer.sheet = s.tracer.sheet ++ sheetText (records.map Record.entry) ∧
        (ending = .halted →
          (∃ last i, records.getLast? = some last ∧
            Line.decode last.words = .ok (.instruction i) ∧ i.mnemonic = .halt) ∧
          s.files.write s.tracer.path s'.tracer.sheet = .ok s'.files ∧
          s'.files.read s.tracer.path = .ok s'.tracer.sheet) ∧
        (ending ≠ .halted → s'.files = s.files) ∧
        ((∀ c s₁, Chain.Reaches (Chain.start m) s c s₁ → ¬ c.Refuses s₁) →
          ∃ said, view.outputs s'.console = view.outputs s.console ++ said ∧
            said.filter Output.isShown = records.filterMap Record.shown?) := by
  have htracer := h.tracer hmode
  have hmode' : s.tracer.mode = .dryRun := by
    rw [htracer]
    exact hmode
  refine ⟨by rw [htracer], ?_, ?_⟩
  · intro records c s₁ hexecutes
    exact ⟨by rw [hexecutes.tracer hmode'], hexecutes.reaches.unwritten.files⟩
  · intro fuel ending m' s' hrun
    obtain ⟨records, hthrough⟩ := Machine.runsThrough_of_run hrun
    obtain ⟨hwritten, hkept⟩ := hthrough.files hm hmode'
    refine ⟨records, hthrough, by rw [hthrough.tracer hmode'], ?_, hkept,
      hthrough.shown view hmode'⟩
    rintro rfl
    exact ⟨hthrough.last_halts, hwritten rfl, FileTree.read_write (hwritten rfl)⟩

end

/-- Two dry runs in one session: a root that shows a value and finishes, and a root that is halted
by its subroutine.  The file then holds the entries of both. -/
theorem Session.Runs.sheet_faithful_twice :
    ∃ (earlier records : List Record) (s s' : Session Buffer) (m' : Machine),
      Session.Runs { Session.inMemory [("leaf", "AOUT\nHALT")] [] with
        tracer := { mode := .dryRun } } earlier s ∧
      (Machine.ofProgram (.ofLines "root" ["INC leaf", "LOAD 65", "RUN leaf"])).RunsThrough
        s records .halted m' s' ∧
      s'.tracer.sheet =
        sheetText (earlier.map Record.entry) ++ sheetText (records.map Record.entry) ∧
      s'.files.read s.tracer.path = .ok
        ("Instruction: [OUT] Accumulator: 0\nInstruction: [INC leaf] Accumulator: 0\n" ++
          "Instruction: [LOAD 65] Accumulator: 0\nInstruction: [RUN leaf] Accumulator: 65\n" ++
          "Instruction: [AOUT] Accumulator: 65\nInstruction: [HALT] Accumulator: 65\n") ∧
      ∃ said, s'.console.outputs.toList = s.console.outputs.toList ++ said ∧
        said.filter Output.isShown = records.filterMap Record.shown? := by
  have hruns : ((((Machine.ofProgram (.ofLines "first" ["OUT"])).run 5
      { Session.inMemory [("leaf", "AOUT\nHALT")] [] with tracer := { mode := .dryRun } }).bind
        fun first => ((Machine.ofProgram
          (.ofLines "root" ["INC leaf", "LOAD 65", "RUN leaf"])).run 20 first.2.2).map
            fun second => (second.1.isHalted, second.2.2.tracer.sheet))) =
      some (true, "Instruction: [OUT] Accumulator: 0\nInstruction: [INC leaf] Accumulator: 0\n" ++
          "Instruction: [LOAD 65] Accumulator: 0\nInstruction: [RUN leaf] Accumulator: 65\n" ++
          "Instruction: [AOUT] Accumulator: 65\nInstruction: [HALT] Accumulator: 65\n") := by
    decide +kernel
  obtain ⟨⟨ending, m, s⟩, hfirst, hsecond⟩ := Option.bind_eq_some_iff.1 hruns
  obtain ⟨⟨ending', m', s'⟩, hrun, hanswer⟩ := Option.map_eq_some_iff.1 hsecond
  simp only [Prod.mk.injEq] at hanswer
  obtain ⟨hhalted, hsheet⟩ := hanswer
  obtain rfl := Ending.eq_of_isHalted hhalted
  obtain ⟨earlier, hearlier⟩ := Machine.runsThrough_of_run hfirst
  have hbefore : Session.Runs { Session.inMemory [("leaf", "AOUT\nHALT")] [] with
      tracer := { mode := .dryRun } } ([] ++ earlier) s := Session.Runs.none.run rfl hearlier
  obtain ⟨hsofar, -, hends⟩ := Session.Runs.sheet_faithful Buffer.steady.toTranscript rfl hbefore
    (m := Machine.ofProgram (.ofLines "root" ["INC leaf", "LOAD 65", "RUN leaf"])) rfl
  obtain ⟨records, hthrough, hgrown, hfile, -, hshown⟩ := hends 20 .halted m' s' hrun
  obtain ⟨-, -, hread⟩ := hfile rfl
  refine ⟨earlier, records, s, s', m', hbefore, hthrough, ?_, hsheet ▸ hread, hshown ?_⟩
  · rw [hgrown, hsofar]
    exact congrArg (· ++ _) String.empty_append
  · intro c s₁ hreach
    obtain ⟨_, c', s₁', ending₁, s₂, hexecutes, hstep, hclose, -⟩ := hthrough
    obtain rfl := Machine.of_close_halted hclose
    exact hexecutes.reaches.not_refuses hstep hreach

end AccMachine
