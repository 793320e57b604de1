/-
**Input is consumed line by line.**

All machines of a run share one input.  Only the instruction for it reads, and it takes one line,
the next one, whether or not that line is a number; where no line is left, it fails and takes none.
Nothing is looked at ahead of time: a run that did not find the input closed does not depend on the
lines that it leaves, and runs in the same way before any others.

Main definitions:

* `Record.isInput` — a line that was executed reads input;
* `Machine.parsed` — what reading a line of input, or finding none, comes to;
* `Session.withInput` — a session in memory with other lines of input to come;
* `Dialogue.Unread` — a dialogue asks for no line of input;
* `Ending.cause?` — the cause with which a run failed.

Main results:

* `Machine.obeyWords_unread` — an instruction that is not there to read does not read;
* `Machine.perform_line_read` — a line that is there to read takes the next line of input;
* `Chain.step_input` — **a step takes one line of input if its line reads, and none otherwise**;
* `Machine.run_input` — **a run takes its input in order, one line for each line that reads**, and
  does not depend on the rest.
-/

import AccMachine.Proofs.FailureTrail
import AccMachine.Proofs.SheetRecord
import AccMachine.Proofs.Turns

set_option relaxedAutoImplicit false
set_option autoImplicit false

namespace AccMachine

/-- Whether the line of a record is there to read a line of input. -/
def Record.isInput (r : Record) : Bool :=
  match Line.decode r.words with
  | .ok (.instruction i) => i.mnemonic = .input
  | _ => false

/-- What reading comes to in the machine: the next line of input becomes the accumulator, unless it
is no integer or there is none. -/
def Machine.parsed (m : Machine) : Option String → Except Cause (Machine × Flow)
  | none => .error .inputClosed
  | some line =>
    match Decimal.parse (Text.trimmed line) with
    | .ok value => .ok (m.accumulate value, .next)
    | .error flaw => .error (.invalidInput (Text.trimmed line) flaw)

/-! ### Dialogues that do not read -/

namespace Dialogue

variable {α : Type}

/-- `d.Unread`: whatever the answers are, the dialogue asks for no line of input, and does not fail
for want of one. -/
def Unread : Dialogue α → Prop
  | done _ => True
  | fail cause => cause ≠ .inputClosed
  | trace _ _ next => next.Unread
  | emit _ next => next.Unread
  | read _ => False
  | load _ next => ∀ program, (next program).Unread
  | note _ next => next.Unread

/-- Whether a dialogue reads can be read off from its turns. -/
theorem Takes.unread {T : Turn → Prop} {d : Dialogue α} (h : d.Takes T) (hread : ¬ T .read)
    (hfail : ¬ T (.fail .inputClosed)) : d.Unread := by
  induction d with
  | done a => trivial
  | fail cause =>
      rintro rfl
      exact hfail h
  | trace words accumulator next ih => exact ih h.2
  | emit output next ih => exact ih h.2
  | read next ih => exact hread h.1
  | load reference next ih => exact fun program => ih program (h.2 program)
  | note event next ih => exact ih h.2

end Dialogue

namespace Machine

theorem Turns.of_read {m : Machine} {operand : String} {mnemonic : Mnemonic}
    (h : m.Turns operand mnemonic .read) : mnemonic = .input := by
  cases h
  rfl

theorem Turns.of_inputClosed {m : Machine} {operand : String} {mnemonic : Mnemonic}
    (h : m.Turns operand mnemonic (.fail .inputClosed)) : mnemonic = .input := by
  cases h with
  | fail hinput => exact hinput rfl

/-- A line that is not there to read does not read. -/
theorem obeyWords_unread (m : Machine) {words : List String}
    (h : Record.isInput ⟨words, m.accumulator⟩ = false) : (m.obeyWords words).Unread := by
  have hother : ∀ i, Line.decode words = .ok (.instruction i) → i.mnemonic ≠ .input := by
    intro i hd
    unfold Record.isInput at h
    rw [hd] at h
    exact of_decide_eq_false h
  refine (m.obeyWords_takes words).unread (fun hturn => ?_) fun hturn => ?_
  · cases hturn with
    | obey hd ho ht => exact hother _ hd ht.of_read
  · cases hturn with
    | fail hcause => exact hcause rfl
    | obey hd ho ht => exact hother _ hd ht.of_inputClosed

/-- The dialogue of a line that is there to read. -/
theorem obeyWords_read (m : Machine) {words : List String}
    (h : Record.isInput ⟨words, m.accumulator⟩ = true) : m.obeyWords words = m.readNumber := by
  unfold Record.isInput at h
  rw [obeyWords_def]
  split at h
  · next i hd =>
      have hi : i.mnemonic = .input := of_decide_eq_true h
      simp only [hd, obey_def]
      cases i.operand with
      | some operand => simp only [hi, execute_def]
      | none => simp only [hi, execute_def, Mnemonic.takesOperand, Bool.false_eq_true, if_false]
  · cases h

end Machine

/-! ### Sessions with other lines to come -/

/-- The console in memory with other lines of input to come. -/
def Buffer.withInput (lines : List String) (b : Buffer) : Buffer := { b with input := lines }

namespace Session

/-- The session with other lines of input to come. -/
def withInput (s : Session Buffer) (lines : List String) : Session Buffer :=
  { s with console := { s.console with input := lines } }

@[simp] theorem withInput_self (s : Session Buffer) : s.withInput s.console.input = s := rfl

@[simp] theorem input_withInput (s : Session Buffer) (lines : List String) :
    (s.withInput lines).console.input = lines := rfl

theorem noteAll_withInput (s : Session Buffer) (lines : List String) (events : List LogEvent) :
    (s.withInput lines).noteAll events = (s.noteAll events).withInput lines :=
  s.noteAll_mapConsole (Buffer.withInput lines) events

theorem readLine_buffer (s : Session Buffer) :
    s.readLine = (.ok s.console.input.head?, s.withInput s.console.input.tail) := by
  obtain ⟨shelf, files, ⟨_ | ⟨line, rest⟩, outputs⟩, tracer, log⟩ := s <;> rfl

theorem trace_withInput (s : Session Buffer) (lines words : List String) (accumulator : Int64) :
    (s.withInput lines).trace words accumulator =
      (.ok (), (s.trace words accumulator).2.withInput lines) := by
  obtain ⟨shelf, files, console, ⟨mode, sheet, path⟩, log⟩ := s
  cases mode <;> rfl

@[simp] theorem console_noteAll (s : Session Buffer) (events : List LogEvent) :
    (s.noteAll events).console = s.console := by
  obtain ⟨log, hlog⟩ := s.noteAll_eq events
  rw [hlog]

variable {α : Type}

/-- A dialogue that does not read goes the same way whatever lines are to come, and leaves them. -/
theorem perform_withInput {d : Dialogue α} (hd : d.Unread) (s : Session Buffer)
    (lines : List String) :
    (s.withInput lines).perform d = ((s.perform d).1, (s.perform d).2.withInput lines) := by
  induction d generalizing s with
  | done a => rfl
  | fail cause => rfl
  | trace words accumulator next ih =>
      have hplain := s.trace_withInput s.console.input words accumulator
      rw [withInput_self] at hplain
      simp only [perform]
      rw [trace_withInput, hplain]
      exact ih hd _
  | emit output next ih => exact ih hd (s.emit output).2
  | read next ih => cases hd
  | load reference next ih =>
      have hsource : (s.withInput lines).source reference = s.source reference := rfl
      simp only [perform, load, hsource]
      cases s.source reference with
      | error fault => rfl
      | ok text =>
          exact ih _ (hd _) (s.note (.loaded reference
            (Program.ofLines reference (Source.lines text)).size
            (Program.ofLines reference (Source.lines text)).labels.size))
  | note event next ih => exact ih hd (s.note event)

/-- A dialogue that does not read takes no line of input. -/
theorem input_perform {d : Dialogue α} (hd : d.Unread) (s : Session Buffer) :
    (s.perform d).2.console.input = s.console.input :=
  congrArg (fun answer => answer.2.console.input) (perform_withInput hd s s.console.input)

/-- A dialogue that does not read does not find the input closed. -/
theorem perform_ne_inputClosed {d : Dialogue α} (hd : d.Unread) (s : Session Buffer) :
    (s.perform d).1 ≠ .error .inputClosed := by
  induction d generalizing s with
  | done a =>
      intro h
      cases h
  | fail cause =>
      intro h
      cases h
      exact hd rfl
  | trace words accumulator next ih =>
      have hplain := s.trace_withInput s.console.input words accumulator
      rw [withInput_self] at hplain
      simp only [perform]
      rw [hplain]
      exact ih hd _
  | emit output next ih => exact ih hd (s.emit output).2
  | read next ih => cases hd
  | load reference next ih =>
      simp only [perform, load]
      cases s.source reference with
      | error fault =>
          intro h
          cases h
      | ok text => exact ih _ (hd _) _
  | note event next ih => exact ih hd (s.note event)

end Session

/-! ### Lines that read -/

namespace Machine

/-- Reading takes the next line of input, whether or not it is a number. -/
theorem perform_readNumber (m : Machine) (s : Session Buffer) :
    s.perform m.readNumber =
      (m.parsed s.console.input.head?, s.withInput s.console.input.tail) := by
  simp only [readNumber_def, Dialogue.ask_bind, Session.perform,
    Session.readLine_buffer]
  cases s.console.input.head? with
  | none => rfl
  | some line =>
      simp only [parsed]
      cases Decimal.parse (Text.trimmed line) <;> rfl

/-- **A line that is there to read takes the next line of input.** -/
theorem perform_line_read (m : Machine) {text : String}
    (h : Record.isInput ⟨Text.wordsOf text, m.accumulator⟩ = true) (s : Session Buffer)
    (lines : List String) :
    (s.withInput lines).perform (m.line text) = (m.parsed lines.head?,
      (s.trace (Text.wordsOf text) m.accumulator).2.withInput lines.tail) := by
  simp only [line_def, Session.perform]
  rw [Session.trace_withInput, m.obeyWords_read h]
  exact m.perform_readNumber _

theorem parsed_ne_inputClosed (m : Machine) (line : String) :
    m.parsed (some line) ≠ .error .inputClosed := by
  unfold parsed
  dsimp only
  split <;> exact nofun

end Machine

/-! ### The cause of an ending -/

/-- The cause with which a run failed, if it did. -/
def Ending.cause? (ending : Ending) : Option Cause := ending.failure?.map Failure.cause

/-- The cause with which a step failed, if it did. -/
def Progress.cause? : Progress → Option Cause
  | running _ => none
  | ended ending _ => ending.cause?

namespace Chain

/-- A line that fails makes the chain fail with the same cause, and no other line does. -/
theorem cause?_settle (c : Chain) (result : Except Cause (Machine × Flow)) (cause : Cause) :
    (c.settle result).1.cause? = some cause ↔ result = .error cause := by
  obtain ⟨active, callers⟩ := c
  cases result with
  | error cause' =>
      simp only [settle, proceed, deliver_failed, Progress.cause?, Ending.cause?, Ending.failure?,
        Option.map_some, cause_outward, Option.some.injEq, Except.error.injEq]
  | ok answer =>
      obtain ⟨m, flow⟩ := answer
      have hnone : (settle ⟨active, callers⟩ (.ok (m, flow))).1.cause? = none := by
        cases flow with
        | ret => cases callers <;> rfl
        | halt =>
            simp only [settle, proceed, deliver_halted]
            rfl
        | _ => rfl
      simp only [hnone, reduceCtorEq]

/-- Running out of lines is not for want of input. -/
theorem cause?_runOut (c : Chain) : c.runOut.1.cause? ≠ some .inputClosed := by
  obtain ⟨active, callers⟩ := c
  cases callers with
  | nil => exact nofun
  | cons f callers =>
      simp only [runOut, deliver_finished, Progress.cause?, Ending.cause?, Ending.failure?,
        Option.map_some, cause_outward]
      exact nofun

/-! ### Steps and runs -/

/-- **A step takes one line of input if its line reads, and none otherwise**, or if there is none.
Unless it finds the input closed, it goes the same way with further lines to come. -/
theorem step_input (c : Chain) (s : Session Buffer) :
    ∃ consumed, s.console.input = consumed ++ (c.step s).2.console.input ∧
      consumed.length + (if (c.step s).1.cause? = some .inputClosed then 1 else 0) =
        c.record?.toList.countP Record.isInput ∧
      ((c.step s).1.cause? ≠ some .inputClosed → ∀ more,
        c.step (s.withInput (s.console.input ++ more)) =
          ((c.step s).1, (c.step s).2.withInput ((c.step s).2.console.input ++ more))) := by
  cases ht : c.active.currentLine? with
  | none =>
      rw [step_of_none ht]
      refine ⟨[], ?_, ?_, ?_⟩
      · rw [Session.console_noteAll, List.nil_append]
      · rw [if_neg c.cause?_runOut]
        simp [record?, ht]
      · intro _ more
        rw [step_of_none ht, Session.noteAll_withInput, Session.console_noteAll]
  | some text =>
      have hrecord : c.record? = some ⟨Text.wordsOf text, c.active.accumulator⟩ := by
        rw [record?, ht, Option.map_some]
      by_cases hread : Record.isInput ⟨Text.wordsOf text, c.active.accumulator⟩ = true
      · have hstep := fun lines => step_of_line ht (c.active.perform_line_read hread s lines)
        have hself := hstep s.console.input
        rw [Session.withInput_self] at hself
        rw [hself, hrecord]
        simp only [Session.noteAll_withInput, Session.input_withInput, Option.toList_some,
          List.countP_singleton, if_pos hread]
        cases hinput : s.console.input with
        | nil =>
            have hclosed := (c.cause?_settle (c.active.parsed [].head?) .inputClosed).2 rfl
            refine ⟨[], rfl, ?_, fun hopen => absurd hclosed hopen⟩
            rw [if_pos hclosed]
            rfl
        | cons line rest =>
            have hopen : (c.settle (c.active.parsed (line :: rest).head?)).1.cause? ≠
                some .inputClosed :=
              fun hclosed => c.active.parsed_ne_inputClosed line ((c.cause?_settle _ _).1 hclosed)
            refine ⟨[line], rfl, ?_, fun _ more => ?_⟩
            · rw [if_neg hopen]
              rfl
            · rw [hstep, Session.noteAll_withInput]
              simp only [List.cons_append, List.head?_cons, List.tail_cons, Session.withInput]
      · have hunread : (c.active.line text).Unread :=
          c.active.obeyWords_unread (Bool.eq_false_iff.2 hread)
        have hinput := Session.input_perform hunread s
        have hopen := Session.perform_ne_inputClosed hunread s
        have hmore := Session.perform_withInput hunread s
        rcases hp : s.perform (c.active.line text) with ⟨result, s'⟩
        rw [hp] at hinput hopen
        simp only [hp] at hmore
        rw [step_of_line ht hp, hrecord]
        refine ⟨[], ?_, ?_, ?_⟩
        · rw [Session.console_noteAll, hinput, List.nil_append]
        · rw [if_neg fun hclosed => hopen ((c.cause?_settle _ _).1 hclosed)]
          simp [hread]
        · intro _ more
          rw [step_of_line ht (hmore _), Session.noteAll_withInput, Session.console_noteAll, hinput]

/-- The lines that a run has executed have taken one line of input each, if they read. -/
theorem Executes.input {c c' : Chain} {s s' : Session Buffer} {records : List Record}
    (h : Executes c s records c' s') :
    ∃ consumed, s.console.input = consumed ++ s'.console.input ∧
      consumed.length = records.countP Record.isInput := by
  induction h with
  | refl => exact ⟨[], rfl, rfl⟩
  | @tail records c₁ c₂ s₁ s₂ _ hs ih =>
      obtain ⟨consumed, hinput, hlength⟩ := ih
      obtain ⟨taken, htaken, hcount, -⟩ := c₁.step_input s₁
      rw [hs] at htaken hcount
      refine ⟨consumed ++ taken, ?_, ?_⟩
      · rw [hinput, htaken, List.append_assoc]
      · rw [List.length_append, List.countP_append, hlength, ← hcount]
        rfl

/-- A run that did not find the input closed goes the same way with further lines to come. -/
theorem runFor_withInput {fuel : Nat} {c : Chain} {s s' : Session Buffer} {ending : Ending}
    {m : Machine} (h : runFor fuel c s = some (ending, m, s'))
    (hopen : ending.cause? ≠ some .inputClosed) (more : List String) :
    runFor fuel c (s.withInput (s.console.input ++ more)) =
      some (ending, m, s'.withInput (s'.console.input ++ more)) := by
  induction fuel generalizing c s with
  | zero => cases h
  | succ fuel ih =>
      obtain ⟨_, -, -, hstep⟩ := c.step_input s
      rw [runFor_succ_eq] at h ⊢
      rcases hs : c.step s with ⟨c' | ⟨ending', m'⟩, s₁⟩ <;> rw [hs] at h hstep
      · rw [hstep nofun more]
        exact ih h
      · cases h
        rw [hstep hopen more]

end Chain

/-! ### Whole runs -/

namespace Machine

theorem close_withInput (m : Machine) (s : Session Buffer) (lines : List String)
    (ending : Ending) :
    m.close (s.withInput lines) ending =
      ((m.close s ending).1, (m.close s ending).2.withInput lines) :=
  m.close_mapConsole (Buffer.withInput lines) s ending

/-- Closing a run is not for want of input. -/
theorem close_inputClosed_iff (m : Machine) (s : Session Buffer) (ending : Ending) :
    (m.close s ending).1.cause? = some .inputClosed ↔ ending.cause? = some .inputClosed := by
  cases ending with
  | halted =>
      have hopen : Ending.halted.cause? ≠ some .inputClosed := by
        intro h
        cases h
      refine iff_of_false ?_ hopen
      simp only [close]
      split
      · rcases s.writeSheet with ⟨fault | _, s'⟩
        · intro h
          cases h
        · exact hopen
      · exact hopen
  | _ => exact Iff.rfl

/-- **A run takes its input in order, one line for each line that reads.**  Let a run end on a
console in memory.  Then the input is what the run has consumed, followed by what it leaves, and it
has consumed as many lines as it has executed lines that read, whichever machine of the call chain
executed them; the last one of these has consumed none if the run failed because the input was
closed.  Each line that reads has parsed the line of input at its turn, counted from the beginning
of the run.  And unless the run failed because the input was closed, then it goes the same way with
further lines to come: with the same ending, the same machine and the same session, in which the
further lines are left as well. -/
theorem run_input {m m' : Machine} {s s' : Session Buffer} {fuel : Nat} {ending : Ending}
    (h : m.run fuel s = some (ending, m', s')) :
    (∃ records consumed, m.RunsThrough s records ending m' s' ∧
      s.console.input = consumed ++ s'.console.input ∧
      consumed.length + (if ending.cause? = some .inputClosed then 1 else 0) =
        records.countP Record.isInput) ∧
    (∀ earlier c s₁ text, Chain.Executes (Chain.start m) s earlier c s₁ →
      c.active.currentLine? = some text →
      Record.isInput ⟨Text.wordsOf text, c.active.accumulator⟩ = true →
      (s₁.perform (c.active.line text)).1 =
        c.active.parsed s.console.input[earlier.countP Record.isInput]?) ∧
    (ending.cause? ≠ some .inputClosed → ∀ more,
      m.run fuel (s.withInput (s.console.input ++ more)) =
        some (ending, m', s'.withInput (s'.console.input ++ more))) := by
  refine ⟨?_, ?_, ?_⟩
  · obtain ⟨records, hthrough⟩ := runsThrough_of_run h
    obtain ⟨earlier, c, s₁, ending₁, s₂, hearlier, hstep, hclose, hrecords⟩ := id hthrough
    obtain ⟨consumed, hconsumed, hlength⟩ := hearlier.input
    obtain ⟨taken, htaken, hcount, -⟩ := c.step_input s₁
    rw [hstep] at htaken hcount
    have hcause : ending.cause? = some .inputClosed ↔
        (Progress.ended ending₁ m').cause? = some .inputClosed := by
      have hclosed := m'.close_inputClosed_iff s₂ ending₁
      rwa [hclose] at hclosed
    refine ⟨records, consumed ++ taken, hthrough, ?_, ?_⟩
    · rw [(close_keeps hclose).1, hconsumed, htaken, List.append_assoc]
    · rw [hrecords, List.countP_append, List.length_append, hlength, ← hcount, Nat.add_assoc]
      by_cases hclosed : ending.cause? = some .inputClosed
      · rw [if_pos hclosed, if_pos (hcause.1 hclosed)]
      · rw [if_neg hclosed, if_neg fun hclosed₁ => hclosed (hcause.2 hclosed₁)]
  · intro earlier c s₁ text hearlier ht hread
    obtain ⟨consumed, hconsumed, hlength⟩ := hearlier.input
    have hp := c.active.perform_line_read hread s₁ s₁.console.input
    rw [Session.withInput_self] at hp
    rw [hp, hconsumed, List.getElem?_append_right (by omega), hlength, Nat.sub_self,
      List.head?_eq_getElem?]
  · intro hopen more
    cases hr : (Chain.start m).runFor fuel s with
    | none =>
        rw [run_def, hr] at h
        cases h
    | some answer =>
        obtain ⟨ending₁, m₁, s₁⟩ := answer
        rcases hclose : m₁.close s₁ ending₁ with ⟨ending₂, s₂⟩
        simp only [run_def, hr, hclose, Option.some.injEq, Prod.mk.injEq] at h
        obtain ⟨rfl, rfl, rfl⟩ := h
        have hopen₁ : ending₁.cause? ≠ some .inputClosed := by
          intro hclosed
          have hclosed₂ := (m₁.close_inputClosed_iff s₁ ending₁).2 hclosed
          rw [hclose] at hclosed₂
          exact hopen hclosed₂
        simp only [run_def, Chain.runFor_withInput hr hopen₁, close_withInput, hclose,
          (close_keeps hclose).1]

/-- A root that reads a line, calls a subroutine, which reads one too, and reads again. -/
def reader : Machine := ofProgram (.ofLines "root" ["INC leaf", "IN", "RUN leaf", "IN", "OUT"])

/-- Its session, with four lines of input. -/
def readerSession : Session Buffer := .inMemory [("leaf", "IN\nRET")] [" 5", "7", "x", "9"]

/-- The third line that the run reads is no integer, so the run consumes three of the four lines,
and leaves the fourth, with any other after it. -/
theorem run_input_reader :
    ∃ (failure : Failure) (m' : Machine) (s' : Session Buffer) (records : List Record)
      (consumed : List String),
      reader.run 20 readerSession = some (.failed failure, m', s') ∧
      failure = ⟨[⟨"root", 3, "IN"⟩], .invalidInput "x" .invalidDigit⟩ ∧
      reader.RunsThrough readerSession records (.failed failure) m' s' ∧
      readerSession.console.input = consumed ++ s'.console.input ∧
      s'.console.input = ["9"] ∧
      consumed.length = records.countP Record.isInput ∧
      reader.run 20 (readerSession.withInput [" 5", "7", "x", "9", "10"]) =
        some (.failed failure, m', s'.withInput ["9", "10"]) := by
  have hrun : (reader.run 20 readerSession).map (fun answer =>
      (answer.1.failure?, answer.2.2.console.input)) =
      some (some ⟨[⟨"root", 3, "IN"⟩], .invalidInput "x" .invalidDigit⟩, ["9"]) := by
    decide +kernel
  obtain ⟨⟨ending, m', s'⟩, h, hanswer⟩ := Option.map_eq_some_iff.1 hrun
  simp only [Prod.mk.injEq] at hanswer
  obtain ⟨hfailure, hleft⟩ := hanswer
  obtain rfl := Ending.eq_of_failure? hfailure
  obtain ⟨⟨records, consumed, hthrough, hconsumed, hlength⟩, -, hmore⟩ := run_input h
  refine ⟨_, m', s', records, consumed, h, rfl, hthrough, hconsumed, hleft, hlength, ?_⟩
  have hlater := hmore nofun ["10"]
  rwa [hleft] at hlater

end Machine

end AccMachine
