/-
**A console that wears out cuts a run off and does not change it.**

A console may be limited to a number of outputs and a number of reads.  A machine that runs on such
a console does the same as on the console without the limits, as long as these suffice.  Where they
do not, the run ends at the first request beyond them: with the fault of the console, on the lines
that are executed at that moment, and with everything as it is in the other run at that moment.

Main definitions:

* `Allowance`, `Allowance.Covers` — how much a console still takes, and requests within it;
* `Session.limitedTo` — a session whose console is limited to an allowance;
* `Chain.Within` — a run makes no request beyond an allowance.

Main results:

* `Session.turn_limitedTo`, `Session.turn_refused` — a turn on a limited console;
* `Chain.Asks.limitedTo` — **a run comes through the same moments** up to the first request beyond
  the allowance;
* `Chain.Within.step_limitedTo`, `Chain.Within.runFor_limitedTo` — within it, steps and runs are the
  same;
* `Machine.run_limitedTo` — **limits cut a run off and never change it**.
-/

import AccMachine.Console.Limited
import AccMachine.Proofs.FailureTrail
import AccMachine.Proofs.Requests
import AccMachine.Proofs.SheetRecord

set_option relaxedAutoImplicit false
set_option autoImplicit false

namespace AccMachine

/-! ### Allowances -/

/-- How many outputs a console still takes, and how many times it still answers a read. -/
structure Allowance where
  emits : Nat
  reads : Nat

/-- The fault with which a console refuses what is asked of it. -/
def Request.refusal : Request → DeviceFault
  | emit _ => .emitRefused
  | read => .readRefused

namespace Allowance

/-- The requests are within the allowance. -/
def Covers (a : Allowance) (asked : List Request) : Prop :=
  asked.countP Request.isEmit ≤ a.emits ∧ asked.countP Request.isRead ≤ a.reads

/-- A console that is limited to the allowance. -/
def limit {κ : Type} (a : Allowance) (console : κ) : Limited κ :=
  ⟨console, some a.emits, some a.reads⟩

/-- What the requests leave of the allowance. -/
def after (a : Allowance) (asked : List Request) : Allowance where
  emits := a.emits - asked.countP Request.isEmit
  reads := a.reads - asked.countP Request.isRead

theorem covers_nil (a : Allowance) : a.Covers [] := ⟨Nat.zero_le _, Nat.zero_le _⟩

@[simp] theorem after_nil (a : Allowance) : a.after [] = a := rfl

theorem after_append (a : Allowance) (asked more : List Request) :
    a.after (asked ++ more) = (a.after asked).after more := by
  simp only [after, List.countP_append, Nat.sub_add_eq]

theorem Covers.of_append {a : Allowance} {asked more : List Request}
    (h : a.Covers (asked ++ more)) : a.Covers asked := by
  obtain ⟨hemits, hreads⟩ := h
  rw [List.countP_append] at hemits hreads
  exact ⟨by omega, by omega⟩

/-- Requests in a row are within an allowance if the later ones are within what the earlier ones
leave of it. -/
theorem covers_append_iff {a : Allowance} {asked : List Request} (h : a.Covers asked)
    (more : List Request) : a.Covers (asked ++ more) ↔ (a.after asked).Covers more := by
  obtain ⟨hemits, hreads⟩ := h
  simp only [Covers, after, List.countP_append]
  constructor
  · rintro ⟨hemits', hreads'⟩
    exact ⟨by omega, by omega⟩
  · rintro ⟨hemits', hreads'⟩
    exact ⟨by omega, by omega⟩

end Allowance

/-! ### Limited sessions -/

namespace Session

variable {κ : Type} {α : Type}

/-- The session with its console limited to an allowance. -/
def limitedTo (s : Session κ) (a : Allowance) : Session (Limited κ) where
  shelf := s.shelf
  files := s.files
  console := ⟨s.console, some a.emits, some a.reads⟩
  tracer := s.tracer
  log := s.log

theorem noteAll_limitedTo (s : Session κ) (a : Allowance) (events : List LogEvent) :
    (s.limitedTo a).noteAll events = (s.noteAll events).limitedTo a :=
  s.noteAll_mapConsole a.limit events

theorem request?_limitedTo (s : Session κ) (a : Allowance) (d : Dialogue α) :
    (s.limitedTo a).request? d = s.request? d := by
  cases d <;> rfl

variable [Console κ]

/-- An output within the allowance is taken as without limits. -/
theorem emit_limitedTo {a : Allowance} {output : Output} (h : a.Covers [.emit output])
    (s : Session κ) :
    (s.limitedTo a).emit output =
      ((s.emit output).1, (s.emit output).2.limitedTo (a.after [.emit output])) := by
  obtain ⟨_ | emits, reads⟩ := a
  · exact absurd h.1 (Nat.not_succ_le_zero 0)
  · rfl

/-- An output beyond the allowance is refused. -/
theorem emit_refused {a : Allowance} {output : Output} (h : ¬ a.Covers [.emit output])
    (s : Session κ) : (s.limitedTo a).emit output = (.error .emitRefused, s.limitedTo a) := by
  obtain ⟨_ | emits, reads⟩ := a
  · rfl
  · exact absurd ⟨Nat.succ_le_succ (Nat.zero_le emits), Nat.zero_le reads⟩ h

/-- A line of input within the allowance is handed out as without limits. -/
theorem readLine_limitedTo {a : Allowance} (h : a.Covers [.read]) (s : Session κ) :
    (s.limitedTo a).readLine =
      (s.readLine.1, s.readLine.2.limitedTo (a.after [.read])) := by
  obtain ⟨emits, _ | reads⟩ := a
  · exact absurd h.2 (Nat.not_succ_le_zero 0)
  · rfl

/-- A line of input beyond the allowance is refused. -/
theorem readLine_refused {a : Allowance} (h : ¬ a.Covers [.read]) (s : Session κ) :
    (s.limitedTo a).readLine = (.error .readRefused, s.limitedTo a) := by
  obtain ⟨emits, _ | reads⟩ := a
  · rfl
  · exact absurd ⟨Nat.zero_le emits, Nat.succ_le_succ (Nat.zero_le reads)⟩ h

/-- A record is shown within the allowance as without limits, and is refused beyond it; in the
other modes the console is not asked. -/
theorem trace_limitedTo (s : Session κ) (a : Allowance) (words : List String)
    (accumulator : Int64) :
    (s.limitedTo a).trace words accumulator =
      if s.tracer.mode = .debug then
        (s.limitedTo a).emit (.trace (traceEntry words accumulator))
      else ((s.trace words accumulator).1, (s.trace words accumulator).2.limitedTo a) := by
  obtain ⟨shelf, files, console, ⟨mode, sheet, path⟩, log⟩ := s
  cases mode <;> rfl

omit [Console κ] in
theorem load_limitedTo (s : Session κ) (a : Allowance) (reference : String) :
    (s.limitedTo a).load reference =
      ((s.load reference).1, (s.load reference).2.limitedTo a) :=
  s.load_mapConsole a.limit reference

/-- **A turn within the allowance** goes as without limits. -/
theorem turn_limitedTo {a : Allowance} {s : Session κ} {d : Dialogue α}
    (h : a.Covers (s.request? d).toList) :
    (s.limitedTo a).turn d = (s.turn d).map fun answer =>
      (answer.1, answer.2.limitedTo (a.after (s.request? d).toList)) := by
  cases d with
  | done value => rfl
  | fail cause => rfl
  | trace words accumulator next =>
      simp only [turn, trace_limitedTo]
      by_cases hmode : s.tracer.mode = .debug
      · simp only [request?, if_pos hmode, Option.toList_some] at h ⊢
        rw [emit_limitedTo h]
        simp only [trace, hmode]
        rcases s.emit (.trace (traceEntry words accumulator)) with ⟨_ | _, s'⟩ <;> rfl
      · simp only [request?, if_neg hmode, Option.toList_none, Allowance.after_nil]
        rcases s.trace words accumulator with ⟨_ | _, s'⟩ <;> rfl
  | emit output next =>
      simp only [turn, emit_limitedTo h]
      rcases s.emit output with ⟨_ | _, s'⟩ <;> rfl
  | read next =>
      simp only [turn, readLine_limitedTo h]
      rcases s.readLine with ⟨_ | _, s'⟩ <;> rfl
  | load reference next =>
      simp only [turn, load_limitedTo]
      rcases s.load reference with ⟨_ | _, s'⟩ <;> rfl
  | note event next => rfl

/-- **A turn beyond the allowance is refused**, and changes nothing. -/
theorem turn_refused {a : Allowance} {s : Session κ} {d : Dialogue α}
    (h : ¬ a.Covers (s.request? d).toList) :
    ∃ request, s.request? d = some request ∧
      (s.limitedTo a).turn d = some (.error (.device request.refusal), s.limitedTo a) := by
  cases d with
  | trace words accumulator next =>
      by_cases hmode : s.tracer.mode = .debug
      · simp only [request?, if_pos hmode, Option.toList_some] at h ⊢
        refine ⟨_, rfl, ?_⟩
        simp only [turn, trace_limitedTo, if_pos hmode, emit_refused h]
        rfl
      · simp only [request?, if_neg hmode, Option.toList_none] at h
        exact absurd a.covers_nil h
  | emit output next => exact ⟨_, rfl, by simp only [turn, emit_refused h]; rfl⟩
  | read next => exact ⟨_, rfl, by simp only [turn, readLine_refused h]; rfl⟩
  | done value => exact absurd a.covers_nil h
  | fail cause => exact absurd a.covers_nil h
  | load reference next => exact absurd a.covers_nil h
  | note event next => exact absurd a.covers_nil h

end Session

/-! ### Runs on a limited console -/

namespace Chain

variable {κ : Type} [Console κ]

/-- **A run on a limited console comes through the same moments**, as long as its requests are
within the allowance. -/
theorem Asks.limitedTo {c c₁ : Chain} {s s₁ : Session κ} {asked : List Request}
    {rest? : Option (Dialogue (Machine × Flow))} (h : Asks c s asked c₁ s₁ rest?) {a : Allowance}
    (ha : a.Covers asked) :
    Asks c (s.limitedTo a) asked c₁ (s₁.limitedTo (a.after asked)) rest? := by
  induction h with
  | start => exact .start
  | fetch _ ht ih => exact (ih ha).fetch ht
  | @turn asked c₁ s₁ s₂ d rest _ ht ih =>
      have hturn := Session.turn_limitedTo
        ((Allowance.covers_append_iff ha.of_append (s₁.request? d).toList).1 ha)
      rw [ht] at hturn
      have hnext := (ih ha.of_append).turn hturn
      rwa [Session.request?_limitedTo, ← Allowance.after_append] at hnext
  | settle _ hs ih =>
      rw [← Session.noteAll_limitedTo]
      exact (ih ha).settle hs

/-- A run that goes beyond an allowance makes a first request beyond it. -/
theorem Asks.first_beyond {c c₁ : Chain} {s s₁ : Session κ} {asked : List Request}
    {rest? : Option (Dialogue (Machine × Flow))} (h : Asks c s asked c₁ s₁ rest?) (a : Allowance) :
    a.Covers asked ∨
      ∃ asked' c' s' d, Asks c s asked' c' s' (some d) ∧ a.Covers asked' ∧
        ¬ a.Covers (asked' ++ (s'.request? d).toList) := by
  induction h with
  | start => exact Or.inl a.covers_nil
  | fetch _ _ ih => exact ih
  | @turn asked c₁ s₁ s₂ d rest h _ ih =>
      rcases ih with hcovers | hbeyond
      · by_cases hnext : a.Covers (asked ++ (s₁.request? d).toList)
        · exact Or.inl hnext
        · exact Or.inr ⟨asked, c₁, s₁, d, h, hcovers, hnext⟩
      · exact Or.inr hbeyond
  | settle _ _ ih => exact ih

/-- The run from a chain makes no request beyond the allowance. -/
def Within (c : Chain) (s : Session κ) (a : Allowance) : Prop :=
  ∀ asked c₁ s₁ d, Asks c s asked c₁ s₁ (some d) → a.Covers (asked ++ (s₁.request? d).toList)

variable {c : Chain} {s : Session κ} {a : Allowance}

/-- Within the allowance, the rest of a line comes to the same result. -/
theorem Within.perform_limitedTo (hw : c.Within s a) {c₁ : Chain} (s₁ : Session κ)
    (d : Dialogue (Machine × Flow)) :
    ∀ asked, Asks c s asked c₁ s₁ (some d) →
      ∃ more, (s₁.limitedTo (a.after asked)).perform d =
          ((s₁.perform d).1, (s₁.perform d).2.limitedTo (a.after more)) ∧
        ∀ result, (s₁.perform d).1 = .ok result →
          Asks c s more c₁ (s₁.perform d).2 (some (.done result)) := by
  refine Session.turn_induction (P := fun s₁ d => ∀ asked, Asks c s asked c₁ s₁ (some d) →
    ∃ more, (s₁.limitedTo (a.after asked)).perform d =
        ((s₁.perform d).1, (s₁.perform d).2.limitedTo (a.after more)) ∧
      ∀ result, (s₁.perform d).1 = .ok result →
        Asks c s more c₁ (s₁.perform d).2 (some (.done result))) ?_ ?_ ?_ s₁ d
  · intro s₁ result asked h
    refine ⟨asked, rfl, ?_⟩
    intro result' hresult
    cases hresult
    exact h
  · intro s₁ d cause s₂ ht asked h
    have hcovers := hw _ _ _ _ h
    have hturn :=
      Session.turn_limitedTo ((Allowance.covers_append_iff hcovers.of_append _).1 hcovers)
    rw [ht, ← Allowance.after_append] at hturn
    rw [Session.perform_of_turn hturn, Session.perform_of_turn ht]
    exact ⟨_, rfl, nofun⟩
  · intro s₁ d rest s₂ ht ih asked h
    have hcovers := hw _ _ _ _ h
    have hturn :=
      Session.turn_limitedTo ((Allowance.covers_append_iff hcovers.of_append _).1 hcovers)
    rw [ht, ← Allowance.after_append] at hturn
    rw [Session.perform_of_turn hturn, Session.perform_of_turn ht]
    exact ih _ (h.turn ht)

/-- **Within the allowance, a step is the same.** -/
theorem Within.step_limitedTo (hw : c.Within s a) {c₁ : Chain} {s₁ : Session κ}
    {asked : List Request} (h : Asks c s asked c₁ s₁ none) :
    ∃ more, c₁.step (s₁.limitedTo (a.after asked)) =
        ((c₁.step s₁).1, (c₁.step s₁).2.limitedTo (a.after more)) ∧
      ∀ c₂, (c₁.step s₁).1 = .running c₂ → Asks c s more c₂ (c₁.step s₁).2 none := by
  cases ht : c₁.active.currentLine? with
  | none =>
      refine ⟨asked, ?_, ?_⟩
      · rw [step_of_none ht, step_of_none ht, Session.noteAll_limitedTo]
      · -- Without a line left, no step goes on.
        intro c₂ hc₂
        obtain ⟨text, htext⟩ := (move_of_step (Prod.ext hc₂ rfl)).has_line
        rw [ht] at htext
        cases htext
  | some text =>
      obtain ⟨more, hp, hasks⟩ := hw.perform_limitedTo s₁ _ asked (h.fetch ht)
      rcases hplain : s₁.perform (c₁.active.line text) with ⟨result, s₂⟩
      rw [hplain] at hp hasks
      refine ⟨more, ?_, ?_⟩
      · rw [step_of_line ht hp, step_of_line ht hplain, Session.noteAll_limitedTo]
      · intro c₂ hc₂
        rw [step_of_line ht hplain] at hc₂ ⊢
        cases result with
        | error cause =>
            simp only [settle, proceed, deliver_failed] at hc₂
            cases hc₂
        | ok result => exact (hasks result rfl).settle (Prod.ext hc₂ rfl)

/-- Within the allowance, a run has the same answer, or none in both sessions. -/
theorem Within.runFor_limitedTo (hw : c.Within s a) (fuel : Nat) {c₁ : Chain} {s₁ : Session κ}
    {asked : List Request} (h : Asks c s asked c₁ s₁ none) :
    (runFor fuel c₁ s₁ = none ∧ runFor fuel c₁ (s₁.limitedTo (a.after asked)) = none) ∨
      ∃ ending m s' left, runFor fuel c₁ s₁ = some (ending, m, s') ∧
        runFor fuel c₁ (s₁.limitedTo (a.after asked)) = some (ending, m, s'.limitedTo left) := by
  induction fuel generalizing asked c₁ s₁ with
  | zero => exact Or.inl ⟨rfl, rfl⟩
  | succ fuel ih =>
      obtain ⟨more, hstep, hasks⟩ := hw.step_limitedTo h
      rw [runFor_succ_eq, runFor_succ_eq, hstep]
      rcases hs : c₁.step s₁ with ⟨_ | _, s₂⟩ <;> rw [hs] at hasks
      · exact ih (hasks _ rfl)
      · exact Or.inr ⟨_, _, _, _, rfl, rfl⟩

end Chain

/-! ### Whole runs -/

namespace Machine

variable {κ : Type} [Console κ]

omit [Console κ] in
theorem close_limitedTo (m : Machine) (s : Session κ) (a : Allowance) (ending : Ending) :
    m.close (s.limitedTo a) ending =
      ((m.close s ending).1, (m.close s ending).2.limitedTo a) :=
  m.close_mapConsole a.limit s ending

/-- **Limits cut a run off and never change it.**  Let a machine run in a session, and in the same
session with its console limited to an allowance.  If the first run makes no request beyond the
allowance, then with any number of lines that they may take, neither of the two runs has ended, or
both have ended in the same way, with the same machine, and with sessions that differ only in what
their consoles still take.

Otherwise, whether or not the first run ever ends, it comes to a first request beyond the allowance.
The other run comes to the same moment with the same requests, and ends there: with the fault of the
console as its cause, and with a location for each machine of the chain, on the line that it is
executing.  Every machine is left as it is at that moment; so is the console, and with it what was
said and what was read; so is the trace; no file was written; and the chain of that moment is the
last one of the run. -/
theorem run_limitedTo (m : Machine) (s : Session κ) (a : Allowance) :
    ((Chain.start m).Within s a → ∀ fuel,
      (m.run fuel s = none ∧ m.run fuel (s.limitedTo a) = none) ∨
        ∃ ending m' s' left, m.run fuel s = some (ending, m', s') ∧
          m.run fuel (s.limitedTo a) = some (ending, m', s'.limitedTo left)) ∧
    (¬ (Chain.start m).Within s a →
      ∃ asked c s₁ d request, Chain.Asks (Chain.start m) s asked c s₁ (some d) ∧
        s₁.request? d = some request ∧ a.Covers asked ∧ ¬ a.Covers (asked ++ [request]) ∧
        Chain.Asks (Chain.start m) (s.limitedTo a) asked c (s₁.limitedTo (a.after asked))
          (some d) ∧
        ∃ fuel t', m.run fuel (s.limitedTo a) =
            some (.failed ⟨(c.callers.map fun f => f.caller.here).reverse ++ [c.active.here],
              .device request.refusal⟩, Chain.adoptAll c.active c.callers, t') ∧
          t'.console.inner = s₁.console ∧ t'.tracer = s₁.tracer ∧
          Session.Unwritten (s.limitedTo a) t' ∧
          ∃ t ending, c.step t = (.ended ending (Chain.adoptAll c.active c.callers), t') ∧
            ∀ c₂ t₂, Chain.Reaches (Chain.start m) (s.limitedTo a) c₂ t₂ →
              Chain.Reaches c₂ t₂ c t) := by
  constructor
  · intro hw fuel
    rcases hw.runFor_limitedTo fuel Chain.Asks.start with
      ⟨hnone, hnone'⟩ | ⟨ending, m', s', left, hrun, hrun'⟩
    · rw [Allowance.after_nil] at hnone'
      exact Or.inl ⟨by simp only [run_def, hnone], by simp only [run_def, hnone']⟩
    · rw [Allowance.after_nil] at hrun'
      exact Or.inr ⟨(m'.close s' ending).1, m', (m'.close s' ending).2, left,
        by simp only [run_def, hrun], by simp only [run_def, hrun', close_limitedTo]⟩
  · intro hw
    simp only [Chain.Within, Classical.not_forall] at hw
    obtain ⟨asked₀, c₀, s₀, d₀, hasks₀, hbeyond₀⟩ := hw
    -- The request that is beyond the allowance may not be the first one.
    obtain ⟨asked, c, s₁, d, hasks, hcovers, hbeyond⟩ : ∃ asked c s₁ d,
        Chain.Asks (Chain.start m) s asked c s₁ (some d) ∧ a.Covers asked ∧
          ¬ a.Covers (asked ++ (s₁.request? d).toList) := by
      rcases hasks₀.first_beyond a with hcovers₀ | hfirst
      · exact ⟨asked₀, c₀, s₀, d₀, hasks₀, hcovers₀, hbeyond₀⟩
      · exact hfirst
    have hlimited := hasks.limitedTo hcovers
    obtain ⟨request, hrequest, hturn⟩ := Session.turn_refused
      (fun h => hbeyond ((Allowance.covers_append_iff hcovers _).2 h))
    rw [hrequest] at hbeyond
    obtain ⟨t, events, hreach, hstep⟩ := hlimited.stop_of_refused hturn
    rw [Session.noteAll_limitedTo] at hstep
    obtain ⟨fuel, hrun⟩ := run_eq_some_iff.2
      ⟨c, t, _, _, hreach, hstep, close_of_ne_halted fun h => by cases h⟩
    obtain ⟨log, hlog⟩ := s₁.noteAll_eq events
    have hunwritten := c.step_unwritten t
    rw [hstep] at hunwritten
    refine ⟨asked, c, s₁, d, request, hasks, hrequest, hcovers, hbeyond, hlimited, fuel, _, hrun,
      ?_, ?_, hreach.unwritten.trans hunwritten, t, _, hstep, fun c₂ t₂ h₂ => hreach.last hstep h₂⟩
    · rw [hlog]
      rfl
    · rw [hlog]
      rfl

/-- A root that calls a subroutine, which adds a slot that was never stored. -/
def adder : Machine := ofProgram (.ofLines "root" ["INC leaf", "RUN leaf", "OUT", "HALT"])

/-- Its session, in debug mode. -/
def adderSession : Session Buffer :=
  { Session.inMemory [("leaf", "ADD x\nRET")] [] with tracer := { mode := .debug } }

/-- The console takes three outputs, which show the lines up to the addition.  The warning in the
middle of that line is refused, and the run ends there, two machines deep. -/
theorem run_limitedTo_warning :
    ∃ (asked : List Request) (c : Chain) (s₁ : Session Buffer) (d : Dialogue (Machine × Flow))
      (output : Output) (t' : Session (Limited Buffer)),
      Chain.Asks (Chain.start adder) adderSession asked c s₁ (some d) ∧
      s₁.request? d = some (.emit output) ∧
      adder.run 20 (adderSession.limitedTo ⟨3, 0⟩) =
        some (.failed ⟨[⟨"root", 1, "RUN leaf"⟩, ⟨"leaf", 0, "ADD x"⟩], .device .emitRefused⟩,
          Chain.adoptAll c.active c.callers, t') ∧
      t'.console.inner = s₁.console ∧
      s₁.console.outputs.toList =
        [.trace "Instruction: [INC leaf] Accumulator: 0",
          .trace "Instruction: [RUN leaf] Accumulator: 0",
          .trace "Instruction: [ADD x] Accumulator: 0"] := by
  have hplain : (adder.run 20 adderSession).map (fun answer => answer.1.failure?) = some none := by
    decide +kernel
  have hcut : (adder.run 20 (adderSession.limitedTo ⟨3, 0⟩)).map (fun answer =>
      (answer.1.failure?, answer.2.2.console.inner.outputs.toList)) =
      some (some ⟨[⟨"root", 1, "RUN leaf"⟩, ⟨"leaf", 0, "ADD x"⟩], .device .emitRefused⟩,
        [.trace "Instruction: [INC leaf] Accumulator: 0",
          .trace "Instruction: [RUN leaf] Accumulator: 0",
          .trace "Instruction: [ADD x] Accumulator: 0"]) := by decide +kernel
  obtain ⟨⟨ending, m', t'⟩, hrun, hanswer⟩ := Option.map_eq_some_iff.1 hcut
  simp only [Prod.mk.injEq] at hanswer
  obtain ⟨hfailure, houtputs⟩ := hanswer
  obtain rfl := Ending.eq_of_failure? hfailure
  obtain ⟨hsame, hbeyond⟩ := run_limitedTo adder adderSession ⟨3, 0⟩
  by_cases hw : (Chain.start adder).Within adderSession ⟨3, 0⟩
  · -- Within the allowance, both runs would fail.
    rcases hsame hw 20 with ⟨-, hnone⟩ | ⟨_, _, _, _, hrun₁, hrun₂⟩
    · rw [hrun] at hnone
      cases hnone
    · rw [hrun] at hrun₂
      cases hrun₂
      rw [hrun₁] at hplain
      cases hplain
  · obtain ⟨asked, c, s₁, d, request, hasks, hrequest, -, -, -, fuel, t₁, hrun₁, hconsole, -⟩ :=
      hbeyond hw
    have hunique := run_unique hrun hrun₁
    simp only [Prod.mk.injEq, Ending.failed.injEq, Failure.mk.injEq, Cause.device.injEq] at hunique
    obtain ⟨⟨-, hrefusal⟩, rfl, rfl⟩ := hunique
    cases request with
    | read => cases hrefusal
    | emit output =>
        exact ⟨asked, c, s₁, d, output, t', hasks, hrequest, hrun, hconsole, hconsole ▸ houtputs⟩

end Machine

end AccMachine
