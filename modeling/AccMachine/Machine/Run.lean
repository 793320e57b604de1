/-
**Runs.**

A run starts a machine on its first line and carries the chain of calls forward, line by line,
until the machine ends.  When a root halts, the sheet is written.  A run may go on for ever, so it
is given a number of lines that it may take; whether that number is large enough shows in the
answer, and a larger one changes no answer.

All this is said for any host.  In a session it is a function from sessions to sessions.

Main definitions:

* `Host.step` — one line of the active machine, or the end of its lines;
* `Host.runFor` — as many steps as are given;
* `Host.run` — a whole run;
* `Host.dispatch` — a single instruction outside a run;
* `Chain.step`, `Chain.runFor`, `Machine.run`, `Machine.dispatch` — the same in a session.

Main results:

* `Chain.runFor_succ_eq` — a run is a step followed by a run;
* `Chain.runFor_mono`, `Machine.run_mono` — an answer does not depend on the number of steps given;
* `Machine.run_unique` — a run has at most one answer.
-/

import AccMachine.Machine.Chain
import AccMachine.Session

set_option relaxedAutoImplicit false
set_option autoImplicit false

namespace AccMachine

/-- Where control goes after a call that was made outside a run. -/
def Machine.flowOfCall : CallResult → Except Failure Flow
  | .resumes => .ok .next
  | .halts => .ok .halt
  | .fails failure => .error failure

/-! ### Runs at a host -/

namespace Host

variable {M : Type → Type} [Monad M] [Host M]

/-- Takes the active machine over its current line. -/
@[specialize] def step (c : Chain) : M Progress := do
  match c.active.currentLine? with
  | none =>
    noteAll c.runOut.2
    return c.runOut.1
  | some text =>
    let (result, m) ← (Act.line text).carryOut c.active
    let (progress, events) := Chain.proceed ⟨m, c.callers⟩ result
    noteAll events
    return progress

/-- Takes at most `fuel` steps; nothing if the chain has not ended by then. -/
@[specialize] def runFor : Nat → Chain → M (Option (Ending × Machine))
  | 0, _ => return none
  | fuel + 1, c => do
    match ← step c with
    | .running c' => runFor fuel c'
    | .ended ending m => return some (ending, m)

/-- The end of a run: when a root halts, the sheet is written, and if that is refused the run
fails without a location. -/
def close (m : Machine) : Ending → M Ending
  | .halted => do
    if m.isRoot then
      match ← writeSheet with
      | .ok () => return .halted
      | .error fault => return .failed ⟨[], .device fault⟩
    else return .halted
  | ending => return ending

/-- Runs a machine from its first line, for at most `fuel` lines of all machines together. -/
@[specialize] def run (fuel : Nat) (m : Machine) : M (Option (Ending × Machine)) := do
  match ← runFor fuel (Chain.start m) with
  | none => return none
  | some (ending, m') => return some (← close m' ending, m')

/-- Executes a single instruction outside a run.  A call runs the subroutine to its end, for at
most `fuel` lines; the machine itself stays on its line. -/
def dispatch (fuel : Nat) (m : Machine) (mnemonic : Mnemonic) (operand : String) :
    M (Option (Except Failure Flow × Machine)) := do
  let (result, m') ← (Act.execute mnemonic operand).carryOut m
  match result with
  | .error cause => return some (.error ⟨[], cause⟩, m')
  | .ok (.call name callee) =>
    match ← run fuel callee with
    | none => return none
    | some (ending, callee') =>
      note (.completed name (ending.completion callee'))
      let (m'', result) := m'.conclude name callee' ending
      return some (Machine.flowOfCall result, m'')
  | .ok flow => return some (.ok flow, m')

end Host

/-! ### Runs in a session -/

variable {κ : Type} [Console κ]

/-- An answer together with the session in which it was given. -/
def Session.answered {α β : Type} : Option (α × β) × Session κ → Option (α × β × Session κ)
  | (none, _) => none
  | (some (a, b), s) => some (a, b, s)

omit [Console κ] in
theorem Session.of_answered {α β : Type} {answer : Option (α × β) × Session κ} {a : α} {b : β}
    {s : Session κ} (h : answered answer = some (a, b, s)) : answer = (some (a, b), s) := by
  obtain ⟨_ | ⟨a', b'⟩, s'⟩ := answer <;> cases h
  rfl

namespace Chain

/-- Takes the active machine over its current line. -/
def step (c : Chain) (s : Session κ) : Progress × Session κ :=
  (Host.step c : StateM (Session κ) Progress).run s

/-- Takes at most `fuel` steps; nothing if the chain has not ended by then. -/
def runFor (fuel : Nat) (c : Chain) (s : Session κ) : Option (Ending × Machine × Session κ) :=
  Session.answered ((Host.runFor fuel c : StateM (Session κ) _).run s)

theorem runFor_zero (c : Chain) (s : Session κ) : runFor 0 c s = none := rfl

theorem runFor_succ_eq (fuel : Nat) (c : Chain) (s : Session κ) :
    runFor (fuel + 1) c s =
      match c.step s with
      | (.running c', s') => runFor fuel c' s'
      | (.ended ending m, s') => some (ending, m, s') := by
  rcases h : c.step s with ⟨_ | _, s'⟩ <;> rw [runFor, Host.runFor, Session.bind_run h] <;> rfl

/-- An answer does not depend on the number of steps given. -/
theorem runFor_mono {fuel fuel' : Nat} (h : fuel ≤ fuel') {c : Chain} {s : Session κ}
    {answer : Ending × Machine × Session κ} (ha : runFor fuel c s = some answer) :
    runFor fuel' c s = some answer := by
  induction fuel generalizing fuel' c s with
  | zero => rw [runFor_zero] at ha; cases ha
  | succ n ih =>
    obtain ⟨k, rfl⟩ : ∃ k, fuel' = k + 1 := ⟨fuel' - 1, by omega⟩
    rw [runFor_succ_eq] at ha ⊢
    split at ha
    · exact ih (by omega) ha
    · exact ha

end Chain

namespace Machine

/-- The end of a run: when a root halts, the sheet is written, and if that is refused the run
fails without a location. -/
def close (m : Machine) (s : Session κ) : Ending → Ending × Session κ
  | .halted =>
    if m.isRoot then
      match s.writeSheet with
      | (.ok (), s') => (.halted, s')
      | (.error fault, s') => (.failed ⟨[], .device fault⟩, s')
    else (.halted, s)
  | ending => (ending, s)

/-- A session closes a run as every host does. -/
theorem close_run (m : Machine) (s : Session κ) (ending : Ending) :
    (Host.close m ending : StateM (Session κ) Ending).run s = m.close s ending := by
  cases ending with
  | finished | returned | failed _ => rfl
  | halted =>
    simp only [Host.close, close]
    split
    · rcases hw : s.writeSheet with ⟨_ | _, s'⟩ <;>
        rw [Session.bind_run ((Session.writeSheet_run s).trans hw)] <;> rfl
    · rfl

/-- Runs a machine from its first line, for at most `fuel` lines of all machines together. -/
def run (fuel : Nat) (m : Machine) (s : Session κ) : Option (Ending × Machine × Session κ) :=
  Session.answered ((Host.run fuel m : StateM (Session κ) _).run s)

theorem run_def (fuel : Nat) (m : Machine) (s : Session κ) :
    run fuel m s =
      match (Chain.start m).runFor fuel s with
      | none => none
      | some (ending, m', s') =>
        let (ending', s'') := m'.close s' ending
        some (ending', m', s'') := by
  unfold run Host.run Chain.runFor
  rcases h : (Host.runFor fuel (Chain.start m) : StateM (Session κ) _).run s with
    ⟨_ | ⟨ending, m'⟩, s'⟩ <;> rw [Session.bind_run h]
  · rfl
  · exact congrArg Session.answered (Session.bind_run (close_run m' s' ending))

/-- An answer of a run does not depend on the number of lines given. -/
theorem run_mono {fuel fuel' : Nat} (h : fuel ≤ fuel') {m : Machine} {s : Session κ}
    {answer : Ending × Machine × Session κ} (ha : run fuel m s = some answer) :
    run fuel' m s = some answer := by
  rw [run_def] at ha ⊢
  cases hr : (Chain.start m).runFor fuel s with
  | none => rw [hr] at ha; cases ha
  | some a =>
    rw [Chain.runFor_mono h hr]
    rw [hr] at ha
    exact ha

/-- A run has at most one answer. -/
theorem run_unique {fuel fuel' : Nat} {m : Machine} {s : Session κ}
    {answer answer' : Ending × Machine × Session κ} (h : run fuel m s = some answer)
    (h' : run fuel' m s = some answer') : answer = answer' := by
  have hmax := run_mono (Nat.le_max_left fuel fuel') h
  rw [run_mono (Nat.le_max_right fuel fuel') h'] at hmax
  exact (Option.some.inj hmax).symm

/-- Executes a single instruction outside a run.  A call runs the subroutine to its end, for at
most `fuel` lines; the machine itself stays on its line. -/
def dispatch (fuel : Nat) (m : Machine) (s : Session κ) (mnemonic : Mnemonic) (operand : String) :
    Option (Except Failure Flow × Machine × Session κ) :=
  Session.answered ((Host.dispatch fuel m mnemonic operand : StateM (Session κ) _).run s)

end Machine

/-- A fresh root for the program under a reference. -/
def Session.loadMachine (s : Session κ) (reference : String) : Except Failure Machine × Session κ :=
  match s.load reference with
  | (.error fault, s') => (.error ⟨[], .load reference fault⟩, s')
  | (.ok program, s') => (.ok (Machine.ofProgram program), s')

end AccMachine
