/-
**Calls on threads.**

A call may be carried out by a thread of its own: the caller hands the subroutine the sending half
of a channel with room for one signal, starts a thread that runs it, listens at the other half, and
in the end waits until that thread has finished.  A subroutine that returns sends its accumulator
itself; every other end of its run is reported by its thread, which sends a signal for a halt or a
failure and leaves the channel without one when the subroutine ran out of lines.

This module describes the threads of a chain of calls, the channels between them, and everything
that a thread can do next.  The order in which threads act is not fixed: any thread that can act
may be the next one.  Starting a thread always succeeds here, and no thread dies.

Main definitions:

* `Signal`, `Channel` — what a subroutine tells its caller, and how it gets there;
* `Phase`, `Thread`, `Threads` — where a thread stands, and the threads of a chain of calls;
* `Session.turn` — a single turn of a dialogue;
* `Thread.Works`, `Thread.Reports` — what a thread does by itself;
* `Threads.Step`, `Threads.Steps` — **the steps of all threads**, and sequences of them.

Main results:

* `Session.perform_of_turn`, `Session.turn_yields` — a dialogue may be held turn by turn.
-/

import AccMachine.Proofs.CallChain

set_option relaxedAutoImplicit false
set_option autoImplicit false

namespace AccMachine

/-! ### Channels -/

/-- What a subroutine tells the caller that waits for it. -/
inductive Signal where
  | returned (value : Int64)
  | halted
  | failed (failure : Failure)

/-- The channel of a call: the signal that was sent and not yet received, whether the subroutine
still holds its half, and how many signals were sent and how many answers the caller got. -/
structure Channel where
  slot : Option Signal := none
  connected : Bool := true
  sent : Nat := 0
  answers : Nat := 0

namespace Channel

/-- What a caller that listens gets to hear: the signal in the slot, or that there will be none once
the subroutine has left.  Otherwise it keeps listening. -/
def answer? (ch : Channel) : Option (Option Signal) :=
  match ch.slot with
  | some signal => some (some signal)
  | none => if ch.connected then none else some none

/-- The channel with a signal in its slot. -/
def send (ch : Channel) (signal : Signal) : Channel :=
  { ch with slot := some signal, sent := ch.sent + 1 }

/-- The channel without its sending half. -/
def leave (ch : Channel) : Channel := { ch with connected := false }

/-- The channel after the caller got an answer. -/
def answered (ch : Channel) : Channel := { ch with slot := none, answers := ch.answers + 1 }

end Channel

/-! ### Threads -/

/-- Where a thread stands. -/
inductive Phase where
  /-- It has not begun to run its machine. -/
  | starting
  /-- It is about to fetch a line. -/
  | fetching
  /-- It is in the middle of a line, and this is left of the dialogue. -/
  | executing (rest : Dialogue (Machine × Flow))
  /-- Its line is over. -/
  | stepped (result : Except Failure Flow)
  /-- Its line is a call, and it listens for the answer. -/
  | receiving
  /-- It has its answer, and waits until the thread of the subroutine has finished. -/
  | joining (answer : Option Signal)
  /-- It is about to write the sheet, because its machine is a root and has halted. -/
  | flushing
  /-- The run of its machine is over. -/
  | ended (ending : Ending)
  /-- It is about to send a signal. -/
  | sending (signal : Signal) (next : Phase)
  /-- It is about to leave its channel. -/
  | leaving (next : Phase)
  | finished (ending : Ending)

/-- A thread and the machine that it runs. -/
structure Thread where
  machine : Machine
  phase : Phase

/-- The threads of a chain of calls, the outermost first: a thread that has called nobody, or one
that has called the subroutine of a name, with the channel of the call and the threads that the
call has started.  The machine of a caller keeps the subroutine as it was before the call; the
subroutine itself belongs to its own thread until that is joined. -/
inductive Threads where
  | alone (thread : Thread)
  | calling (thread : Thread) (name : String) (channel : Channel) (callee : Threads)

namespace Threads

/-- The outermost thread. -/
def head : Threads → Thread
  | alone t => t
  | calling t _ _ _ => t

/-- The threads with another outermost one. -/
def withHead : Threads → Thread → Threads
  | alone _, t => alone t
  | calling _ name ch callee, t => calling t name ch callee

/-- The thread at a depth, with those that it has started. -/
def at? : Threads → Nat → Option Threads
  | σ, 0 => some σ
  | alone _, _ + 1 => none
  | calling _ _ _ callee, i + 1 => callee.at? i

/-- The machines of the threads, the outermost first. -/
def machines : Threads → List Machine
  | alone t => [t.machine]
  | calling t _ _ callee => t.machine :: callee.machines

@[simp] theorem head_withHead (σ : Threads) (t : Thread) : (σ.withHead t).head = t := by
  cases σ <;> rfl

@[simp] theorem at?_zero (σ : Threads) : σ.at? 0 = some σ := by
  cases σ <;> rfl

end Threads

/-! ### Turns of a dialogue -/

namespace Session

variable {κ : Type} {α : Type} [Console κ]

/-- A single turn of a dialogue that has not come to its result. -/
def turn (s : Session κ) : Dialogue α → Option (Except Cause (Dialogue α) × Session κ)
  | .done _ => none
  | .fail cause => some (.error cause, s)
  | .trace words accumulator next =>
      match s.trace words accumulator with
      | (.error fault, s') => some (.error (.device fault), s')
      | (.ok (), s') => some (.ok next, s')
  | .emit output next =>
      match s.emit output with
      | (.error fault, s') => some (.error (.device fault), s')
      | (.ok (), s') => some (.ok next, s')
  | .read next =>
      match s.readLine with
      | (.error fault, s') => some (.error (.device fault), s')
      | (.ok line, s') => some (.ok (next line), s')
  | .load reference next =>
      match s.load reference with
      | (.error fault, s') => some (.error (.load reference fault), s')
      | (.ok program, s') => some (.ok (next program), s')
  | .note event next => some (.ok next, s.note event)

/-- A dialogue may be held turn by turn. -/
theorem perform_of_turn {s s' : Session κ} {d : Dialogue α} {r : Except Cause (Dialogue α)}
    (h : s.turn d = some (r, s')) :
    s.perform d =
      match r with
      | .error cause => (.error cause, s')
      | .ok rest => s'.perform rest := by
  cases d with
  | done a => cases h
  | fail cause =>
      cases h
      rfl
  | trace words accumulator next =>
      rcases hs : s.trace words accumulator with ⟨_ | _, s₁⟩ <;>
        · simp only [turn, hs] at h
          cases h
          simp only [perform, hs]
  | emit output next =>
      rcases hs : s.emit output with ⟨_ | _, s₁⟩ <;>
        · simp only [turn, hs] at h
          cases h
          simp only [perform, hs]
  | read next =>
      rcases hs : s.readLine with ⟨_ | _, s₁⟩ <;>
        · simp only [turn, hs] at h
          cases h
          simp only [perform, hs]
  | load reference next =>
      rcases hs : s.load reference with ⟨_ | _, s₁⟩ <;>
        · simp only [turn, hs] at h
          cases h
          simp only [perform, hs]
  | note event next =>
      cases h
      rfl

/-- After a turn, a dialogue meets no other results than before. -/
theorem turn_yields {P : α → Prop} {s s' : Session κ} {d rest : Dialogue α} (hd : d.Yields P)
    (h : s.turn d = some (.ok rest, s')) : rest.Yields P := by
  cases d with
  | done a => cases h
  | fail cause => cases h
  | trace words accumulator next =>
      simp only [turn] at h
      split at h <;> cases h
      exact hd
  | emit output next =>
      simp only [turn] at h
      split at h <;> cases h
      exact hd
  | read next =>
      simp only [turn] at h
      split at h <;> cases h
      exact hd _
  | load reference next =>
      simp only [turn] at h
      split at h
      · cases h
      · next hl =>
          cases h
          exact hd _ (load_reference hl)
  | note event next =>
      cases h
      exact hd

/-- A dialogue has come to its result, or there is a turn to take. -/
theorem done_or_turn (s : Session κ) (d : Dialogue α) :
    (∃ a, d = .done a) ∨ (∃ cause s', s.turn d = some (.error cause, s')) ∨
      ∃ rest s', s.turn d = some (.ok rest, s') := by
  cases d with
  | done a => exact Or.inl ⟨a, rfl⟩
  | fail cause => exact Or.inr (Or.inl ⟨_, _, rfl⟩)
  | trace words accumulator next =>
      simp only [turn]
      split
      · exact Or.inr (Or.inl ⟨_, _, rfl⟩)
      · exact Or.inr (Or.inr ⟨_, _, rfl⟩)
  | emit output next =>
      simp only [turn]
      split
      · exact Or.inr (Or.inl ⟨_, _, rfl⟩)
      · exact Or.inr (Or.inr ⟨_, _, rfl⟩)
  | read next =>
      simp only [turn]
      split
      · exact Or.inr (Or.inl ⟨_, _, rfl⟩)
      · exact Or.inr (Or.inr ⟨_, _, rfl⟩)
  | load reference next =>
      simp only [turn]
      split
      · exact Or.inr (Or.inl ⟨_, _, rfl⟩)
      · exact Or.inr (Or.inr ⟨_, _, rfl⟩)
  | note event next => exact Or.inr (Or.inr ⟨_, _, rfl⟩)

end Session

/-! ### What a thread does by itself -/

/-- The signal by which a thread reports the end of its machine's run.  A subroutine that returned
has sent one itself, and there is none for running out of lines. -/
def Ending.report? : Ending → Option Signal
  | finished => none
  | halted => some .halted
  | returned => none
  | failed failure => some (.failed failure)

namespace Thread

variable {κ : Type} [Console κ]

/-- `t.Works s t' s'`: the thread goes on with the run of its machine, and may use the session. -/
inductive Works : Thread → Session κ → Thread → Session κ → Prop
  | start {m : Machine} {s : Session κ} : Works ⟨m, .starting⟩ s ⟨m.goto 0, .fetching⟩ s
  | fetch {m : Machine} {s : Session κ} {text : String} (ht : m.currentLine? = some text) :
      Works ⟨m, .fetching⟩ s ⟨m, .executing (m.line text)⟩ s
  | runOut {m : Machine} {s : Session κ} (ht : m.currentLine? = none) :
      Works ⟨m, .fetching⟩ s ⟨m, .ended .finished⟩ s
  | turn {m : Machine} {s s' : Session κ} {d rest : Dialogue (Machine × Flow)}
      (h : s.turn d = some (.ok rest, s')) :
      Works ⟨m, .executing d⟩ s ⟨m, .executing rest⟩ s'
  | refused {m : Machine} {s s' : Session κ} {d : Dialogue (Machine × Flow)} {cause : Cause}
      (h : s.turn d = some (.error cause, s')) :
      Works ⟨m, .executing d⟩ s ⟨m, .stepped (.error ⟨[], cause⟩)⟩ s'
  | done {m m' : Machine} {s : Session κ} {flow : Flow}
      (hf : flow ≠ .ret ∧ ∀ name callee, flow ≠ .call name callee) :
      Works ⟨m, .executing (.done (m', flow))⟩ s ⟨m', .stepped (.ok flow)⟩ s
  /-- A return sends the accumulator before the line is over. -/
  | ret {m m' : Machine} {s : Session κ} :
      Works ⟨m, .executing (.done (m', .ret))⟩ s
        ⟨m', .sending (.returned m'.accumulator) (.stepped (.ok .ret))⟩ s
  | next {m : Machine} {s : Session κ} :
      Works ⟨m, .stepped (.ok .next)⟩ s ⟨m.advance, .fetching⟩ s
  | jump {m : Machine} {s : Session κ} {target : Nat} :
      Works ⟨m, .stepped (.ok (.jump target))⟩ s ⟨m.goto target, .fetching⟩ s
  | returned {m : Machine} {s : Session κ} :
      Works ⟨m, .stepped (.ok .ret)⟩ s ⟨m, .ended .returned⟩ s
  | failed {m : Machine} {s : Session κ} {failure : Failure} :
      Works ⟨m, .stepped (.error failure)⟩ s ⟨m, .ended (.failed (failure.within m.here))⟩ s
  | halted {m : Machine} {s : Session κ} (hr : m.isRoot = false) :
      Works ⟨m, .stepped (.ok .halt)⟩ s ⟨m, .ended .halted⟩ s
  | haltedRoot {m : Machine} {s : Session κ} (hr : m.isRoot = true) :
      Works ⟨m, .stepped (.ok .halt)⟩ s ⟨m, .flushing⟩ s
  | flush {m : Machine} {s s' : Session κ} (h : s.writeSheet = (.ok (), s')) :
      Works ⟨m, .flushing⟩ s ⟨m, .ended .halted⟩ s'
  | flushRefused {m : Machine} {s s' : Session κ} {fault : DeviceFault}
      (h : s.writeSheet = (.error fault, s')) :
      Works ⟨m, .flushing⟩ s ⟨m, .ended (.failed ⟨[], .device fault⟩)⟩ s'

/-- `t.Reports t'`: the run of the thread's machine is over, and the thread is about to report it to
the caller, if one still waits for it. -/
inductive Reports : Thread → Thread → Prop
  | signal {m : Machine} {ending : Ending} {signal : Signal} (ha : m.awaited = true)
      (hs : ending.report? = some signal) :
      Reports ⟨m, .ended ending⟩ ⟨m.released, .sending signal (.finished ending)⟩
  | silent {m : Machine} {ending : Ending} (ha : m.awaited = true)
      (hs : ending.report? = none) :
      Reports ⟨m, .ended ending⟩ ⟨m.released, .leaving (.finished ending)⟩
  | unawaited {m : Machine} {ending : Ending} (ha : m.awaited = false) :
      Reports ⟨m, .ended ending⟩ ⟨m, .finished ending⟩

end Thread

/-! ### The steps of all threads -/

/-- The caller with its subroutine put back, and what the answer of the call means for its line. -/
def Machine.resume (caller : Machine) (name : String) (callee : Machine) :
    Option Signal → Machine × Except Failure Flow
  | some (.returned value) => ((caller.hold name callee).accumulate value, .ok .next)
  | some .halted => (caller.hold name callee, .ok .halt)
  | some (.failed failure) => (caller.hold name callee, .error failure)
  | none => (caller.hold name callee, .error ⟨[], .missingReturn name⟩)

/-- How the answer of a call is noted. -/
def Signal.completion : Option Signal → Completion
  | some (.returned value) => .returned value
  | some .halted => .halted
  | some (.failed _) => .failed
  | none => .lost

/-- The kinds of steps. -/
inductive Move where
  | work
  | spawn
  | receive
  | join
  | report
  | send
  | leave
  deriving DecidableEq

/-- Whether a step of the kind executes a part of a line, uses the session, or hands a subroutine
over. -/
def Move.touches : Move → Bool
  | work | spawn | join => true
  | receive | report | send | leave => false

namespace Threads

variable {κ : Type} [Console κ]

/-- `Step i move σ s σ' s'`: the thread at depth `i` may take a step of that kind. -/
inductive Step : Nat → Move → Threads → Session κ → Threads → Session κ → Prop
  | work {σ : Threads} {t : Thread} {s s' : Session κ} (h : σ.head.Works s t s') :
      Step 0 .work σ s (σ.withHead t) s'
  | report {σ : Threads} {t : Thread} {s : Session κ} (h : σ.head.Reports t) :
      Step 0 .report σ s (σ.withHead t) s
  /-- A call starts a thread for the subroutine, and begins to listen. -/
  | spawn {m m' callee : Machine} {name : String} {s : Session κ} :
      Step 0 .spawn (alone ⟨m, .executing (.done (m', .call name callee))⟩) s
        (calling ⟨m', .receiving⟩ name {} (alone ⟨callee, .starting⟩)) s
  | receive {m : Machine} {name : String} {ch : Channel} {callee : Threads}
      {answer : Option Signal} {s : Session κ} (ha : ch.answer? = some answer) :
      Step 0 .receive (calling ⟨m, .receiving⟩ name ch callee) s
        (calling ⟨m, .joining answer⟩ name ch.answered callee) s
  /-- The thread of the subroutine has finished, and the line of the call is over. -/
  | join {m n : Machine} {name : String} {ch : Channel} {callee : Threads}
      {answer : Option Signal} {ending : Ending} {s : Session κ}
      (hn : callee.head = ⟨n, .finished ending⟩) :
      Step 0 .join (calling ⟨m, .joining answer⟩ name ch callee) s
        (alone ⟨(m.resume name n answer).1, .stepped (m.resume name n answer).2⟩)
        (s.note (.completed name (Signal.completion answer)))
  /-- Sending has to wait until there is room in the slot. -/
  | send {t : Thread} {n : Machine} {name : String} {ch : Channel} {callee : Threads}
      {signal : Signal} {next : Phase} {s : Session κ}
      (hn : callee.head = ⟨n, .sending signal next⟩) (hslot : ch.slot = none) :
      Step 1 .send (calling t name ch callee) s
        (calling t name (ch.send signal) (callee.withHead ⟨n, .leaving next⟩)) s
  | leave {t : Thread} {n : Machine} {name : String} {ch : Channel} {callee : Threads}
      {next : Phase} {s : Session κ} (hn : callee.head = ⟨n, .leaving next⟩) :
      Step 1 .leave (calling t name ch callee) s
        (calling t name ch.leave (callee.withHead ⟨n, next⟩)) s
  | deeper {i : Nat} {move : Move} {t : Thread} {name : String} {ch : Channel}
      {callee callee' : Threads} {s s' : Session κ} (h : Step i move callee s callee' s') :
      Step (i + 1) move (calling t name ch callee) s (calling t name ch callee') s'

/-- `Steps allowed σ s σ' s'`: a sequence of steps, each of them allowed, leads there. -/
inductive Steps (allowed : Nat → Move → Prop) (σ : Threads) (s : Session κ) :
    Threads → Session κ → Prop
  | refl : Steps allowed σ s σ s
  | tail {σ₁ σ₂ : Threads} {s₁ s₂ : Session κ} {i : Nat} {move : Move}
      (h : Steps allowed σ s σ₁ s₁) (hs : Step i move σ₁ s₁ σ₂ s₂) (ha : allowed i move) :
      Steps allowed σ s σ₂ s₂

/-- What every allowed step keeps, sequences of allowed steps keep. -/
theorem Steps.keeps {P : Threads → Session κ → Prop} {allowed : Nat → Move → Prop}
    (hstep : ∀ i move σ₁ s₁ σ₂ s₂, Step i move σ₁ s₁ σ₂ s₂ → allowed i move → P σ₁ s₁ → P σ₂ s₂)
    {σ σ' : Threads} {s s' : Session κ} (h : Steps allowed σ s σ' s') (hP : P σ s) : P σ' s' := by
  induction h with
  | refl => exact hP
  | tail _ hs ha ih => exact hstep _ _ _ _ _ _ hs ha ih

/-- The thread of a machine that is about to run. -/
def running (m : Machine) : Threads := alone ⟨m, .starting⟩

/-- The thread of a machine that is about to execute a single instruction; it is over when the
thread has stepped. -/
def dispatching (m : Machine) (mnemonic : Mnemonic) (operand : String) : Threads :=
  alone ⟨m, .executing (m.execute mnemonic operand)⟩

/-- The threads that come of a run of the machine, or of a single instruction, in any order of
steps. -/
inductive Reachable (m : Machine) (s₀ : Session κ) : Threads → Session κ → Prop
  | run {σ : Threads} {s : Session κ}
      (h : Steps (fun _ _ => True) (running m) s₀ σ s) : Reachable m s₀ σ s
  | dispatch {σ : Threads} {s : Session κ} (mnemonic : Mnemonic) (operand : String)
      (h : Steps (fun _ _ => True) (dispatching m mnemonic operand) s₀ σ s) : Reachable m s₀ σ s

end Threads

end AccMachine
