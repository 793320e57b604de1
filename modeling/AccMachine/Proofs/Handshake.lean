/-
**The handshake between a caller and its subroutine.**

Between the start of a subroutine's thread and its end, caller, channel and subroutine go together
through a fixed sequence of positions, whatever the order in which the threads act.  While the
subroutine works, it is awaited, the channel is untouched and the caller listens.  Then it takes
the signal in hand, so that it is no longer awaited, sends it or not, leaves the channel and
finishes; from the moment the signal is in the slot, or the channel is left, the caller may get its
answer.  These positions are an invariant of all steps, and what callers may rely on follows from
it.

Main definitions:

* `Machine.Outcome` — what a line or a single instruction may come to;
* `Link` — **the positions of the handshake**;
* `Thread.Fit` — a thread is in a state in which it can go on;
* `Thread.Onward` — what a step may change in a thread as its caller sees it.

Main results:

* `Link.receive`, `Link.send`, `Link.leave` — using the channel is a step of the handshake;
* `Thread.Works.onward`, `Thread.Reports.onward` — **what a thread does by itself fits to every
  position of the handshake**.
-/

import AccMachine.Proofs.Threads

set_option relaxedAutoImplicit false
set_option autoImplicit false

namespace AccMachine

/-! ### What a line may come to -/

namespace Machine

/-- `m.Outcome r`: a line or a single instruction may come to `r`, because nothing happens or an
instruction has its effect. -/
def Outcome (m : Machine) (r : Machine × Flow) : Prop :=
  r = (m, .next) ∨ ∃ mnemonic operand, Effect m operand mnemonic r.1 r.2

theorem line_outcome (m : Machine) (text : String) : (m.line text).Yields m.Outcome := by
  refine (m.line_yields text).mono ?_
  rintro ⟨m', flow⟩ h
  cases h with
  | pass _ => exact Or.inl rfl
  | obey _ _ he => exact Or.inr ⟨_, _, he⟩

theorem execute_outcome (m : Machine) (mnemonic : Mnemonic) (operand : String) :
    (m.execute mnemonic operand).Yields m.Outcome :=
  (m.execute_yields mnemonic operand).mono fun _ he => Or.inr ⟨_, _, he⟩

theorem Outcome.kept {m m' : Machine} {flow : Flow} (h : m.Outcome (m', flow)) :
    m'.program = m.program ∧ m'.parent = m.parent := by
  rcases h with h | ⟨_, _, he⟩
  · cases h
    exact ⟨rfl, rfl⟩
  · exact ⟨he.kept.1, he.kept.2.1⟩

theorem Outcome.awaited {m m' : Machine} {flow : Flow} (h : m.Outcome (m', flow))
    (hf : flow ≠ .ret) : m'.awaited = m.awaited := by
  rcases h with h | ⟨_, _, he⟩
  · cases h
    rfl
  · exact he.awaited hf

theorem Outcome.tidy {m m' : Machine} {flow : Flow} (h : m.Outcome (m', flow)) (hm : m.Tidy) :
    m'.Tidy := by
  rcases h with h | ⟨_, _, he⟩
  · cases h
    exact hm
  · exact he.tidy hm

/-- Only a machine that is awaited returns, and then it is no longer. -/
theorem Outcome.of_ret {m m' : Machine} (h : m.Outcome (m', .ret)) :
    m.awaited = true ∧ m' = m.released := by
  rcases h with h | ⟨_, _, he⟩
  · cases h
  · exact Effect.of_ret he

/-- A call changes nothing in the caller, and invokes a subroutine of it. -/
theorem Outcome.of_call {m m' callee : Machine} {name : String}
    (h : m.Outcome (m', .call name callee)) :
    m' = m ∧ ∃ child, m.subroutines.find? name = some child ∧
      callee = child.invoked m.accumulator := by
  rcases h with h | ⟨_, _, he⟩
  · cases h
  · exact (Effect.of_call he).2.2

/-- A caller stays the same but for its subroutine and its accumulator. -/
theorem resume_kept (m : Machine) (name : String) (callee : Machine) (answer : Option Signal) :
    (m.resume name callee answer).1.program = m.program ∧
      (m.resume name callee answer).1.parent = m.parent ∧
      (m.resume name callee answer).1.awaited = m.awaited := by
  rcases answer with _ | _ | _ | _ <;> exact ⟨rfl, rfl, rfl⟩

theorem resume_tidy {m callee : Machine} {name : String} (h : m.Tidy) (hc : callee.Tidy)
    (hd : callee.DeclaredBy m name) (ha : callee.awaited = false) (answer : Option Signal) :
    (m.resume name callee answer).1.Tidy := by
  have hhold := h.hold hc hd ha
  rcases answer with _ | _ | _ | _ <;> exact hhold.congr rfl rfl

end Machine

/-! ### The positions of the handshake -/

/-- The signal that tells a caller how the run of its subroutine ended. -/
def Ending.signal? (callee : Machine) : Ending → Option Signal
  | returned => some (.returned callee.accumulator)
  | ending => ending.report?

/-- The phases before a thread has anything to tell its caller. -/
def Phase.Working : Phase → Prop
  | stepped (.ok .ret) => False
  | stepped (.ok (.call _ _)) => False
  | ended .returned => False
  | sending _ _ => False
  | leaving _ => False
  | finished _ => False
  | _ => True

theorem Ending.signal?_of_working {ending : Ending} (h : (Phase.ended ending).Working)
    (callee : Machine) : ending.signal? callee = ending.report? := by
  cases ending with
  | returned => exact h.elim
  | _ => rfl

/-- The phases after a thread has left its channel, with the ending of its run. -/
inductive Phase.Closed : Phase → Ending → Prop
  | stepped : Closed (.stepped (.ok .ret)) .returned
  | returned : Closed (.ended .returned) .returned
  | finished (ending : Ending) : Closed (.finished ending) ending

/-- Whether a thread waits for its subroutine. -/
def Phase.Waiting : Phase → Prop
  | receiving => True
  | joining _ => True
  | _ => False

/-- The phases in which a thread can do nothing by itself: it needs its channel, or has finished. -/
def Phase.Passive : Phase → Prop
  | sending _ _ => True
  | leaving _ => True
  | finished _ => True
  | _ => False

theorem Phase.not_passive_of_working {p : Phase} (h : p.Working) : ¬ p.Passive := by
  intro hp
  cases p with
  | sending _ _ => exact h
  | leaving _ => exact h
  | finished _ => exact h
  | _ => exact hp

/-- How many signals the channel has carried in the end. -/
def signalCount (answer : Option Signal) : Nat := if answer.isSome then 1 else 0

/-- `Link p ch t`: a caller in the phase `p`, the channel and the thread of its subroutine are in a
position of the handshake. -/
inductive Link : Phase → Channel → Thread → Prop
  /-- The subroutine works. -/
  | working {n : Machine} {q : Phase} (ha : n.awaited = true) (hq : q.Working) :
      Link .receiving {} ⟨n, q⟩
  /-- The signal is in its hand. -/
  | sending {n : Machine} {q : Phase} {ending : Ending} {signal : Signal}
      (ha : n.awaited = false) (hq : q.Closed ending) (hs : ending.signal? n = some signal) :
      Link .receiving {} ⟨n, .sending signal q⟩
  /-- There is no signal to send. -/
  | silent {n : Machine} {q : Phase} {ending : Ending}
      (ha : n.awaited = false) (hq : q.Closed ending) (hs : ending.signal? n = none) :
      Link .receiving {} ⟨n, .leaving q⟩
  /-- The signal is in the slot. -/
  | sent {n : Machine} {q : Phase} {ending : Ending} {signal : Signal}
      (ha : n.awaited = false) (hq : q.Closed ending) (hs : ending.signal? n = some signal) :
      Link .receiving ⟨some signal, true, 1, 0⟩ ⟨n, .leaving q⟩
  /-- The caller got the signal before the subroutine has left. -/
  | heard {n : Machine} {q : Phase} {ending : Ending} {signal : Signal}
      (ha : n.awaited = false) (hq : q.Closed ending) (hs : ending.signal? n = some signal) :
      Link (.joining (some signal)) ⟨none, true, 1, 1⟩ ⟨n, .leaving q⟩
  /-- The subroutine has left, and the caller has not got its answer yet. -/
  | left {n : Machine} {q : Phase} {ending : Ending} (ha : n.awaited = false)
      (hq : q.Closed ending) :
      Link .receiving ⟨ending.signal? n, false, signalCount (ending.signal? n), 0⟩ ⟨n, q⟩
  /-- The caller has its answer, and the subroutine has left. -/
  | answered {n : Machine} {q : Phase} {ending : Ending} (ha : n.awaited = false)
      (hq : q.Closed ending) :
      Link (.joining (ending.signal? n)) ⟨none, false, signalCount (ending.signal? n), 1⟩ ⟨n, q⟩

theorem Link.waiting {p : Phase} {ch : Channel} {t : Thread} (h : Link p ch t) : p.Waiting := by
  cases h <;> trivial

/-- Getting the answer is a step of the handshake. -/
theorem Link.receive {ch : Channel} {t : Thread} {answer : Option Signal}
    (h : Link .receiving ch t) (ha : ch.answer? = some answer) :
    Link (.joining answer) ch.answered t := by
  cases h with
  | working _ _ => cases ha
  | sending _ _ _ => cases ha
  | silent _ _ _ => cases ha
  | sent hn hq hs =>
      cases ha
      exact .heard hn hq hs
  | @left n q ending hn hq =>
      -- What is in the slot is what the ending calls for, so there is no need to look at it.
      have hanswer : answer = ending.signal? n := by
        unfold Channel.answer? at ha
        dsimp only at ha
        split at ha
        · next hs =>
            cases ha
            exact hs.symm
        · next hs =>
            cases ha
            exact hs.symm
      subst hanswer
      exact .answered hn hq

/-- Sending the signal is a step of the handshake. -/
theorem Link.send {p : Phase} {ch : Channel} {n : Machine} {signal : Signal} {next : Phase}
    (h : Link p ch ⟨n, .sending signal next⟩) :
    Link p (ch.send signal) ⟨n, .leaving next⟩ := by
  cases h with
  | working _ hq => cases hq
  | sending ha hq hs => exact .sent ha hq hs
  | left _ hq => cases hq
  | answered _ hq => cases hq

/-- There is room for a signal that is about to be sent. -/
theorem Link.slot_of_sending {p : Phase} {ch : Channel} {n : Machine} {signal : Signal}
    {next : Phase} (h : Link p ch ⟨n, .sending signal next⟩) : ch.slot = none := by
  cases h with
  | working _ hq => cases hq
  | sending _ _ _ => rfl
  | left _ hq => cases hq
  | answered _ _ => rfl

/-- Once the subroutine has left, the caller gets what is in the slot. -/
theorem Channel.answer?_left (answer : Option Signal) (sent : Nat) :
    answer? ⟨answer, false, sent, 0⟩ = some answer := by
  cases answer <;> rfl

/-- Leaving the channel is a step of the handshake. -/
theorem Link.leave {p : Phase} {ch : Channel} {n : Machine} {next : Phase}
    (h : Link p ch ⟨n, .leaving next⟩) : Link p ch.leave ⟨n, next⟩ := by
  cases h with
  | working _ hq => cases hq
  | @silent _ _ ending ha hq hs =>
      have hleft := Link.left ha hq
      rw [hs] at hleft
      exact hleft
  | @sent _ _ ending signal ha hq hs =>
      have hleft := Link.left ha hq
      rw [hs] at hleft
      exact hleft
  | @heard _ _ ending signal ha hq hs =>
      have hanswered := Link.answered ha hq
      rw [hs] at hanswered
      exact hanswered
  | left _ hq => cases hq
  | answered _ hq => cases hq

/-- A thread that is about to send or to leave will be done with its channel then. -/
theorem Link.closed_of_leaving {p : Phase} {ch : Channel} {n : Machine} {next : Phase}
    (h : Link p ch ⟨n, .leaving next⟩) : ∃ ending, next.Closed ending := by
  cases h with
  | working _ hq => cases hq
  | silent _ hq _ => exact ⟨_, hq⟩
  | sent _ hq _ => exact ⟨_, hq⟩
  | heard _ hq _ => exact ⟨_, hq⟩
  | left _ hq => cases hq
  | answered _ hq => cases hq

/-! ### Threads as their callers see them -/

/-- Nobody waits for the machine of the thread, and the thread has no channel to use. -/
def Thread.Unawaited (t : Thread) : Prop :=
  t.machine.awaited = false ∧
    (t.phase.Working ∨ ∃ ending, ending ≠ .returned ∧ t.phase = .finished ending)

/-- `t.Onward t'`: the thread goes on in a way that fits to every position of the handshake. -/
structure Thread.Onward (t t' : Thread) : Prop where
  program : t'.machine.program = t.machine.program
  parent : t'.machine.parent = t.machine.parent
  link : ∀ p ch, Link p ch t → Link p ch t'
  unawaited : t.Unawaited → t'.Unawaited

namespace Thread

theorem Onward.refl (t : Thread) : t.Onward t := ⟨rfl, rfl, fun _ _ h => h, fun h => h⟩

/-- A thread that works on, with its machine awaited as before, goes on. -/
theorem Onward.of_working {m m' : Machine} {p p' : Phase} (hp : p.Working) (hp' : p'.Working)
    (hprogram : m'.program = m.program) (hparent : m'.parent = m.parent)
    (hawaited : m'.awaited = m.awaited) : Onward ⟨m, p⟩ ⟨m', p'⟩ := by
  refine ⟨hprogram, hparent, ?_, ?_⟩
  · intro q ch h
    cases h with
    | working ha _ => exact .working (hawaited.trans ha) hp'
    | sending _ _ _ => exact hp.elim
    | silent _ _ _ => exact hp.elim
    | sent _ _ _ => exact hp.elim
    | heard _ _ _ => exact hp.elim
    | left _ hq => cases hq <;> exact hp.elim
    | answered _ hq => cases hq <;> exact hp.elim
  · rintro ⟨ha, _⟩
    exact ⟨hawaited.trans ha, Or.inl hp'⟩

/-- A thread whose machine is awaited goes on when it takes its signal in hand, or has none. -/
theorem Onward.of_awaited {m : Machine} {p : Phase} {t : Thread} (ha : m.awaited = true)
    (hp : ¬ p.Passive) (hprogram : t.machine.program = m.program)
    (hparent : t.machine.parent = m.parent) (hlink : p.Working → Link .receiving {} t) :
    Onward ⟨m, p⟩ t := by
  have hne : m.awaited ≠ false := by
    rw [ha]
    exact nofun
  refine ⟨hprogram, hparent, ?_, ?_⟩
  · intro q ch h
    -- In every position but the first, nobody waits for the machine any more.
    cases h with
    | working _ hq => exact hlink hq
    | sending _ _ _ => exact absurd trivial hp
    | silent _ _ _ => exact absurd trivial hp
    | sent _ _ _ => exact absurd trivial hp
    | heard _ _ _ => exact absurd trivial hp
    | left hn _ => exact absurd hn hne
    | answered hn _ => exact absurd hn hne
  · rintro ⟨hn, _⟩
    exact absurd hn hne

/-- What a thread is fit for: its machine has a tidy tree, and what is left of a line comes to
something that a line may come to. -/
structure Fit (t : Thread) : Prop where
  tidy : t.machine.Tidy
  executing : ∀ rest, t.phase = .executing rest → rest.Yields t.machine.Outcome
  stepped : ∀ name callee, t.phase ≠ .stepped (.ok (.call name callee))

/-- A thread in the middle of no line is fit if its machine has a tidy tree. -/
theorem fit_of_tidy {m : Machine} {p : Phase} (h : m.Tidy) (hp : ∀ rest, p ≠ .executing rest)
    (hp' : ∀ name callee, p ≠ .stepped (.ok (.call name callee))) : Fit ⟨m, p⟩ :=
  ⟨h, fun rest hrest => absurd hrest (hp rest), hp'⟩

variable {κ : Type} [Console κ]

/-- A thread that works goes on. -/
theorem Works.onward {t t' : Thread} {s s' : Session κ} (h : t.Works s t' s') (ht : t.Fit) :
    t.Onward t' := by
  cases h with
  | start => exact .of_working trivial trivial rfl rfl rfl
  | fetch _ => exact .of_working trivial trivial rfl rfl rfl
  | runOut _ => exact .of_working trivial trivial rfl rfl rfl
  | turn _ => exact .of_working trivial trivial rfl rfl rfl
  | refused _ => exact .of_working trivial trivial rfl rfl rfl
  | @done m m' _ flow hf =>
      -- Returns and calls are steps of other kinds.
      have houtcome : m.Outcome (m', flow) := ht.executing _ rfl
      have hworking : (Phase.stepped (.ok flow)).Working := by
        cases flow with
        | ret => exact absurd rfl hf.1
        | call name callee => exact absurd rfl (hf.2 name callee)
        | _ => trivial
      exact .of_working trivial hworking houtcome.kept.1 houtcome.kept.2 (houtcome.awaited hf.1)
  | @ret m m' =>
      have houtcome : m.Outcome (m', .ret) := ht.executing _ rfl
      obtain ⟨ha, rfl⟩ := houtcome.of_ret
      exact .of_awaited ha id rfl rfl fun _ => .sending rfl .stepped rfl
  | next => exact .of_working trivial trivial rfl rfl rfl
  | jump => exact .of_working trivial trivial rfl rfl rfl
  | returned =>
      refine ⟨rfl, rfl, ?_, ?_⟩
      · intro p ch h
        cases h with
        | working _ hq => cases hq
        | left ha hq =>
            cases hq
            exact .left ha .returned
        | answered ha hq =>
            cases hq
            exact .answered ha .returned
      · rintro ⟨_, hworking | ⟨_, _, hfinished⟩⟩
        · cases hworking
        · cases hfinished
  | failed => exact .of_working trivial trivial rfl rfl rfl
  | halted _ => exact .of_working trivial trivial rfl rfl rfl
  | haltedRoot _ => exact .of_working trivial trivial rfl rfl rfl
  | flush _ => exact .of_working trivial trivial rfl rfl rfl
  | flushRefused _ => exact .of_working trivial trivial rfl rfl rfl

/-- A thread that works stays fit, and does not come to wait. -/
theorem Works.fit {t t' : Thread} {s s' : Session κ} (h : t.Works s t' s') (ht : t.Fit) :
    t'.Fit ∧ ¬ t'.phase.Waiting := by
  cases h with
  | start => exact ⟨fit_of_tidy (ht.tidy.congr rfl rfl) nofun nofun, id⟩
  | @fetch m _ text _ =>
      refine ⟨⟨ht.tidy, ?_, nofun⟩, id⟩
      intro rest hrest
      cases hrest
      exact m.line_outcome text
  | runOut _ => exact ⟨fit_of_tidy ht.tidy nofun nofun, id⟩
  | turn h =>
      refine ⟨⟨ht.tidy, ?_, nofun⟩, id⟩
      intro rest hrest
      cases hrest
      exact Session.turn_yields (ht.executing _ rfl) h
  | refused _ => exact ⟨fit_of_tidy ht.tidy nofun nofun, id⟩
  | @done m m' _ flow hf =>
      have houtcome : m.Outcome (m', flow) := ht.executing _ rfl
      refine ⟨fit_of_tidy (houtcome.tidy ht.tidy) nofun ?_, id⟩
      intro name callee hcall
      cases hcall
      exact hf.2 name callee rfl
  | @ret m m' =>
      have houtcome : m.Outcome (m', .ret) := ht.executing _ rfl
      exact ⟨fit_of_tidy (houtcome.tidy ht.tidy) nofun nofun, id⟩
  | next => exact ⟨fit_of_tidy (ht.tidy.congr rfl rfl) nofun nofun, id⟩
  | jump => exact ⟨fit_of_tidy (ht.tidy.congr rfl rfl) nofun nofun, id⟩
  | returned => exact ⟨fit_of_tidy ht.tidy nofun nofun, id⟩
  | failed => exact ⟨fit_of_tidy ht.tidy nofun nofun, id⟩
  | halted _ => exact ⟨fit_of_tidy ht.tidy nofun nofun, id⟩
  | haltedRoot _ => exact ⟨fit_of_tidy ht.tidy nofun nofun, id⟩
  | flush _ => exact ⟨fit_of_tidy ht.tidy nofun nofun, id⟩
  | flushRefused _ => exact ⟨fit_of_tidy ht.tidy nofun nofun, id⟩

/-- A thread that is about to report goes on. -/
theorem Reports.onward {t t' : Thread} (h : t.Reports t') : t.Onward t' := by
  cases h with
  | @signal m ending signal ha hs =>
      refine .of_awaited ha id rfl rfl fun hq => ?_
      exact .sending rfl (.finished ending) ((Ending.signal?_of_working hq _).trans hs)
  | @silent m ending ha hs =>
      refine .of_awaited ha id rfl rfl fun hq => ?_
      exact .silent rfl (.finished ending) ((Ending.signal?_of_working hq _).trans hs)
  | @unawaited m ending ha =>
      -- Either the machine has returned, or nobody ever waited for it.
      refine ⟨rfl, rfl, ?_, ?_⟩
      · intro p ch h
        cases h with
        | working hn _ => exact absurd (hn.symm.trans ha) Bool.noConfusion
        | left hn hq =>
            cases hq
            exact .left hn (.finished _)
        | answered hn hq =>
            cases hq
            exact .answered hn (.finished _)
      · rintro ⟨_, hworking | ⟨_, _, hfinished⟩⟩
        · refine ⟨ha, Or.inr ⟨ending, ?_, rfl⟩⟩
          rintro rfl
          exact hworking
        · cases hfinished

theorem Reports.fit {t t' : Thread} (h : t.Reports t') (ht : t.Fit) :
    t'.Fit ∧ ¬ t'.phase.Waiting := by
  cases h with
  | signal _ _ => exact ⟨fit_of_tidy ht.tidy.released nofun nofun, id⟩
  | silent _ _ => exact ⟨fit_of_tidy ht.tidy.released nofun nofun, id⟩
  | unawaited _ => exact ⟨fit_of_tidy ht.tidy nofun nofun, id⟩

end Thread

end AccMachine
