/-
**What a run asks of its console.**

A run goes on turn by turn: it fetches a line, takes the turns of the line's dialogue one after
another, and settles the result.  Some of the turns ask something of the console, to take an output
or to hand out a line.  This module follows a run from turn to turn and keeps the list of these
requests, so that one can speak of a moment in the middle of a line and of everything that was asked
before it.

Main definitions:

* `Request`, `Session.request?` — what a turn asks of the console;
* `Chain.Asks` — the moments that a run comes through, with the requests that it has made.

Main results:

* `Session.turn_induction` — what holds of a dialogue may be proved turn by turn;
* `Chain.Asks.reaches`, `Chain.Asks.perform` — a moment belongs to a chain that the run reaches;
* `Chain.Asks.stop_of_refused` — **a turn that is refused ends the run** at that moment.
-/

import AccMachine.Proofs.Threads

set_option relaxedAutoImplicit false
set_option autoImplicit false

namespace AccMachine

/-- Something that is asked of a console. -/
inductive Request where
  /-- To take an output. -/
  | emit (output : Output)
  /-- To hand out a line of input. -/
  | read
  deriving DecidableEq

/-- Whether it is an output. -/
def Request.isEmit : Request → Bool
  | emit _ => true
  | read => false

/-- Whether it is a line of input. -/
def Request.isRead : Request → Bool
  | emit _ => false
  | read => true

namespace Session

variable {κ : Type} {α : Type}

/-- What the next turn of a dialogue asks of the console, if it asks anything of it.  Recording a
line does so in debug mode. -/
def request? (s : Session κ) : Dialogue α → Option Request
  | .trace words accumulator _ =>
      if s.tracer.mode = .debug then some (.emit (.trace (traceEntry words accumulator))) else none
  | .emit output _ => some (.emit output)
  | .read _ => some .read
  | _ => none

variable [Console κ]

/-- **What holds of a dialogue may be proved turn by turn**: it holds at the result and where a turn
fails, and it holds before a turn if it holds after it. -/
theorem turn_induction {P : Session κ → Dialogue α → Prop} (done : ∀ s a, P s (.done a))
    (stop : ∀ s d cause s', s.turn d = some (.error cause, s') → P s d)
    (next : ∀ s d rest s', s.turn d = some (.ok rest, s') → P s' rest → P s d)
    (s : Session κ) (d : Dialogue α) : P s d := by
  -- Whatever the turn answers, what is left of the dialogue is one of its parts.
  have hturn : ∀ (s : Session κ) (d : Dialogue α), (∀ a, d ≠ .done a) →
      (∀ rest s', s.turn d = some (.ok rest, s') → P s' rest) → P s d := by
    intro s d hd hrest
    rcases s.done_or_turn d with ⟨a, rfl⟩ | ⟨cause, s', ht⟩ | ⟨rest, s', ht⟩
    · exact absurd rfl (hd a)
    · exact stop s d cause s' ht
    · exact next s d rest s' ht (hrest rest s' ht)
  induction d generalizing s with
  | done a => exact done s a
  | fail cause => exact stop s _ cause s rfl
  | trace words accumulator d ih =>
      refine hturn s _ (fun _ hd => by cases hd) fun rest s' ht => ?_
      simp only [turn] at ht
      split at ht <;> cases ht
      exact ih _
  | emit output d ih =>
      refine hturn s _ (fun _ hd => by cases hd) fun rest s' ht => ?_
      simp only [turn] at ht
      split at ht <;> cases ht
      exact ih _
  | read k ih =>
      refine hturn s _ (fun _ hd => by cases hd) fun rest s' ht => ?_
      simp only [turn] at ht
      split at ht <;> cases ht
      exact ih _ _
  | load reference k ih =>
      refine hturn s _ (fun _ hd => by cases hd) fun rest s' ht => ?_
      simp only [turn] at ht
      split at ht <;> cases ht
      exact ih _ _
  | note event d ih =>
      refine hturn s _ (fun _ hd => by cases hd) fun rest s' ht => ?_
      cases ht
      exact ih _

end Session

namespace Chain

variable {κ : Type} [Console κ]

/-! ### The moments of a run -/

/-- `Asks c s asked c' s' rest?`: a run that is at the chain `c` in the session `s` comes to a
moment at which the chain is `c'` and the session `s'`, and has asked the console for `asked`, in
that order, and been answered.  In the middle of a line, `rest?` is what is left of its dialogue;
between two lines it is `none`. -/
inductive Asks (c : Chain) (s : Session κ) :
    List Request → Chain → Session κ → Option (Dialogue (Machine × Flow)) → Prop
  | start : Asks c s [] c s none
  | fetch {asked : List Request} {c₁ : Chain} {s₁ : Session κ} {text : String}
      (h : Asks c s asked c₁ s₁ none) (ht : c₁.active.currentLine? = some text) :
      Asks c s asked c₁ s₁ (some (c₁.active.line text))
  | turn {asked : List Request} {c₁ : Chain} {s₁ s₂ : Session κ}
      {d rest : Dialogue (Machine × Flow)} (h : Asks c s asked c₁ s₁ (some d))
      (ht : s₁.turn d = some (.ok rest, s₂)) :
      Asks c s (asked ++ (s₁.request? d).toList) c₁ s₂ (some rest)
  | settle {asked : List Request} {c₁ c₂ : Chain} {s₁ : Session κ} {result : Machine × Flow}
      {events : List LogEvent} (h : Asks c s asked c₁ s₁ (some (.done result)))
      (hs : c₁.settle (.ok result) = (.running c₂, events)) :
      Asks c s asked c₂ (s₁.noteAll events) none

/-- The chain of a moment, and how the dialogue of its line would go on from the beginning. -/
theorem Asks.place {c c₁ : Chain} {s s₁ : Session κ} {asked : List Request}
    {rest? : Option (Dialogue (Machine × Flow))} (h : Asks c s asked c₁ s₁ rest?) :
    (rest? = none → Reaches c s c₁ s₁) ∧
      ∀ d, rest? = some d → ∃ s₀ text, Reaches c s c₁ s₀ ∧
        c₁.active.currentLine? = some text ∧ s₀.perform (c₁.active.line text) = s₁.perform d := by
  induction h with
  | start => exact ⟨fun _ => .refl, nofun⟩
  | @fetch asked c₁ s₁ text _ ht ih =>
      refine ⟨nofun, fun d hd => ?_⟩
      cases hd
      exact ⟨s₁, text, ih.1 rfl, ht, rfl⟩
  | @turn asked c₁ s₁ s₂ d rest _ ht ih =>
      refine ⟨nofun, fun d' hd => ?_⟩
      cases hd
      obtain ⟨s₀, text, hreach, htext, hp⟩ := ih.2 d rfl
      exact ⟨s₀, text, hreach, htext, by rw [hp, Session.perform_of_turn ht]⟩
  | @settle asked c₁ c₂ s₁ result events _ hs ih =>
      refine ⟨fun _ => ?_, nofun⟩
      obtain ⟨s₀, text, hreach, htext, hp⟩ := ih.2 _ rfl
      exact hreach.tail (by rw [step_of_line htext hp, hs])

/-- Between two lines, the chain of a moment is one that the run reaches. -/
theorem Asks.reaches {c c₁ : Chain} {s s₁ : Session κ} {asked : List Request}
    (h : Asks c s asked c₁ s₁ none) : Reaches c s c₁ s₁ :=
  h.place.1 rfl

/-- In the middle of a line, the run has reached the chain of the moment, and holds the dialogue of
its line. -/
theorem Asks.perform {c c₁ : Chain} {s s₁ : Session κ} {asked : List Request}
    {d : Dialogue (Machine × Flow)} (h : Asks c s asked c₁ s₁ (some d)) :
    ∃ s₀ text, Reaches c s c₁ s₀ ∧ c₁.active.currentLine? = some text ∧
      s₀.perform (c₁.active.line text) = s₁.perform d :=
  h.place.2 d rfl

/-- **A turn that is refused ends the run** at that moment: nothing but notes about the calls that
failed comes after it. -/
theorem Asks.stop_of_refused {c c₁ : Chain} {s s₁ s₂ : Session κ} {asked : List Request}
    {d : Dialogue (Machine × Flow)} {cause : Cause} (h : Asks c s asked c₁ s₁ (some d))
    (ht : s₁.turn d = some (.error cause, s₂)) :
    ∃ s₀ events, Reaches c s c₁ s₀ ∧
      c₁.step s₀ = (.ended (.failed ⟨(c₁.callers.map fun f => f.caller.here).reverse ++
        [c₁.active.here], cause⟩) (adoptAll c₁.active c₁.callers), s₂.noteAll events) := by
  obtain ⟨s₀, text, hreach, htext, hp⟩ := h.perform
  rw [Session.perform_of_turn ht] at hp
  have hfailure : outward ⟨[c₁.active.here], cause⟩ c₁.callers =
      ⟨(c₁.callers.map fun f => f.caller.here).reverse ++ [c₁.active.here], cause⟩ := by
    rw [← locations_outward ⟨[c₁.active.here], cause⟩ c₁.callers]
    exact congrArg (Failure.mk _) (cause_outward _ _)
  refine ⟨s₀, (c₁.settle (.error cause)).2, hreach, ?_⟩
  rw [step_of_line htext hp, ← hfailure]
  exact Prod.ext (deliver_failed _ _ _) rfl

end Chain

end AccMachine
