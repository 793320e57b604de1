/-
**Two sessions side by side.**

Much of what there is to say about machines compares two runs: with and without a trace, of two
programs, on two kinds of consoles.  The two runs go on in step as long as the dialogues of their
machines take the same turns and their sessions give the same answers.  This module says what that
means, and carries it from the turns of a dialogue to whole runs.

Main definitions:

* `Dialogue.Agree` — two dialogues take the same turns and end in related values;
* `Dialogue.SameResult` — two results are related values, or the same failure;
* `Session.Alike` — a relation between sessions that cannot be told apart by their answers.

Main results:

* `Session.perform_agree` — agreeing dialogues, held with sessions that are alike, come to the same
  result and leave the sessions alike;
* `Chain.step_alike`, `Chain.runFor_alike` — **sessions that are alike lead a chain to the same
  end**, after the same number of steps.
-/

import AccMachine.Proofs.CallChain
import AccMachine.Proofs.Speech

set_option relaxedAutoImplicit false
set_option autoImplicit false

namespace AccMachine

namespace Dialogue

variable {α β : Type}

/-! ### Dialogues that agree -/

/-- `Agree R d d'`: the two dialogues take the same turns, and end in values related by `R` or in
the same failure.  None of them says anything that looks like a trace entry; the events that they
note may differ. -/
inductive Agree (R : α → β → Prop) : Dialogue α → Dialogue β → Prop
  | done {a : α} {b : β} (h : R a b) : Agree R (done a) (done b)
  | fail (cause : Cause) : Agree R (fail cause) (fail cause)
  | trace (words : List String) (accumulator : Int64) {d : Dialogue α} {d' : Dialogue β}
      (h : Agree R d d') : Agree R (trace words accumulator d) (trace words accumulator d')
  | emit (output : Output) (ho : output.entry? = none) {d : Dialogue α} {d' : Dialogue β}
      (h : Agree R d d') : Agree R (emit output d) (emit output d')
  | read {k : Option String → Dialogue α} {k' : Option String → Dialogue β}
      (h : ∀ line, Agree R (k line) (k' line)) : Agree R (read k) (read k')
  | load (reference : String) {k : Program → Dialogue α} {k' : Program → Dialogue β}
      (h : ∀ program : Program, program.reference = reference → Agree R (k program) (k' program)) :
      Agree R (load reference k) (load reference k')
  | note (event event' : LogEvent) {d : Dialogue α} {d' : Dialogue β} (h : Agree R d d') :
      Agree R (note event d) (note event' d')

/-- A dialogue that shows no trace entry agrees with itself. -/
theorem Agree.of_speaks {d : Dialogue α} (h : d.Speaks fun o => o.entry? = none) :
    Agree Eq d d := by
  induction d with
  | done a => exact Agree.done rfl
  | fail cause => exact Agree.fail cause
  | trace words accumulator next ih => cases h
  | emit output next ih => exact Agree.emit output h.1 (ih h.2)
  | read next ih => exact Agree.read fun line => ih line (h line)
  | load reference next ih =>
      exact Agree.load reference fun program _ => ih program (h program)
  | note event next ih => exact Agree.note event event (ih h)

/-- `SameResult R x y`: the results are values related by `R`, or the same failure. -/
inductive SameResult (R : α → β → Prop) : Except Cause α → Except Cause β → Prop
  | ok {a : α} {b : β} (h : R a b) : SameResult R (.ok a) (.ok b)
  | error (cause : Cause) : SameResult R (.error cause) (.error cause)

/-- The dialogue of a line agrees with itself. -/
theorem agree_line (m : Machine) (text : String) : Agree Eq (m.line text) (m.line text) :=
  Agree.trace _ _ (Agree.of_speaks (m.obeyWords_speaks _))

theorem SameResult.eq {x y : Except Cause α} (h : SameResult Eq x y) : x = y := by
  cases h with
  | ok h => rw [h]
  | error cause => rfl

end Dialogue

namespace Session

variable {κ κ' : Type} [Console κ] [Console κ'] {α β : Type}

/-! ### Sessions that are alike -/

/-- A relation between sessions that every service keeps while it gives the same answer on both
sides.  Nothing depends on the notes of a session. -/
structure Alike (r : Session κ → Session κ' → Prop) : Prop where
  emit : ∀ {s : Session κ} {t : Session κ'} (output : Output), output.entry? = none → r s t →
    (s.emit output).1 = (t.emit output).1 ∧ r (s.emit output).2 (t.emit output).2
  trace : ∀ {s : Session κ} {t : Session κ'} (words : List String) (accumulator : Int64), r s t →
    (s.trace words accumulator).1 = (t.trace words accumulator).1 ∧
      r (s.trace words accumulator).2 (t.trace words accumulator).2
  readLine : ∀ {s : Session κ} {t : Session κ'}, r s t →
    s.readLine.1 = t.readLine.1 ∧ r s.readLine.2 t.readLine.2
  source : ∀ {s : Session κ} {t : Session κ'} (reference : String), r s t →
    s.source reference = t.source reference
  noteLeft : ∀ {s : Session κ} {t : Session κ'} (event : LogEvent), r s t → r (s.note event) t
  noteRight : ∀ {s : Session κ} {t : Session κ'} (event : LogEvent), r s t → r s (t.note event)

/-- The same source texts are at hand, so the same programs are loaded. -/
theorem Alike.load {r : Session κ → Session κ' → Prop} (alike : Alike r) {s : Session κ}
    {t : Session κ'} (reference : String) (h : r s t) :
    (s.load reference).1 = (t.load reference).1 ∧ r (s.load reference).2 (t.load reference).2 := by
  have hsource : s.source reference = t.source reference := alike.source reference h
  unfold Session.load
  rw [hsource]
  cases t.source reference with
  | error fault => exact ⟨rfl, h⟩
  | ok text => exact ⟨rfl, alike.noteLeft _ (alike.noteRight _ h)⟩

/-- **Agreeing dialogues, held with sessions that are alike, come to the same result** and leave
the sessions alike. -/
theorem perform_agree {r : Session κ → Session κ' → Prop} (alike : Alike r) {R : α → β → Prop}
    {d : Dialogue α} {d' : Dialogue β} (hd : Dialogue.Agree R d d') {s : Session κ}
    {t : Session κ'} (h : r s t) :
    Dialogue.SameResult R (s.perform d).1 (t.perform d').1 ∧
      r (s.perform d).2 (t.perform d').2 := by
  induction hd generalizing s t with
  | done hR => exact ⟨.ok hR, h⟩
  | fail cause => exact ⟨.error cause, h⟩
  | trace words accumulator _ ih =>
      obtain ⟨hanswer, hr⟩ := alike.trace words accumulator h
      simp only [perform]
      rcases hs : s.trace words accumulator with ⟨answer, s'⟩
      rcases ht : t.trace words accumulator with ⟨answer', t'⟩
      rw [hs, ht] at hanswer hr
      obtain rfl : answer = answer' := hanswer
      cases answer with
      | error fault => exact ⟨.error _, hr⟩
      | ok _ => exact ih hr
  | emit output ho _ ih =>
      obtain ⟨hanswer, hr⟩ := alike.emit output ho h
      simp only [perform]
      rcases hs : s.emit output with ⟨answer, s'⟩
      rcases ht : t.emit output with ⟨answer', t'⟩
      rw [hs, ht] at hanswer hr
      obtain rfl : answer = answer' := hanswer
      cases answer with
      | error fault => exact ⟨.error _, hr⟩
      | ok _ => exact ih hr
  | read _ ih =>
      obtain ⟨hanswer, hr⟩ := alike.readLine h
      simp only [perform]
      rcases hs : s.readLine with ⟨answer, s'⟩
      rcases ht : t.readLine with ⟨answer', t'⟩
      rw [hs, ht] at hanswer hr
      obtain rfl : answer = answer' := hanswer
      cases answer with
      | error fault => exact ⟨.error _, hr⟩
      | ok line => exact ih line hr
  | load reference _ ih =>
      obtain ⟨hanswer, hr⟩ := alike.load reference h
      simp only [perform]
      rcases hs : s.load reference with ⟨answer, s'⟩
      rcases ht : t.load reference with ⟨answer', t'⟩
      rw [hs, ht] at hanswer hr
      obtain rfl : answer = answer' := hanswer
      cases answer with
      | error fault => exact ⟨.error _, hr⟩
      | ok program => exact ih program (load_reference hs) hr
  | note event event' _ ih => exact ih (alike.noteLeft event (alike.noteRight event' h))

/-- Notes leave sessions alike, also where one side has more of them than the other. -/
theorem noteAll_alike {r : Session κ → Session κ' → Prop} (alike : Alike r) {s : Session κ}
    {t : Session κ'} (h : r s t) (events events' : List LogEvent) :
    r (s.noteAll events) (t.noteAll events') := by
  induction events generalizing s with
  | cons event events ih => exact ih (alike.noteLeft event h)
  | nil =>
      induction events' generalizing t with
      | nil => exact h
      | cons event events' ih => exact ih (alike.noteRight event h)

end Session

namespace Chain

variable {κ κ' : Type} [Console κ] [Console κ']

/-! ### Runs that go on in step -/

/-- A step leads a chain to the same place in sessions that are alike. -/
theorem step_alike {r : Session κ → Session κ' → Prop} (alike : Session.Alike r) (c : Chain)
    {s : Session κ} {t : Session κ'} (h : r s t) :
    (c.step s).1 = (c.step t).1 ∧ r (c.step s).2 (c.step t).2 := by
  cases ht : c.active.currentLine? with
  | none =>
      rw [step_of_none ht, step_of_none ht]
      exact ⟨rfl, Session.noteAll_alike alike h _ _⟩
  | some text =>
      obtain ⟨hresult, hr⟩ :=
        Session.perform_agree alike (Dialogue.agree_line c.active text) h
      rcases hs : s.perform (c.active.line text) with ⟨result, s'⟩
      rcases ht' : t.perform (c.active.line text) with ⟨result', t'⟩
      rw [hs, ht'] at hresult hr
      obtain rfl : result = result' := hresult.eq
      rw [step_of_line ht hs, step_of_line ht ht']
      exact ⟨rfl, Session.noteAll_alike alike hr _ _⟩

/-- Sessions in which every step leads to the same place lead a chain to the same end, after the
same number of steps. -/
theorem runFor_in_step {r : Session κ → Session κ' → Prop}
    (hstep : ∀ (c : Chain) {s : Session κ} {t : Session κ'}, r s t →
      (c.step s).1 = (c.step t).1 ∧ r (c.step s).2 (c.step t).2)
    (fuel : Nat) (c : Chain) {s : Session κ} {t : Session κ'} (h : r s t) :
    (runFor fuel c s = none ∧ runFor fuel c t = none) ∨
      ∃ ending m s' t', runFor fuel c s = some (ending, m, s') ∧
        runFor fuel c t = some (ending, m, t') ∧ r s' t' := by
  induction fuel generalizing c s t with
  | zero => exact Or.inl ⟨rfl, rfl⟩
  | succ fuel ih =>
      obtain ⟨hprogress, hr⟩ := hstep c h
      rw [runFor_succ_eq, runFor_succ_eq]
      rcases hs : c.step s with ⟨progress, s'⟩
      rcases ht : c.step t with ⟨progress', t'⟩
      rw [hs, ht] at hprogress hr
      obtain rfl : progress = progress' := hprogress
      cases progress with
      | running c' => exact ih c' hr
      | ended ending m => exact Or.inr ⟨ending, m, s', t', rfl, rfl, hr⟩

/-- **Sessions that are alike lead a chain to the same end**, after the same number of steps. -/
theorem runFor_alike {r : Session κ → Session κ' → Prop} (alike : Session.Alike r) (fuel : Nat)
    (c : Chain) {s : Session κ} {t : Session κ'} (h : r s t) :
    (runFor fuel c s = none ∧ runFor fuel c t = none) ∨
      ∃ ending m s' t', runFor fuel c s = some (ending, m, s') ∧
        runFor fuel c t = some (ending, m, t') ∧ r s' t' :=
  runFor_in_step (step_alike alike) fuel c h

end Chain

end AccMachine
