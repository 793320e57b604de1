/-
**The log of a run brackets the calls.**

The log of a run is nested, whatever the run ends with: a subroutine that is invoked is completed,
also if a machine halts or fails somewhere below.  When it is completed by a halt or a failure, all
subroutines around it are; when it returns, the caller goes on with the value that is noted.

A chain without callers is looked at first.  What a call adds to its log is what the subroutine adds
when it runs by itself, between two notes; the rest is what the caller adds from there on.

Main definitions:

* `Chain.Resumes` — a call that returns, with the moments of the call and of the return;
* `Chain.Bracket` — what holds of a call and its completion in the log of a run;
* `Chain.Logs` — what holds of the log of a run, and of all its calls.

Main results:

* `Chain.logs_of_runFor` — **the log of a chain that comes to its end**;
* `Machine.invoking_noted` — **every call that a run begins is noted**;
* `Machine.run_log` — **the log of a run brackets the calls**.
-/

import AccMachine.Proofs.LineLog
import AccMachine.Proofs.Nesting
import AccMachine.Proofs.UnreadSlot

set_option relaxedAutoImplicit false
set_option autoImplicit false

namespace AccMachine

open Log

variable {κ : Type} [Console κ]

namespace Chain

/-! ### Calls that return -/

/-- `c.Resumes s before name accumulator inner value`: in the run from `c` in the session `s`, a
machine called the subroutine of that name with that accumulator, when the notes `before` were made.
The subroutine noted `inner`, and when it returned, its caller came to the line behind the call and
had the value in its accumulator. -/
inductive Resumes (c : Chain) (s : Session κ) (before : List LogEvent) (name : String)
    (accumulator : Int64) (inner : List LogEvent) (value : Int64) : Prop
  | intro {caller callee next : Machine} {callers : List Frame} {c₁ : Chain}
      {s₀ s₁ s₂ s₃ : Session κ}
      (hreach : Reaches c s ⟨caller, callers⟩ s₀)
      (hbefore : s₀.log.toList = s.log.toList ++ before)
      (haccumulator : caller.accumulator = accumulator)
      (hcall : step ⟨caller, callers⟩ s₀ = (.running ⟨callee, ⟨caller, name⟩ :: callers⟩, s₁))
      (hinvoking : s₁.log.toList = s₀.log.toList ++ [.invoking name accumulator])
      (hinside : Reaches ⟨callee, ⟨caller, name⟩ :: callers⟩ s₁ c₁ s₂)
      (hinner : s₂.log.toList = s₁.log.toList ++ inner)
      (hreturn : c₁.step s₂ = (.running ⟨next, callers⟩, s₃))
      (hcompleted : s₃.log.toList = s₂.log.toList ++ [.completed name (.returned value)])
      (hprogram : next.program = caller.program) (hpc : next.pc = caller.pc + 1)
      (hvalue : next.accumulator = value)

variable {c c' : Chain} {s s' : Session κ} {before inner : List LogEvent} {name : String}
  {accumulator value : Int64} {completion : Completion}

/-- A call that returns does so on top of further callers, too. -/
theorem Resumes.onTopOf (h : c.Resumes s before name accumulator inner value)
    (further : List Frame) :
    (c.onTopOf further).Resumes s before name accumulator inner value := by
  obtain ⟨hreach, hbefore, haccumulator, hcall, hinvoking, hinside, hinner, hreturn, hcompleted,
    hprogram, hpc, hvalue⟩ := h
  refine ⟨hreach.onTopOf further, hbefore, haccumulator, ?_, hinvoking, hinside.onTopOf further,
    hinner, ?_, hcompleted, hprogram, hpc, hvalue⟩
  · exact (step_onTopOf ⟨_, _⟩ further _).trans (by rw [hcall]; rfl)
  · rw [step_onTopOf, hreturn]
    rfl

/-- A call that returns later in a run. -/
theorem Resumes.after {earlier : List LogEvent} (hreach : Reaches c s c' s')
    (hlog : s'.log.toList = s.log.toList ++ earlier)
    (h : c'.Resumes s' before name accumulator inner value) :
    c.Resumes s (earlier ++ before) name accumulator inner value := by
  obtain ⟨hreach', hbefore, haccumulator, hcall, hinvoking, hinside, hinner, hreturn, hcompleted,
    hprogram, hpc, hvalue⟩ := h
  refine ⟨hreach.trans hreach', ?_, haccumulator, hcall, hinvoking, hinside, hinner, hreturn,
    hcompleted, hprogram, hpc, hvalue⟩
  rw [hbefore, hlog, List.append_assoc]

/-- The call that a machine makes with its first step, if the subroutine returns: where the run then
goes on. -/
theorem resumes_of_call {m callee left : Machine} {s₁ s₂ : Session κ} {fuel : Nat}
    (hs : step ⟨m, []⟩ s = (.running ⟨callee, [⟨m, name⟩]⟩, s₁))
    (hinvoking : s₁.log.toList = s.log.toList ++ [.invoking name m.accumulator])
    (hrun : runFor fuel ⟨callee, []⟩ s₁ = some (.returned, left, s₂))
    (hinner : s₂.log.toList = s₁.log.toList ++ inner) :
    Resumes ⟨m, []⟩ s [] name m.accumulator inner left.accumulator ∧
      Reaches ⟨m, []⟩ s ⟨((m.adopt name left).accumulate left.accumulator).advance, []⟩
        (s₂.note (.completed name (.returned left.accumulator))) := by
  obtain ⟨⟨active, callers⟩, t, hinside, hstop⟩ := runFor_eq_some_iff.1 ⟨fuel, hrun⟩
  -- It has returned without callers, and that leaves no note yet.
  obtain rfl : callers = [] := by
    cases stop_of_step hstop with
    | returned _ _ hcallers => exact hcallers
  have ht : s₂.log.toList = t.log.toList := by
    obtain ⟨events, hlogged, hlog⟩ := active.logged_step t
    rw [hstop] at hlogged hlog
    cases hlogged
    exact hlog.trans (List.append_nil _)
  have hinside' := hinside.onTopOf [⟨m, name⟩]
  have hreturn : (onTopOf ⟨active, []⟩ [⟨m, name⟩]).step t =
      (.running ⟨((m.adopt name left).accumulate left.accumulator).advance, []⟩,
        s₂.note (.completed name (.returned left.accumulator))) := by
    rw [step_onTopOf, hstop]
    rfl
  refine ⟨⟨.refl, (List.append_nil _).symm, rfl, hs, hinvoking, hinside', ht ▸ hinner, hreturn, ?_,
    rfl, rfl, rfl⟩, (hinside'.head hs).tail hreturn⟩
  rw [Session.log_note, ht]

/-! ### The brackets of a run -/

/-- What holds of a call and its completion in the log of a run: all that is completed in between
carries over to the completion; and if this notes a value that was returned, it is the value with
which the caller goes on. -/
structure Bracket (c : Chain) (s : Session κ) (before : List LogEvent) (name : String)
    (accumulator : Int64) (inner : List LogEvent) (completion : Completion) : Prop where
  carries : ∀ inside ending, .completed inside ending ∈ inner → ending.Carries completion
  resumes : ∀ value, completion = .returned value →
    c.Resumes s before name accumulator inner value

/-- `c.Logs s earlier completion events`: the notes that the run from `c` in the session `s` makes
once it has made the notes `earlier`, if the completion tells how the run ends.  They are nested,
every completion among them carries over to that of the run, and so it is with every call. -/
structure Logs (c : Chain) (s : Session κ) (earlier : List LogEvent) (completion : Completion)
    (events : List LogEvent) : Prop where
  nested : Nested events
  carried : ∀ inside ending, .completed inside ending ∈ events → ending.Carries completion
  pairs : EveryPair (fun before => c.Bracket s (earlier ++ before)) events

theorem Logs.nil (c : Chain) (s : Session κ) (earlier : List LogEvent) (completion : Completion) :
    c.Logs s earlier completion [] :=
  ⟨.nil, nofun, everyPair_nil⟩

variable {earlier events rest : List LogEvent}

theorem Logs.onTopOf (h : c.Logs s [] completion events) (further : List Frame) :
    (c.onTopOf further).Logs s [] completion events :=
  ⟨h.nested, h.carried, h.pairs.imp fun _ _ _ _ _ hpair =>
    ⟨hpair.carries, fun value hvalue => (hpair.resumes value hvalue).onTopOf further⟩⟩

theorem Logs.after (h : c'.Logs s' [] completion events) (hreach : Reaches c s c' s')
    (hlog : s'.log.toList = s.log.toList ++ earlier) : c.Logs s earlier completion events :=
  ⟨h.nested, h.carried, h.pairs.imp fun _ _ _ _ _ hpair =>
    ⟨hpair.carries, fun value hvalue => (hpair.resumes value hvalue).after hreach hlog⟩⟩

theorem Logs.declared {parent : String} {lines labels : Nat}
    (h : c.Logs s [.loaded name lines labels, .declared parent name] completion rest) :
    c.Logs s [] completion (.loaded name lines labels :: .declared parent name :: rest) := by
  refine ⟨.declared _ _ _ _ h.nested, ?_, everyPair_declared h.pairs⟩
  intro inside ending hmem
  simp only [List.mem_cons, reduceCtorEq, false_or] at hmem
  exact h.carried inside ending hmem

/-- **The log of a call and of what comes after it**, from what the subroutine adds and from what
its caller adds behind it. -/
theorem Logs.call {ending : Completion}
    (hinner : c.Logs s [.invoking name accumulator] ending inner)
    (hresumes : ∀ value, ending = .returned value →
      c.Resumes s [] name accumulator inner value)
    (hcarries : ending.Carries completion)
    (hrest : c.Logs s (.invoking name accumulator :: (inner ++ [.completed name ending]))
      completion rest) :
    c.Logs s [] completion
      (.invoking name accumulator :: (inner ++ .completed name ending :: rest)) := by
  refine ⟨.call _ _ _ hinner.nested hrest.nested, ?_,
    everyPair_call hinner.nested ⟨hinner.carried, hresumes⟩ hinner.pairs ?_⟩
  · intro inside ending' hmem
    simp only [List.mem_cons, List.mem_append, reduceCtorEq, false_or,
      LogEvent.completed.injEq] at hmem
    rcases hmem with hmem | ⟨rfl, rfl⟩ | hmem
    · exact (hinner.carried inside ending' hmem).trans hcarries
    · exact hcarries
    · exact hrest.carried inside ending' hmem
  · refine hrest.pairs.imp fun _ _ _ _ _ hpair => ?_
    simpa only [List.cons_append, List.append_assoc, List.nil_append] using hpair

/-- The log of a machine that makes a call with its first step, from the log of the subroutine by
itself. -/
theorem logs_of_call {m callee left : Machine} {s₁ s₂ : Session κ} {fuel : Nat} {ending : Ending}
    (hs : step ⟨m, []⟩ s = (.running ⟨callee, [⟨m, name⟩]⟩, s₁))
    (hinvoking : s₁.log.toList = s.log.toList ++ [.invoking name m.accumulator])
    (hrun : runFor fuel ⟨callee, []⟩ s₁ = some (ending, left, s₂))
    (hinner : s₂.log.toList = s₁.log.toList ++ inner)
    (hinside : Logs ⟨callee, []⟩ s₁ [] (ending.completion left) inner)
    (hcarries : (ending.completion left).Carries completion)
    (hrest : Logs ⟨m, []⟩ s
      (.invoking name m.accumulator :: (inner ++ [.completed name (ending.completion left)]))
      completion rest) :
    Logs ⟨m, []⟩ s [] completion (.invoking name m.accumulator ::
      (inner ++ .completed name (ending.completion left) :: rest)) := by
  have hcalled := (hinside.onTopOf [⟨m, name⟩]).after (.tail .refl hs) hinvoking
  refine hcalled.call ?_ hcarries hrest
  cases ending with
  | returned =>
      rintro value ⟨⟩
      exact (resumes_of_call hs hinvoking hrun hinner).1
  | _ => exact nofun

/-- **The log of a chain that comes to its end.** -/
theorem logs_of_runFor {fuel : Nat} {m m' : Machine} {ending : Ending}
    (h : runFor fuel ⟨m, []⟩ s = some (ending, m', s')) :
    ∃ events, Logs ⟨m, []⟩ s [] (ending.completion m') events ∧
      s'.log.toList = s.log.toList ++ events := by
  -- Of the steps that are left, the subroutine gets some and its caller the others.
  induction fuel using Nat.strongRecOn generalizing m s ending m' s' with
  | _ fuel ih =>
      obtain _ | fuel := fuel
      · cases h
      rw [runFor_succ] at h
      obtain ⟨events, hlogged, hlog⟩ := m.logged_step s
      rcases hs : step ⟨m, []⟩ s with ⟨progress, s₁⟩
      rw [hs] at h hlogged hlog
      cases hlogged with
      | ended ending m₁ =>
          cases h
          exact ⟨[], .nil _ _ _ _, hlog⟩
      | quiet n =>
          obtain ⟨events, hlogs, hlog'⟩ := ih fuel (Nat.lt_succ_self _) h
          refine ⟨events, hlogs.after (.tail .refl hs) hlog, ?_⟩
          rw [hlog', hlog, List.append_nil]
      | declared n name lines labels =>
          obtain ⟨events, hlogs, hlog'⟩ := ih fuel (Nat.lt_succ_self _) h
          refine ⟨_, (hlogs.after (.tail .refl hs) hlog).declared, ?_⟩
          rw [hlog', hlog, List.append_assoc]
          rfl
      | invoking name callee =>
          obtain ⟨ending', left, s₂, k, hcallee, hk, hrun⟩ := runFor_call h
          obtain ⟨inner, hinside, hinner⟩ := ih fuel (Nat.lt_succ_self _) hcallee
          have hnoted : (s₂.note (.completed name (ending'.completion left))).log.toList =
              s.log.toList ++ .invoking name m.accumulator ::
                (inner ++ [.completed name (ending'.completion left)]) := by
            rw [Session.log_note, hinner, hlog]
            simp only [List.append_assoc, List.cons_append, List.nil_append]
          -- What the caller adds behind the call, if it goes on at all.
          obtain ⟨rest, hcarries, hrest, hbehind⟩ : ∃ rest,
              (ending'.completion left).Carries (ending.completion m') ∧
              Logs ⟨m, []⟩ s (.invoking name m.accumulator ::
                (inner ++ [.completed name (ending'.completion left)]))
                (ending.completion m') rest ∧
              s'.log.toList =
                (s₂.note (.completed name (ending'.completion left))).log.toList ++ rest := by
            have hnothing := (List.append_nil
              (s₂.note (.completed name (ending'.completion left))).log.toList).symm
            rw [deliver_single] at hrun
            cases ending' with
            | returned =>
                obtain ⟨-, hreach⟩ := resumes_of_call hs hlog hcallee hinner
                obtain ⟨rest, hlogs, hbehind⟩ := ih k (Nat.lt_succ_of_lt hk) hrun
                exact ⟨rest, Completion.returned_carries _ _, hlogs.after hreach hnoted, hbehind⟩
            | halted =>
                cases hrun
                exact ⟨[], ⟨fun _ => rfl, nofun⟩, .nil _ _ _ _, hnothing⟩
            | failed failure =>
                cases hrun
                exact ⟨[], ⟨nofun, fun _ => rfl⟩, .nil _ _ _ _, hnothing⟩
            | finished =>
                cases hrun
                exact ⟨[], ⟨nofun, fun _ => rfl⟩, .nil _ _ _ _, hnothing⟩
          refine ⟨_, logs_of_call hs hlog hcallee hinner hinside hcarries hrest, ?_⟩
          rw [hbehind, hnoted]
          simp only [List.append_assoc, List.cons_append, List.nil_append]

end Chain

/-! ### Whole runs -/

omit [Console κ] in
/-- A sheet that is written is noted, also if the file refuses it. -/
theorem Session.log_writeSheet (s : Session κ) :
    ∃ closing, s.writeSheet.2.log.toList = s.log.toList ++ closing ∧
      (closing = [] ∨ closing = [.writingSheet s.tracer.path]) := by
  unfold writeSheet
  split
  · exact ⟨[], (List.append_nil _).symm, Or.inl rfl⟩
  · exact ⟨[], (List.append_nil _).symm, Or.inl rfl⟩
  · refine ⟨_, ?_, Or.inr rfl⟩
    dsimp only
    split <;> exact s.log_note _

namespace Machine

omit [Console κ] in
/-- Closing a run notes at most that the sheet is written. -/
theorem log_close (m : Machine) (s : Session κ) (ending : Ending) :
    ∃ closing, (m.close s ending).2.log.toList = s.log.toList ++ closing ∧
      (closing = [] ∨ closing = [.writingSheet s.tracer.path]) := by
  obtain ⟨closing, hlog, hclosing⟩ := s.log_writeSheet
  have hnothing : s.log.toList = s.log.toList ++ [] := (List.append_nil _).symm
  unfold close
  split
  · split
    · rcases hw : s.writeSheet with ⟨fault | _, s'⟩ <;> rw [hw] at hlog
      · exact ⟨closing, hlog, hclosing⟩
      · exact ⟨closing, hlog, hclosing⟩
    · exact ⟨[], hnothing, Or.inl rfl⟩
  · exact ⟨[], hnothing, Or.inl rfl⟩

/-- **Every call that a run begins is noted** in the log that the run leaves. -/
theorem invoking_noted {fuel : Nat} {m m' caller callee : Machine} {s s' s₀ s₁ : Session κ}
    {ending' : Ending} (h : m.run fuel s = some (ending', m', s')) {callers : List Frame}
    {name : String} (hreach : Chain.Reaches (Chain.start m) s ⟨caller, callers⟩ s₀)
    (hcall : Chain.step ⟨caller, callers⟩ s₀ =
      (.running ⟨callee, ⟨caller, name⟩ :: callers⟩, s₁)) :
    ∃ before after, s₀.log.toList = s.log.toList ++ before ∧
      s'.log.toList = s.log.toList ++ (before ++ .invoking name caller.accumulator :: after) := by
  obtain ⟨c, t, ending, t', hlast, hstop, hclose⟩ := run_eq_some_iff.1 ⟨fuel, h⟩
  obtain ⟨before, hbefore⟩ := hreach.log
  -- After the call, the run goes on to its last step, and is closed.
  obtain ⟨inside, hinside⟩ := (hlast.last hstop (hreach.tail hcall)).log
  obtain ⟨events, hevents⟩ := c.log_step t
  obtain ⟨closing, hclosing, -⟩ := m'.log_close t' ending
  rw [hstop] at hevents
  rw [hclose] at hclosing
  refine ⟨before, inside ++ events ++ closing, hbefore, ?_⟩
  rw [hclosing, hevents, hinside, Chain.log_of_call hcall, hbefore]
  simp only [List.append_assoc, List.cons_append, List.nil_append]

/-- **The log of a run brackets the calls.**  Whatever a run ends with, what it adds to the log is
nested, up to the note that the sheet is written: every subroutine that is invoked is completed, and
in between there are whole calls.  Every declaration stands right behind the loading of its program.
A call that is completed by a halt, or by a failure or without a return, lets every call around it
be completed by a halt, or by a failure.  A call that is completed by a return hands its caller the
value that is noted, and with this value in its accumulator the caller comes to its next line.  No
call of the run is missing. -/
theorem run_log {fuel : Nat} {m m' : Machine} {s s' : Session κ} {ending' : Ending}
    (h : m.run fuel s = some (ending', m', s')) :
    ∃ events closing, s'.log.toList = s.log.toList ++ (events ++ closing) ∧
      (closing = [] ∨ ∃ path, closing = [.writingSheet path]) ∧ Nested events ∧
      (∀ before parent name after, events = before ++ .declared parent name :: after →
        ∃ earlier lines labels, before = earlier ++ [.loaded name lines labels]) ∧
      EveryPair ((Chain.start m).Bracket s) events ∧
      ∀ caller callers name callee s₀ s₁,
        Chain.Reaches (Chain.start m) s ⟨caller, callers⟩ s₀ →
        Chain.step ⟨caller, callers⟩ s₀ = (.running ⟨callee, ⟨caller, name⟩ :: callers⟩, s₁) →
        ∃ before after, s₀.log.toList = s.log.toList ++ before ∧
          events = before ++ .invoking name caller.accumulator :: after := by
  obtain ⟨ending, s₁, hrun, hclose⟩ := run_iff_runFor.1 h
  obtain ⟨events, hlogs, hlog⟩ := Chain.logs_of_runFor hrun
  obtain ⟨closing, hclosing, hsheet⟩ := m'.log_close s₁ ending
  rw [hclose, hlog, List.append_assoc] at hclosing
  refine ⟨events, closing, hclosing, hsheet.imp_right fun hpath => ⟨_, hpath⟩, hlogs.nested, ?_,
    hlogs.pairs, ?_⟩
  · intro before parent name after hevents
    exact hlogs.nested.loaded_before hevents
  · intro caller callers name callee s₀ s₂ hreach hcall
    obtain ⟨before, after, hbefore, hnoted⟩ := invoking_noted h hreach hcall
    rw [hclosing] at hnoted
    rcases append_eq_append_cons (List.append_cancel_left hnoted) with
      ⟨mid, hevents, -⟩ | ⟨mid, -, hclosing'⟩
    · exact ⟨before, mid, hbefore, hevents⟩
    · -- The closing note is not about a call.
      rcases hsheet with rfl | rfl
      · exact absurd hclosing' (nil_ne_append_cons _ _ _)
      · rcases mid with _ | ⟨_, mid⟩
        · cases hclosing'
        · exact absurd (List.cons.inj hclosing').2 (nil_ne_append_cons _ _ _)

/-- A root that calls a subroutine that returns, and then one that calls a subroutine that halts. -/
def doorkeeper : Machine :=
  ofProgram (.ofLines "root" ["INC five", "RUN five", "INC door", "RUN door", "OUT"])

/-- A session with the subroutines of the root. -/
def doors : Session Buffer :=
  .inMemory [("five", "LOAD 5\nRET"), ("door", "INC stop\nRUN stop\nRET"), ("stop", "HALT")] []

/-- The log of this root when it has halted: all calls are completed, the last two by the halt, and
after the first one the root goes on with the value that was returned. -/
theorem run_log_doorkeeper :
    ∃ m' s', doorkeeper.run 20 doors = some (.halted, m', s') ∧
      s'.log.toList =
        [.loaded "five" 2 0, .declared "root" "five", .invoking "five" 0,
          .completed "five" (.returned 5), .loaded "door" 3 0, .declared "root" "door",
          .invoking "door" 5, .loaded "stop" 1 0, .declared "door" "stop", .invoking "stop" 5,
          .completed "stop" .halted, .completed "door" .halted] ∧
      Nested s'.log.toList ∧
      (Chain.start doorkeeper).Resumes doors [.loaded "five" 2 0, .declared "root" "five"] "five" 0
        [] 5 := by
  have hrun : (doorkeeper.run 20 doors).map (fun answer =>
      (answer.1.isHalted, answer.2.2.log.toList)) = some (true,
        [.loaded "five" 2 0, .declared "root" "five", .invoking "five" 0,
          .completed "five" (.returned 5), .loaded "door" 3 0, .declared "root" "door",
          .invoking "door" 5, .loaded "stop" 1 0, .declared "door" "stop", .invoking "stop" 5,
          .completed "stop" .halted, .completed "door" .halted]) := by decide +kernel
  obtain ⟨⟨ending, m', s'⟩, h, hanswer⟩ := Option.map_eq_some_iff.1 hrun
  simp only [Prod.mk.injEq] at hanswer
  obtain ⟨hhalted, hlog⟩ := hanswer
  obtain rfl := Ending.eq_of_isHalted hhalted
  obtain ⟨events, closing, hevents, hclosing, hnested, -, hpairs, -⟩ := run_log h
  -- No sheet is written, since the last note is the completion of a call.
  obtain rfl : closing = [] := by
    rcases hclosing with rfl | ⟨path, rfl⟩
    · rfl
    · have hlast := congrArg List.getLast? hevents
      rw [hlog] at hlast
      simp at hlast
  obtain rfl : events = s'.log.toList := by
    rw [hevents]
    exact (List.append_nil events).symm
  exact ⟨m', s', h, hlog, hnested, (hpairs _ _ _ _ _ _ hlog .nil).resumes 5 rfl⟩

end Machine

end AccMachine
