/-
**What a line adds to the log.**

Only two instructions leave notes.  A declaration that succeeds leaves two, that the program was
loaded and that the subroutine was declared, one right behind the other; a call leaves one, that the
subroutine is invoked.  A line that fails leaves none.  When a subroutine comes to its end, the step
notes that it is completed, after everything else.

Main definitions:

* `Machine.Noted` — what a line adds to the log, by its result;
* `Machine.Logged` — what a step of a machine by itself adds to the log.

Main results:

* `Session.log_perform` — a dialogue that loads nothing and notes nothing leaves the log as it is;
* `Machine.noted_line` — **what a line adds to the log**;
* `Machine.logged_step` — what a step of a machine by itself adds;
* `Chain.log_of_call` — **a step that begins a call notes it**.
-/

import AccMachine.Proofs.CallRuns
import AccMachine.Proofs.Turns

set_option relaxedAutoImplicit false
set_option autoImplicit false

namespace AccMachine

/-! ### The log of a session -/

namespace Session

variable {κ : Type}

theorem log_note (s : Session κ) (event : LogEvent) :
    (s.note event).log.toList = s.log.toList ++ [event] := Array.toList_push

theorem log_noteAll (s : Session κ) (events : List LogEvent) :
    (s.noteAll events).log.toList = s.log.toList ++ events := by
  induction events generalizing s with
  | nil => exact (List.append_nil _).symm
  | cons event events ih =>
      change ((s.note event).noteAll events).log.toList = _
      rw [ih, log_note, List.append_assoc]
      rfl

/-- A program that is loaded is noted; a source that is refused is not. -/
theorem log_load (s : Session κ) (reference : String) :
    (s.load reference).2.log.toList = s.log.toList ++
      match (s.load reference).1 with
      | .ok program => [.loaded reference program.size program.labels.size]
      | .error _ => [] := by
  unfold load
  cases s.source reference with
  | error fault => exact (List.append_nil _).symm
  | ok text => exact s.log_note _

variable [Console κ] {α : Type}

theorem log_trace (s : Session κ) (words : List String) (accumulator : Int64) :
    (s.trace words accumulator).2.log = s.log := by
  unfold trace
  split <;> rfl

/-- A dialogue that loads nothing and notes nothing leaves the log as it is. -/
theorem log_perform {T : Turn → Prop} {d : Dialogue α} (hd : d.Takes T)
    (hload : ∀ reference, ¬ T (.load reference)) (hnote : ∀ event, ¬ T (.note event))
    (s : Session κ) : (s.perform d).2.log = s.log := by
  induction d generalizing s with
  | done a => rfl
  | fail cause => rfl
  | trace words accumulator next ih =>
      have htrace := s.log_trace words accumulator
      simp only [perform]
      rcases hs : s.trace words accumulator with ⟨_ | _, s'⟩ <;> rw [hs] at htrace
      · exact htrace
      · exact (ih hd.2 s').trans htrace
  | emit output next ih =>
      have hemit : (s.emit output).2.log = s.log := rfl
      simp only [perform]
      rcases hs : s.emit output with ⟨_ | _, s'⟩ <;> rw [hs] at hemit
      · exact hemit
      · exact (ih hd.2 s').trans hemit
  | read next ih =>
      have hread : s.readLine.2.log = s.log := rfl
      simp only [perform]
      rcases hs : s.readLine with ⟨_ | line, s'⟩ <;> rw [hs] at hread
      · exact hread
      · exact (ih line (hd.2 line) s').trans hread
  | load reference next ih => exact absurd hd.1 (hload reference)
  | note event next ih => exact absurd hd.1 (hnote event)

end Session

namespace Machine

/-- Only a declaration loads a program. -/
theorem Turns.of_load {m : Machine} {operand reference : String} {mnemonic : Mnemonic}
    (h : m.Turns operand mnemonic (.load reference)) : mnemonic = .declare := by
  cases h
  rfl

/-- Only a declaration and a call leave notes. -/
theorem Turns.of_note {m : Machine} {operand : String} {mnemonic : Mnemonic} {event : LogEvent}
    (h : m.Turns operand mnemonic (.note event)) : mnemonic = .declare ∨ mnemonic = .run := by
  cases h with
  | declared => exact Or.inl rfl
  | invoking => exact Or.inr rfl

/-! ### The notes of a line -/

/-- `m.Noted result events`: the machine `m` came to the result on a line, and this left those notes
in the log. -/
inductive Noted (m : Machine) : Except Cause (Machine × Flow) → List LogEvent → Prop
  | silent {result : Except Cause (Machine × Flow)}
      (h : ∀ m' name callee, result ≠ .ok (m', .call name callee)) : Noted m result []
  | declared (m' : Machine) (name : String) (lines labels : Nat) :
      Noted m (.ok (m', .next))
        [.loaded name lines labels, .declared m.program.reference name]
  | invoking (name : String) (callee : Machine) :
      Noted m (.ok (m, .call name callee)) [.invoking name m.accumulator]

theorem Noted.failed (m : Machine) (cause : Cause) : m.Noted (.error cause) [] :=
  .silent fun _ _ _ h => by cases h

theorem Noted.next (m m' : Machine) : m.Noted (.ok (m', .next)) [] :=
  .silent fun _ _ _ h => by cases h

variable {κ : Type} [Console κ]

/-- A declaration notes that the program was loaded, and then that the subroutine is declared. -/
theorem noted_declare (m : Machine) (name : String) (s : Session κ) :
    ∃ events, m.Noted (s.perform (m.declareSubroutine name)).1 events ∧
      (s.perform (m.declareSubroutine name)).2.log.toList = s.log.toList ++ events := by
  have hload := s.log_load name
  simp only [declareSubroutine_def, Dialogue.bind_eq, Dialogue.fetch_bind, Dialogue.log_bind,
    Session.perform]
  rcases hs : s.load name with ⟨fault | program, s'⟩ <;> rw [hs] at hload
  · exact ⟨[], .failed m _, hload⟩
  · refine ⟨_, .declared _ name program.size program.labels.size, ?_⟩
    change (s'.note (.declared m.program.reference name)).log.toList = _
    rw [Session.log_note, hload, List.append_assoc]
    rfl

/-- A call notes that the subroutine is invoked, if it was declared. -/
theorem noted_call (m : Machine) (name : String) (s : Session κ) :
    ∃ events, m.Noted (s.perform (m.callSubroutine name)).1 events ∧
      (s.perform (m.callSubroutine name)).2.log.toList = s.log.toList ++ events := by
  rw [callSubroutine_def]
  cases m.subroutines.find? name with
  | none => exact ⟨[], .failed m _, (List.append_nil _).symm⟩
  | some callee => exact ⟨_, .invoking name _, s.log_note _⟩

/-- Every instruction leaves such notes. -/
theorem noted_execute (m : Machine) (mnemonic : Mnemonic) (operand : String) (s : Session κ) :
    ∃ events, m.Noted (s.perform (m.execute mnemonic operand)).1 events ∧
      (s.perform (m.execute mnemonic operand)).2.log.toList = s.log.toList ++ events := by
  by_cases hdeclare : mnemonic = .declare
  · subst hdeclare
    exact m.noted_declare operand s
  · by_cases hrun : mnemonic = .run
    · subst hrun
      exact m.noted_call operand s
    · have hlog : (s.perform (m.execute mnemonic operand)).2.log = s.log :=
        Session.log_perform (m.execute_takes operand mnemonic) (fun _ ht => hdeclare ht.of_load)
          (fun _ ht => ht.of_note.elim hdeclare hrun) s
      refine ⟨[], .silent ?_, by rw [hlog, List.append_nil]⟩
      intro m' name callee hresult
      -- Only the instruction for it calls.
      have heffect := Session.perform_yields (m.execute_yields mnemonic operand)
        (Prod.ext hresult rfl)
      exact hrun heffect.of_call.1

/-- **What a line adds to the log.** -/
theorem noted_line (m : Machine) (text : String) (s : Session κ) :
    ∃ events, m.Noted (s.perform (m.line text)).1 events ∧
      (s.perform (m.line text)).2.log.toList = s.log.toList ++ events := by
  have hnothing : ∀ {result : Except Cause (Machine × Flow)} (s : Session κ),
      m.Noted result [] → ∃ events, m.Noted result events ∧ s.log.toList = s.log.toList ++ events :=
    fun s h => ⟨[], h, (List.append_nil _).symm⟩
  have hobeyed : ∀ s : Session κ, ∃ events,
      m.Noted (s.perform (m.obeyWords (Text.wordsOf text))).1 events ∧
        (s.perform (m.obeyWords (Text.wordsOf text))).2.log.toList = s.log.toList ++ events := by
    intro s
    rw [obeyWords_def]
    split
    · exact hnothing s (.failed m _)
    · exact hnothing s (.next m m)
    · exact hnothing s (.next m m)
    · rw [obey_def]
      split
      · exact m.noted_execute _ _ s
      · split
        · exact hnothing s (.failed m _)
        · exact m.noted_execute _ _ s
  have htrace := s.log_trace (Text.wordsOf text) m.accumulator
  simp only [line_def, Session.perform]
  rcases hs : s.trace (Text.wordsOf text) m.accumulator with ⟨fault | _, s'⟩ <;> rw [hs] at htrace
  · rw [← htrace]
    exact hnothing s' (.failed m _)
  · rw [← htrace]
    exact hobeyed s'

/-! ### The notes of a step -/

/-- `m.Logged progress events`: a step of the machine `m`, by itself, came to the progress and left
those notes. -/
inductive Logged (m : Machine) : Progress → List LogEvent → Prop
  | quiet (n : Machine) : Logged m (.running ⟨n, []⟩) []
  | declared (n : Machine) (name : String) (lines labels : Nat) :
      Logged m (.running ⟨n, []⟩)
        [.loaded name lines labels, .declared m.program.reference name]
  | invoking (name : String) (callee : Machine) :
      Logged m (.running ⟨callee, [⟨m, name⟩]⟩) [.invoking name m.accumulator]
  | ended (ending : Ending) (n : Machine) : Logged m (.ended ending n) []

/-- **What a step of a machine by itself adds to the log.** -/
theorem logged_step (m : Machine) (s : Session κ) :
    ∃ events, m.Logged ((Chain.mk m []).step s).1 events ∧
      ((Chain.mk m []).step s).2.log.toList = s.log.toList ++ events := by
  cases ht : m.currentLine? with
  | none =>
      rw [Chain.step_of_none (c := ⟨m, []⟩) ht]
      exact ⟨[], .ended .finished m, (List.append_nil _).symm⟩
  | some text =>
      obtain ⟨events, hnoted, hlog⟩ := m.noted_line text s
      rcases hp : s.perform (m.line text) with ⟨result, s'⟩
      rw [hp] at hnoted hlog
      rw [Chain.step_of_line (c := ⟨m, []⟩) ht hp]
      cases hnoted with
      | declared m' name lines labels => exact ⟨_, .declared _ name lines labels, hlog⟩
      | invoking name callee => exact ⟨_, .invoking name callee, hlog⟩
      | silent hcall =>
          -- Nobody waits for the machine, so no completion is noted.
          have hnothing : (Chain.settle ⟨m, []⟩ result).2 = [] := by
            rcases result with cause | ⟨m', _ | _ | _ | _ | _⟩ <;> rfl
          refine ⟨[], ?_, by rw [hnothing]; exact hlog⟩
          rcases result with cause | ⟨m', flow⟩
          · exact .ended _ m
          · cases flow with
            | next => exact .quiet _
            | jump target => exact .quiet _
            | call name callee => exact absurd rfl (hcall m' name callee)
            | ret => exact .ended .returned m'
            | halt => exact .ended .halted m'

end Machine

namespace Chain

variable {κ : Type} [Console κ]

/-- A step only adds to the log. -/
theorem log_step (c : Chain) (s : Session κ) :
    ∃ events, (c.step s).2.log.toList = s.log.toList ++ events := by
  obtain ⟨events, -, hlog⟩ := c.active.logged_step s
  have hstep : c.step s = _ := step_onTopOf ⟨c.active, []⟩ c.callers s
  rw [hstep]
  rcases hs : (Chain.mk c.active []).step s with ⟨c₁ | ⟨ending, m⟩, s₁⟩ <;> rw [hs] at hlog
  · exact ⟨events, hlog⟩
  · refine ⟨events ++ (deliver ending m c.callers).2, ?_⟩
    rw [← List.append_assoc, ← hlog]
    exact s₁.log_noteAll _

/-- A run only adds to the log. -/
theorem Reaches.log {c c' : Chain} {s s' : Session κ} (h : Reaches c s c' s') :
    ∃ events, s'.log.toList = s.log.toList ++ events := by
  induction h with
  | refl => exact ⟨[], (List.append_nil _).symm⟩
  | @tail c₁ c₂ s₁ s₂ _ hs ih =>
      obtain ⟨events, hevents⟩ := ih
      obtain ⟨more, hmore⟩ := c₁.log_step s₁
      rw [hs, hevents, List.append_assoc] at hmore
      exact ⟨events ++ more, hmore⟩

/-- **A step that begins a call notes it.** -/
theorem log_of_call {caller callee : Machine} {callers : List Frame} {name : String}
    {s s' : Session κ}
    (hs : step ⟨caller, callers⟩ s = (.running ⟨callee, ⟨caller, name⟩ :: callers⟩, s')) :
    s'.log.toList = s.log.toList ++ [.invoking name caller.accumulator] := by
  have htop : (onTopOf ⟨caller, []⟩ callers).step s =
      (.running ⟨callee, ⟨caller, name⟩ :: callers⟩, s') := hs
  obtain ⟨⟨active, inner⟩, hc, halone⟩ := step_alone htop (Nat.le_succ _)
  obtain ⟨events, hlogged, hlog⟩ := caller.logged_step s
  rw [halone] at hlogged hlog
  -- The caller by itself has put exactly one caller on.
  have hinner : [⟨caller, name⟩] ++ callers = inner ++ callers := (Chain.mk.inj hc).2
  have hframe := List.append_cancel_right hinner
  cases hlogged with
  | quiet => cases hframe
  | declared => cases hframe
  | invoking =>
      cases hframe
      exact hlog

end Chain

end AccMachine
