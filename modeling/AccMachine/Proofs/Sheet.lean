/-
**When the sheet is written.**

The sheet of a session is written to its file when a root halts, and at no other time.  Writing it
is noted first, so the log of a session tells how often that was.  A line of a machine notes only
declarations and the beginnings of calls, and carrying an ending outwards notes only completions.

Main definitions:

* `Dialogue.Notes` — every event that a dialogue notes has a property;
* `Session.flushes` — how often the sheet of a session was written;
* `Session.Unwritten` — the sheet was not written between two sessions, and no file has changed.

Main results:

* `Machine.line_notes` — what a line notes;
* `Chain.step_unwritten`, `Chain.Reaches.unwritten` — **the steps of a run do not write the sheet**;
* `Session.writeSheet_flushes` — writing the sheet writes it once, in a dry run.
-/

import AccMachine.Proofs.CallChain
import AccMachine.Proofs.Turns

set_option relaxedAutoImplicit false
set_option autoImplicit false

namespace AccMachine

/-! ### The notes of a dialogue -/

namespace Dialogue

variable {α : Type}

/-- `d.Notes P`: whatever the answers are, every event that the dialogue notes has `P`. -/
def Notes (P : LogEvent → Prop) : Dialogue α → Prop
  | done _ => True
  | fail _ => True
  | trace _ _ next => next.Notes P
  | emit _ next => next.Notes P
  | read next => ∀ line, (next line).Notes P
  | load _ next => ∀ program, (next program).Notes P
  | note event next => P event ∧ next.Notes P

/-- What a dialogue notes can be read off from its turns. -/
theorem Takes.notes {T : Turn → Prop} {P : LogEvent → Prop} {d : Dialogue α} (h : d.Takes T)
    (hnote : ∀ event, T (.note event) → P event) : d.Notes P := by
  induction d with
  | done a => trivial
  | fail cause => trivial
  | trace words accumulator next ih => exact ih h.2
  | emit output next ih => exact ih h.2
  | read next ih => exact fun line => ih line (h.2 line)
  | load reference next ih => exact fun program => ih program (h.2 program)
  | note event next ih => exact ⟨hnote event h.1, ih h.2⟩

end Dialogue

/-- The notes that a machine makes on a line: a declaration, and the beginning of a call. -/
def LogEvent.OfLine : LogEvent → Prop
  | declared _ _ => True
  | invoking _ _ => True
  | _ => False

namespace Machine

theorem Turns.ofLine {m : Machine} {operand : String} {mnemonic : Mnemonic} {event : LogEvent}
    (h : m.Turns operand mnemonic (.note event)) : event.OfLine := by
  cases h <;> trivial

/-- A line notes only a declaration or the beginning of a call. -/
theorem line_notes (m : Machine) (text : String) : (m.line text).Notes LogEvent.OfLine := by
  change (m.obeyWords (Text.wordsOf text)).Notes LogEvent.OfLine
  refine (m.obeyWords_takes _).notes fun event hturn => ?_
  cases hturn with
  | obey hd ho ht => exact ht.ofLine

end Machine

/-! ### Sessions whose sheet was not written -/

/-- Whether an event is the writing of the sheet. -/
def LogEvent.isFlush : LogEvent → Bool
  | writingSheet _ => true
  | _ => false

namespace Session

variable {κ : Type}

/-- How often the sheet was written, or at least attempted to be. -/
def flushes (s : Session κ) : Nat := s.log.countP LogEvent.isFlush

/-- The sheet was not written between the two sessions: no file has changed, no writing was noted,
and the mode is the same. -/
structure Unwritten (s s' : Session κ) : Prop where
  files : s'.files = s.files
  flushes : s'.flushes = s.flushes
  mode : s'.tracer.mode = s.tracer.mode

theorem Unwritten.refl (s : Session κ) : Unwritten s s := ⟨rfl, rfl, rfl⟩

theorem Unwritten.trans {s₁ s₂ s₃ : Session κ} (h : Unwritten s₁ s₂) (h' : Unwritten s₂ s₃) :
    Unwritten s₁ s₃ :=
  ⟨h'.files.trans h.files, h'.flushes.trans h.flushes, h'.mode.trans h.mode⟩

theorem note_unwritten (s : Session κ) {event : LogEvent} (h : event.isFlush = false) :
    Unwritten s (s.note event) := by
  refine ⟨rfl, ?_, rfl⟩
  simp [note, flushes, h]

theorem noteAll_unwritten (s : Session κ) {events : List LogEvent}
    (h : ∀ event ∈ events, event.isFlush = false) : Unwritten s (s.noteAll events) := by
  induction events generalizing s with
  | nil => exact .refl s
  | cons event events ih =>
      obtain ⟨hevent, hevents⟩ := List.forall_mem_cons.1 h
      exact (s.note_unwritten hevent).trans (ih (s.note event) hevents)

theorem load_unwritten (s : Session κ) (reference : String) :
    Unwritten s (s.load reference).2 := by
  unfold load
  split
  · exact .refl s
  · exact s.note_unwritten rfl

/-- In a dry run the sheet is written once; in the other modes there is none to write. -/
theorem writeSheet_flushes (s : Session κ) :
    s.writeSheet.2.flushes = s.flushes + if s.tracer.mode = .dryRun then 1 else 0 := by
  have hnoted : (s.note (.writingSheet s.tracer.path)).flushes = s.flushes + 1 := by
    simp [note, flushes, Array.countP_push, LogEvent.isFlush]
  unfold writeSheet
  split
  · next hm => simp [hm]
  · next hm => simp [hm]
  · next hm =>
      rw [if_pos hm, ← hnoted]
      dsimp only
      split <;> rfl

variable [Console κ]

theorem emit_unwritten (s : Session κ) (output : Output) : Unwritten s (s.emit output).2 := by
  cases s
  exact ⟨rfl, rfl, rfl⟩

theorem readLine_unwritten (s : Session κ) : Unwritten s s.readLine.2 := by
  cases s
  exact ⟨rfl, rfl, rfl⟩

theorem trace_unwritten (s : Session κ) (words : List String) (accumulator : Int64) :
    Unwritten s (s.trace words accumulator).2 := by
  unfold trace
  split
  · exact .refl s
  · exact s.emit_unwritten _
  · exact ⟨rfl, rfl, rfl⟩

variable {α : Type}

/-- A dialogue that does not note the writing of the sheet does not write it. -/
theorem perform_unwritten {P : LogEvent → Prop} (hP : ∀ event, P event → event.isFlush = false)
    {d : Dialogue α} (hd : d.Notes P) (s : Session κ) : Unwritten s (s.perform d).2 := by
  induction d generalizing s with
  | done a => exact .refl s
  | fail cause => exact .refl s
  | trace words accumulator next ih =>
      have h := s.trace_unwritten words accumulator
      simp only [perform]
      split
      · next hs => rwa [hs] at h
      · next hs =>
          rw [hs] at h
          exact h.trans (ih hd _)
  | emit output next ih =>
      have h := s.emit_unwritten output
      simp only [perform]
      split
      · next hs => rwa [hs] at h
      · next hs =>
          rw [hs] at h
          exact h.trans (ih hd _)
  | read next ih =>
      have h := s.readLine_unwritten
      simp only [perform]
      split
      · next hs => rwa [hs] at h
      · next line _ hs =>
          rw [hs] at h
          exact h.trans (ih line (hd line) _)
  | load reference next ih =>
      have h := s.load_unwritten reference
      simp only [perform]
      split
      · next hs => rwa [hs] at h
      · next program _ hs =>
          rw [hs] at h
          exact h.trans (ih program (hd program) _)
  | note event next ih => exact (s.note_unwritten (hP event hd.1)).trans (ih hd.2 _)

end Session

/-- The notes of a line are not the writing of the sheet. -/
theorem LogEvent.OfLine.isFlush {event : LogEvent} (h : event.OfLine) : event.isFlush = false := by
  cases event with
  | declared _ _ => rfl
  | invoking _ _ => rfl
  | _ => cases h

namespace Chain

/-- Only completions are noted when an ending is carried outwards. -/
theorem deliver_isFlush (ending : Ending) (m : Machine) (callers : List Frame) :
    ∀ event ∈ (deliver ending m callers).2, event.isFlush = false := by
  induction callers generalizing ending m with
  | nil => exact nofun
  | cons f callers ih =>
      intro event he
      simp only [deliver] at he
      split at he
      · obtain rfl := List.mem_singleton.1 he
        rfl
      · rcases List.mem_cons.1 he with rfl | he
        · rfl
        · exact ih _ _ event he
      · rcases List.mem_cons.1 he with rfl | he
        · rfl
        · exact ih _ _ event he

theorem settle_isFlush (c : Chain) (result : Except Cause (Machine × Flow)) :
    ∀ event ∈ (c.settle result).2, event.isFlush = false := by
  rcases result with cause | ⟨m, flow⟩
  · exact deliver_isFlush _ _ _
  · cases flow with
    | ret => exact deliver_isFlush _ _ _
    | halt => exact deliver_isFlush _ _ _
    | _ => exact nofun

variable {κ : Type} [Console κ]

/-- **A step of a run does not write the sheet.** -/
theorem step_unwritten (c : Chain) (s : Session κ) : Session.Unwritten s (c.step s).2 := by
  cases ht : c.active.currentLine? with
  | none =>
      rw [step_of_none ht]
      exact s.noteAll_unwritten (deliver_isFlush _ _ _)
  | some text =>
      rw [step_of_line ht rfl]
      have hline := Session.perform_unwritten (fun _ => LogEvent.OfLine.isFlush)
        (c.active.line_notes text) s
      exact hline.trans (Session.noteAll_unwritten _ (c.settle_isFlush _))

/-- **The steps of a run do not write the sheet.** -/
theorem Reaches.unwritten {c c' : Chain} {s s' : Session κ} (h : Reaches c s c' s') :
    Session.Unwritten s s' := by
  induction h with
  | refl => exact .refl s
  | @tail c₁ c₂ s₁ s₂ _ hs ih =>
      have hstep := c₁.step_unwritten s₁
      rw [hs] at hstep
      exact ih.trans hstep

end Chain

end AccMachine
