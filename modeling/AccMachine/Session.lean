/-
**Sessions.**

A session is what all machines of a run have in common: the place programs are read from, the
files, the console, the trace and the log.  Machines reach it only through dialogues.  The console
may be of any kind.  A session is a host in memory; what a host does with a dialogue is written out
for sessions once more, since that is the form which proofs open.

Main definitions:

* `Shelf` — where source texts are looked for;
* `Session` — shelf, files, console, tracer and log;
* `Session.emit`, `Session.readLine`, `Session.load`, `Session.trace`, `Session.note`,
  `Session.writeSheet` — the single services;
* `Session.perform` — holds a dialogue.

Main results:

* `Session.hold_run` — **a session holds a dialogue as every host does**;
* `Session.perform_bind` — dialogues held one after another are held one after another;
* `Session.perform_keeps` — what every service keeps, every dialogue keeps.
-/

import AccMachine.Console
import AccMachine.FileTree
import AccMachine.Host

set_option relaxedAutoImplicit false
set_option autoImplicit false

namespace AccMachine

/-- Where the source text of a reference is looked for. -/
inductive Shelf where
  /-- In a table of texts, under exactly the reference. -/
  | texts (table : Table String)
  /-- In the files, the reference being a path. -/
  | files

/-- What all machines of a run have in common, with a console of the kind `κ`. -/
structure Session (κ : Type) where
  shelf : Shelf
  files : FileTree := FileTree.empty
  console : κ
  tracer : Tracer := default
  log : Array LogEvent := #[]

namespace Session

variable {κ : Type}

/-! ### The single services -/

/-- Notes an event. -/
def note (s : Session κ) (event : LogEvent) : Session κ := { s with log := s.log.push event }

/-- Notes events in order. -/
def noteAll (s : Session κ) (events : List LogEvent) : Session κ := events.foldl note s

/-- The source text under a reference. -/
def source (s : Session κ) (reference : String) : Except DeviceFault String :=
  match s.shelf with
  | .files => s.files.read reference
  | .texts table =>
    match table.find? reference with
    | some text => .ok text
    | none => .error (.noSource reference)

/-- The program under a reference; that it was loaded is noted. -/
def load (s : Session κ) (reference : String) : Except DeviceFault Program × Session κ :=
  match s.source reference with
  | .error fault => (.error fault, s)
  | .ok text =>
    let program := Program.ofLines reference (Source.lines text)
    (.ok program, s.note (.loaded reference program.size program.labels.size))

/-- Shows an output on the console. -/
def emit [Console κ] (s : Session κ) (output : Output) : Except DeviceFault Unit × Session κ :=
  let ⟨shelf, files, console, tracer, log⟩ := s
  let (answer, console) := Console.emit console output
  (answer, ⟨shelf, files, console, tracer, log⟩)

/-- Hands out the next line of input. -/
def readLine [Console κ] (s : Session κ) : Except DeviceFault (Option String) × Session κ :=
  let ⟨shelf, files, console, tracer, log⟩ := s
  let (answer, console) := Console.read console
  (answer, ⟨shelf, files, console, tracer, log⟩)

/-- Records a line that is about to be executed, as the mode says. -/
def trace [Console κ] (s : Session κ) (words : List String) (accumulator : Int64) :
    Except DeviceFault Unit × Session κ :=
  match s.tracer.mode with
  | .off => (.ok (), s)
  | .debug => s.emit (.trace (traceEntry words accumulator))
  | .dryRun =>
    (.ok (), { s with tracer := s.tracer.append (traceEntry words accumulator) })

/-- Writes the sheet to its file in a dry run, and does nothing in the other modes. -/
def writeSheet (s : Session κ) : Except DeviceFault Unit × Session κ :=
  match s.tracer.mode with
  | .off | .debug => (.ok (), s)
  | .dryRun =>
    let noted := s.note (.writingSheet s.tracer.path)
    match noted.files.write s.tracer.path s.tracer.sheet with
    | .error fault => (.error fault, noted)
    | .ok files => (.ok (), { noted with files := files })

/-- Writes a text to the file of a path. -/
def save (s : Session κ) (path text : String) : Except DeviceFault Unit × Session κ :=
  match s.files.write path text with
  | .error fault => (.error fault, s)
  | .ok files => (.ok (), { s with files := files })

instance [Console κ] : Host (StateT (Session κ) Id) where
  emit output s := s.emit output
  readLine s := s.readLine
  source reference s := (s.source reference, s)
  save path text s := s.save path text
  tracer s := (s.tracer, s)
  collect entry s := ((), { s with tracer := s.tracer.append entry })
  note event s := ((), s.note event)

/-! ### Dialogues -/

variable {α β : Type} [Console κ]

/-- Holds a dialogue: every turn is answered by the service it asks for, and a refusal ends the
dialogue with that fault. -/
def perform (s : Session κ) : Dialogue α → Except Cause α × Session κ
  | .done a => (.ok a, s)
  | .fail cause => (.error cause, s)
  | .trace words accumulator next =>
    match s.trace words accumulator with
    | (.error fault, s') => (.error (.device fault), s')
    | (.ok (), s') => s'.perform next
  | .emit output next =>
    match s.emit output with
    | (.error fault, s') => (.error (.device fault), s')
    | (.ok (), s') => s'.perform next
  | .read next =>
    match s.readLine with
    | (.error fault, s') => (.error (.device fault), s')
    | (.ok line, s') => s'.perform (next line)
  | .load reference next =>
    match s.load reference with
    | (.error fault, s') => (.error (.load reference fault), s')
    | (.ok program, s') => s'.perform (next program)
  | .note event next => (s.note event).perform next

/-! ### Sessions as hosts -/

omit [Console κ] in
/-- What follows an action goes on from where that leaves the session. -/
theorem bind_run {γ : Type} {x : StateM (Session κ) β} {f : β → StateM (Session κ) γ}
    {s s' : Session κ} {b : β} (h : x.run s = (b, s')) : (x >>= f).run s = (f b).run s' := by
  rw [StateT.run_bind, h]
  rfl

theorem source_run (s : Session κ) (reference : String) :
    (Host.source reference : StateM (Session κ) _).run s = (s.source reference, s) := rfl

theorem tracer_run (s : Session κ) :
    (Host.tracer : StateM (Session κ) _).run s = (s.tracer, s) := rfl

theorem emit_run (s : Session κ) (output : Output) :
    (Host.emit output : StateM (Session κ) _).run s = s.emit output := rfl

theorem readLine_run (s : Session κ) :
    (Host.readLine : StateM (Session κ) _).run s = s.readLine := rfl

theorem noteAll_run (s : Session κ) (events : List LogEvent) :
    (Host.noteAll events : StateM (Session κ) Unit).run s = ((), s.noteAll events) := by
  induction events generalizing s with
  | nil => rfl
  | cons event events ih => exact ih (s.note event)

theorem load_run (s : Session κ) (reference : String) :
    (Host.load reference : StateM (Session κ) _).run s = s.load reference := by
  rw [Host.load, bind_run (source_run s reference), load]
  cases s.source reference <;> rfl

theorem trace_run (s : Session κ) (words : List String) (accumulator : Int64) :
    (Host.trace words accumulator : StateM (Session κ) _).run s = s.trace words accumulator := by
  rw [Host.trace, bind_run (tracer_run s), trace]
  cases s.tracer.mode <;> rfl

theorem writeSheet_run (s : Session κ) :
    (Host.writeSheet : StateM (Session κ) _).run s = s.writeSheet := by
  rw [Host.writeSheet, bind_run (tracer_run s), writeSheet]
  cases s.tracer.mode <;> rfl

/-- **A session holds a dialogue as every host does.** -/
theorem hold_run (s : Session κ) (d : Dialogue α) :
    (d.hold : StateM (Session κ) _).run s = s.perform d := by
  induction d generalizing s with
  | done a => rfl
  | fail cause => rfl
  | trace words accumulator next ih =>
    rcases h : s.trace words accumulator with ⟨_ | _, s'⟩ <;>
      rw [Dialogue.hold, bind_run ((trace_run s words accumulator).trans h), perform, h]
    · rfl
    · exact ih s'
  | emit output next ih =>
    rcases h : s.emit output with ⟨_ | _, s'⟩ <;>
      rw [Dialogue.hold, bind_run ((emit_run s output).trans h), perform, h]
    · rfl
    · exact ih s'
  | read next ih =>
    rcases h : s.readLine with ⟨_ | line, s'⟩ <;>
      rw [Dialogue.hold, bind_run ((readLine_run s).trans h), perform, h]
    · rfl
    · exact ih line s'
  | load reference next ih =>
    rcases h : s.load reference with ⟨_ | program, s'⟩ <;>
      rw [Dialogue.hold, bind_run ((load_run s reference).trans h), perform, h]
    · rfl
    · exact ih program s'
  | note event next ih => exact ih (s.note event)

/-- Dialogues held one after another. -/
theorem perform_bind (s : Session κ) (d : Dialogue α) (k : α → Dialogue β) :
    s.perform (d.bind k) =
      match s.perform d with
      | (.ok a, s') => s'.perform (k a)
      | (.error cause, s') => (.error cause, s') := by
  induction d generalizing s with
  | done a => rfl
  | fail cause => rfl
  | trace words accumulator next ih =>
    simp only [Dialogue.bind, perform]
    rcases s.trace words accumulator with ⟨_ | _, s'⟩ <;> simp [ih]
  | emit output next ih =>
    simp only [Dialogue.bind, perform]
    rcases s.emit output with ⟨_ | _, s'⟩ <;> simp [ih]
  | read next ih =>
    simp only [Dialogue.bind, perform]
    rcases s.readLine with ⟨_ | line, s'⟩ <;> simp [ih]
  | load reference next ih =>
    simp only [Dialogue.bind, perform]
    rcases s.load reference with ⟨_ | program, s'⟩ <;> simp [ih]
  | note event next ih => simp only [Dialogue.bind, perform, ih]

/-- A relation between earlier and later sessions that every service keeps. -/
structure Kept (r : Session κ → Session κ → Prop) : Prop where
  refl : ∀ s, r s s
  trans : ∀ {a b c}, r a b → r b c → r a c
  emit : ∀ (s : Session κ) (output : Output), r s (s.emit output).2
  trace : ∀ (s : Session κ) (words : List String) (accumulator : Int64),
    r s (s.trace words accumulator).2
  readLine : ∀ s : Session κ, r s s.readLine.2
  load : ∀ (s : Session κ) (reference : String), r s (s.load reference).2
  note : ∀ (s : Session κ) (event : LogEvent), r s (s.note event)

/-- What every service keeps, every dialogue keeps. -/
theorem perform_keeps {r : Session κ → Session κ → Prop} (kept : Kept r) (s : Session κ)
    (d : Dialogue α) : r s (s.perform d).2 := by
  induction d generalizing s with
  | done a => exact kept.refl s
  | fail cause => exact kept.refl s
  | trace words accumulator next ih =>
    have hr := kept.trace s words accumulator
    simp only [perform]
    rcases hs : s.trace words accumulator with ⟨_ | _, s'⟩ <;> rw [hs] at hr
    · exact hr
    · exact kept.trans hr (ih s')
  | emit output next ih =>
    have hr := kept.emit s output
    simp only [perform]
    rcases hs : s.emit output with ⟨_ | _, s'⟩ <;> rw [hs] at hr
    · exact hr
    · exact kept.trans hr (ih s')
  | read next ih =>
    have hr := kept.readLine s
    simp only [perform]
    rcases hs : s.readLine with ⟨_ | line, s'⟩ <;> rw [hs] at hr
    · exact hr
    · exact kept.trans hr (ih line s')
  | load reference next ih =>
    have hr := kept.load s reference
    simp only [perform]
    rcases hs : s.load reference with ⟨_ | program, s'⟩ <;> rw [hs] at hr
    · exact hr
    · exact kept.trans hr (ih program s')
  | note event next ih => exact kept.trans (kept.note s event) (ih _)

end Session

end AccMachine
