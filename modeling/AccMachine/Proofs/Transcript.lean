/-
**What consoles and sheets keep.**

A console may be of any kind, so what it was told can only be spoken of through a view of it.  A
transcript lists the outputs that were accepted.  A steady console refuses nothing, and the lines
that it hands out do not depend on what it was told.  A sheet keeps the entries of a trace, each on
a line of its own.

Main definitions:

* `sheetText` — entries as the lines of a sheet;
* `Console.Transcript` — a view of the outputs that a console has accepted;
* `Console.Steady` — a console that refuses nothing, with a view of the input that is left;
* `Buffer.steady` — the console in memory is steady;
* `Session.mapConsole` — a session with another console in place of its own.

Main results:

* `Session.emit_eq`, `Session.readLine_eq` — the services of the console change nothing else in a
  session;
* `Session.noteAll_mapConsole`, `Session.load_mapConsole`, `Session.writeSheet_mapConsole` — the
  other services do not depend on the console.
-/

import AccMachine.Console.Buffer
import AccMachine.Session

set_option relaxedAutoImplicit false
set_option autoImplicit false

namespace AccMachine

/-! ### Entries and sheets -/

/-- Entries as the lines of a sheet. -/
def sheetText (entries : List String) : String :=
  String.join (entries.map fun entry => entry ++ "\n")

@[simp] theorem sheetText_nil : sheetText [] = "" := rfl

@[simp] theorem sheetText_append (entries entries' : List String) :
    sheetText (entries ++ entries') = sheetText entries ++ sheetText entries' := by
  rw [sheetText, List.map_append, String.join_append]
  rfl

/-- An entry that is added to a sheet is one more of its lines. -/
theorem Tracer.append_eq (t : Tracer) (entry : String) :
    t.append entry = { t with sheet := t.sheet ++ sheetText [entry] } := by
  have hsheet : (t.append entry).sheet = t.sheet ++ sheetText [entry] := by
    rw [Tracer.sheet_append]
    simp [sheetText]
  rw [← hsheet]
  rfl

/-! ### Views of consoles -/

/-- A view of the outputs that a console has accepted, the oldest first. -/
structure Console.Transcript (κ : Type) [Console κ] where
  outputs : κ → List Output
  outputs_emit : ∀ (c : κ) (o : Output), (Console.emit c o).1 = .ok () →
    outputs (Console.emit c o).2 = outputs c ++ [o]
  outputs_read : ∀ c : κ, outputs (Console.read c).2 = outputs c

/-- A console that refuses nothing, with a view of the input that is left.  The input alone says
which line comes next, and taking an output leaves it alone. -/
structure Console.Steady (κ ι : Type) [Console κ] extends Console.Transcript κ where
  input : κ → ι
  next : ι → Option String × ι
  emit_ok : ∀ (c : κ) (o : Output), (Console.emit c o).1 = .ok ()
  input_emit : ∀ (c : κ) (o : Output), input (Console.emit c o).2 = input c
  read_eq : ∀ c : κ, (Console.read c).1 = .ok (next (input c)).1
  input_read : ∀ c : κ, input (Console.read c).2 = (next (input c)).2

theorem Console.Steady.outputs_append {κ ι : Type} [Console κ] (view : Console.Steady κ ι) (c : κ)
    (o : Output) : view.outputs (Console.emit c o).2 = view.outputs c ++ [o] :=
  view.outputs_emit c o (view.emit_ok c o)

/-- The console in memory is steady: its input is the list of the lines to come. -/
def Buffer.steady : Console.Steady Buffer (List String) where
  outputs := fun b => b.outputs.toList
  outputs_emit := fun b o _ => b.outputs_emit o
  outputs_read := by rintro ⟨_ | _, _⟩ <;> rfl
  input := fun b => b.input
  next := fun lines => (lines.head?, lines.tail)
  emit_ok := fun _ _ => rfl
  input_emit := fun _ _ => rfl
  read_eq := by rintro ⟨_ | _, _⟩ <;> rfl
  input_read := by rintro ⟨_ | _, _⟩ <;> rfl

namespace Session

variable {κ : Type} [Console κ]

/-! ### The services of the console -/

theorem emit_eq (s : Session κ) (output : Output) :
    s.emit output = ((Console.emit s.console output).1,
      { s with console := (Console.emit s.console output).2 }) := rfl

theorem readLine_eq (s : Session κ) :
    s.readLine = ((Console.read s.console).1,
      { s with console := (Console.read s.console).2 }) := rfl

/-! ### The services that need no console -/

/-- The session with another console in place of its own. -/
def mapConsole {κ κ' : Type} (f : κ → κ') (s : Session κ) : Session κ' where
  shelf := s.shelf
  files := s.files
  console := f s.console
  tracer := s.tracer
  log := s.log

section

variable {κ κ' : Type} (f : κ → κ') (s : Session κ)

theorem noteAll_mapConsole (events : List LogEvent) :
    (s.mapConsole f).noteAll events = (s.noteAll events).mapConsole f := by
  induction events generalizing s with
  | nil => rfl
  | cons event events ih => exact ih (s.note event)

theorem load_mapConsole (reference : String) :
    (s.mapConsole f).load reference =
      ((s.load reference).1, (s.load reference).2.mapConsole f) := by
  have hsource : (s.mapConsole f).source reference = s.source reference := rfl
  simp only [load, hsource]
  cases s.source reference <;> rfl

theorem writeSheet_mapConsole :
    (s.mapConsole f).writeSheet = (s.writeSheet.1, s.writeSheet.2.mapConsole f) := by
  obtain ⟨shelf, files, console, ⟨mode, sheet, path⟩, log⟩ := s
  cases mode with
  | off => rfl
  | debug => rfl
  | dryRun =>
      simp only [writeSheet, mapConsole, note]
      split <;> rfl

end

end Session

end AccMachine
