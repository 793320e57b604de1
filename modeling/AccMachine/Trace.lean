/-
**The trace.**

While a trace is kept, every line is recorded before it is executed, with the accumulator at that
moment.  In debug mode the entry is shown on the console; in a dry run it is collected in a sheet,
one line per entry, which is written to a file at the end.

Main definitions:

* `TraceMode` — no trace, on the console, or in the sheet;
* `TraceMode.ofFlags` — the mode that two switches select;
* `traceEntry` — the entry of a line;
* `Tracer` — mode, sheet, and where the sheet is written.
-/

import AccMachine.Decimal

set_option relaxedAutoImplicit false
set_option autoImplicit false

namespace AccMachine

/-- Where the trace goes. -/
inductive TraceMode where
  | off
  /-- Entries are shown on the console. -/
  | debug
  /-- Entries are collected in the sheet. -/
  | dryRun
  deriving DecidableEq, Repr

/-- The mode that the two switches select; debugging wins. -/
def TraceMode.ofFlags (debug dryRun : Bool) : TraceMode :=
  if debug then .debug else if dryRun then .dryRun else .off

/-- The entry of a line with these words, executed with this accumulator. -/
def traceEntry (words : List String) (accumulator : Int64) : String :=
  "Instruction: [" ++ " ".intercalate words ++ "] Accumulator: " ++ Decimal.render accumulator

/-- The mode, the sheet collected so far, and the path of its file. -/
structure Tracer where
  mode : TraceMode := .off
  sheet : String := ""
  path : String := "dryrun.txt"

namespace Tracer

instance : Inhabited Tracer := ⟨⟨.off, "", "dryrun.txt"⟩⟩

/-- Adds an entry to the sheet, on a line of its own. -/
def append (t : Tracer) (entry : String) : Tracer := { t with sheet := t.sheet ++ entry ++ "\n" }

/-- An entry is added at the end, and nothing else of the sheet changes. -/
theorem sheet_append (t : Tracer) (entry : String) :
    (t.append entry).sheet = t.sheet ++ (entry ++ "\n") := String.append_assoc

end Tracer

end AccMachine
