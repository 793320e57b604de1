/-
**The log of a session.**

A session notes which programs are loaded, which subroutines are declared, invoked and completed,
and when the sheet is written.

Main definitions:

* `Completion` — how an invoked subroutine came to its end;
* `LogEvent` — one note;
* `LogEvent.level`, `LogEvent.fields` — how it is shown: its level and its named texts.
-/

import AccMachine.Decimal

set_option relaxedAutoImplicit false
set_option autoImplicit false

namespace AccMachine

/-- How an invoked subroutine came to its end. -/
inductive Completion where
  | returned (value : Int64)
  | halted
  | failed
  /-- It ran out of lines without returning. -/
  | lost
  deriving DecidableEq

/-- How a completion is shown. -/
def Completion.render : Completion → String
  | returned value => "Ok(Returned(" ++ Decimal.render value ++ "))"
  | halted => "Ok(Halted)"
  | failed => "Ok(Failed)"
  | lost => "Err(RecvError)"

/-- One note of a session. -/
inductive LogEvent where
  | loaded (program : String) (lines labels : Nat)
  | declared (parent subroutine : String)
  | invoking (subroutine : String) (accumulator : Int64)
  | completed (subroutine : String) (completion : Completion)
  | writingSheet (path : String)
  deriving DecidableEq

namespace LogEvent

/-- The level of a note. -/
def level : LogEvent → String
  | completed _ _ => "TRACE"
  | _ => "DEBUG"

/-- The named texts of a note. -/
def fields : LogEvent → List (String × String)
  | loaded program lines labels =>
    [("message", "loaded program"), ("program", program),
     ("lines", Decimal.renderNat lines), ("labels", Decimal.renderNat labels)]
  | declared parent subroutine =>
    [("message", "declared subroutine"), ("parent", parent), ("subroutine", subroutine)]
  | invoking subroutine accumulator =>
    [("message", "invoking subroutine"), ("subroutine", subroutine),
     ("accumulator", Decimal.render accumulator)]
  | completed subroutine completion =>
    [("message", "subroutine completed"), ("subroutine", subroutine),
     ("completion", completion.render)]
  | writingSheet path => [("message", "writing dry-run sheet"), ("path", path)]

end LogEvent

end AccMachine
