/-
**Call chains.**

A machine that calls a subroutine waits until the subroutine comes to its end.  The machines that
wait and the one that is active form a chain.  When the active machine ends, its caller takes it
back and goes on, halts, or fails in turn, and so on outwards; a failure collects the location of
every machine on its way.

Main definitions:

* `Ending` — how a machine's run comes to its end;
* `Frame`, `Chain` — a waiting caller, and a whole chain;
* `Machine.conclude` — what the end of a subroutine means for its caller;
* `Chain.deliver` — carries an ending outwards along the callers;
* `Chain.proceed` — where a chain stands after a line;
* `Progress` — a chain that goes on, or a root that has ended.

Main results:

* `Chain.deliver_halted` — a halt goes through to the outermost machine.
-/

import AccMachine.Machine.Execute

set_option relaxedAutoImplicit false
set_option autoImplicit false

namespace AccMachine

/-- How the run of a machine comes to its end. -/
inductive Ending where
  /-- It ran past its last line. -/
  | finished
  | halted
  | returned
  | failed (failure : Failure)

/-- How an ending of a subroutine is noted. -/
def Ending.completion (callee : Machine) : Ending → Completion
  | finished => .lost
  | halted => .halted
  | returned => .returned callee.accumulator
  | failed _ => .failed

/-- What a call leads to in the caller. -/
inductive CallResult where
  | resumes
  | halts
  | fails (failure : Failure)

/-- The caller of a subroutine that has ended, and what the call leads to.  A subroutine that ran
out of lines has not returned, which is a failure of the caller. -/
def Machine.conclude (caller : Machine) (name : String) (callee : Machine) :
    Ending → Machine × CallResult
  | .returned => ((caller.adopt name callee).accumulate callee.accumulator, .resumes)
  | .halted => (caller.adopt name callee, .halts)
  | .failed failure => (caller.adopt name callee, .fails failure)
  | .finished => (caller.adopt name callee, .fails ⟨[], .missingReturn name⟩)

/-- A caller that waits on the line of its call, and the name of the subroutine it called. -/
structure Frame where
  caller : Machine
  callee : String

/-- A chain of calls: the active machine and the callers that wait, the innermost first. -/
structure Chain where
  active : Machine
  callers : List Frame

/-- What came of a line: a chain that goes on, or the outermost machine at its end. -/
inductive Progress where
  | running (chain : Chain)
  | ended (ending : Ending) (machine : Machine)

namespace Chain

/-- The chain of a machine that runs from its first line and was called by nobody. -/
def start (m : Machine) : Chain := ⟨m.goto 0, []⟩

/-- Carries the ending of a machine outwards along its callers, and lists the notes about the
subroutines that came to their end. -/
def deliver (ending : Ending) (m : Machine) : List Frame → Progress × List LogEvent
  | [] => (.ended ending m, [])
  | f :: callers =>
    let event := LogEvent.completed f.callee (ending.completion m)
    match f.caller.conclude f.callee m ending with
    | (caller, .resumes) => (.running ⟨caller.advance, callers⟩, [event])
    | (caller, .halts) =>
      let (progress, events) := deliver .halted caller callers
      (progress, event :: events)
    | (caller, .fails failure) =>
      let (progress, events) := deliver (.failed (failure.within caller.here)) caller callers
      (progress, event :: events)

/-- Where a chain stands when a line of the active machine came to the given result and left the
machine as it is now. -/
def proceed (c : Chain) : Except Cause Flow → Progress × List LogEvent
  | .error cause => deliver (.failed ⟨[c.active.here], cause⟩) c.active c.callers
  | .ok .next => (.running ⟨c.active.advance, c.callers⟩, [])
  | .ok (.jump target) => (.running ⟨c.active.goto target, c.callers⟩, [])
  | .ok (.call name callee) => (.running ⟨callee, ⟨c.active, name⟩ :: c.callers⟩, [])
  | .ok .ret => deliver .returned c.active c.callers
  | .ok .halt => deliver .halted c.active c.callers

/-- Where a chain stands when the active machine has no line left. -/
def runOut (c : Chain) : Progress × List LogEvent := deliver .finished c.active c.callers

/-- The outermost caller after a halt: every machine on the way takes its callee back. -/
def adoptAll (m : Machine) : List Frame → Machine
  | [] => m
  | f :: callers => adoptAll (f.caller.adopt f.callee m) callers

/-- A halt goes through to the outermost machine. -/
theorem deliver_halted (m : Machine) (callers : List Frame) :
    (deliver .halted m callers).1 = .ended .halted (adoptAll m callers) := by
  induction callers generalizing m with
  | nil => rfl
  | cons f callers ih =>
    simp only [deliver, Machine.conclude, adoptAll]
    exact ih _

end Chain

end AccMachine
