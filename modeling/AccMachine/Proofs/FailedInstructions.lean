/-
**A failed instruction changes nothing.**

An instruction that fails leaves its machine as it was.  This is a matter of the order in which it
is carried out, since nothing is taken back: a warning that the console refuses, input that is no
number and a program that cannot be loaded all come before the first change.  The one exception is a
call, during which the subroutine ran; but only that subroutine has changed when the call fails or
halts, and when it returns, the accumulator too.

A single instruction can be dispatched outside of a run.  In a run the machine that a line belongs
to is what the dispatched instruction leaves, so the same holds there; and while a call goes on,
however deep, its caller and all machines beside the subroutine stand still.

Main definitions:

* `Machine.Keeps` — a machine is as before, but for its accumulator and one subroutine;
* `Machine.ComesTo` — a machine comes to a line with a certain instruction;
* `Machine.KeptInCall` — a machine stands still while a subroutine of it runs;
* `Chain.goOn`, `Chain.LeadsTo` — where a chain stands after an instruction of its active machine,
  and that a run gets there.

Main results:

* `Machine.dispatch_cases` — **what a dispatched instruction does**;
* `Machine.keeps_conclude` — a call that is over has changed the subroutine and the accumulator;
* `Machine.ComesTo.leadsTo` — **an instruction in a run does what it does when it is dispatched**;
* `Machine.ComesTo.keptInCall` — a machine that waits for a subroutine does not change;
* `Machine.dispatch_atomic` — **a failed instruction changes nothing**, wherever it stands.
-/

import AccMachine.Proofs.CallRuns
import AccMachine.Proofs.Halting
import AccMachine.Proofs.SynchronousCall

set_option relaxedAutoImplicit false
set_option autoImplicit false

namespace AccMachine

variable {κ : Type} [Console κ]

namespace Machine

/-! ### What stays as it was -/

/-- `m.Keeps called? m'`: but for its accumulator, the machine `m'` is as `m`.  It knows subroutines
by the same names, and they are the same, except for the one of the name `called?`. -/
structure Keeps (m : Machine) (called? : Option String) (m' : Machine) : Prop where
  program : m'.program = m.program
  storage : m'.storage = m.storage
  pc : m'.pc = m.pc
  parent : m'.parent = m.parent
  awaited : m'.awaited = m.awaited
  names : m'.subroutines.keys = m.subroutines.keys
  others : ∀ name, called? ≠ some name → m'.subroutines.find? name = m.subroutines.find? name

theorem Keeps.refl (m : Machine) (called? : Option String) : m.Keeps called? m :=
  ⟨rfl, rfl, rfl, rfl, rfl, rfl, fun _ _ => rfl⟩

/-- A caller that holds its subroutine in another state keeps all else. -/
theorem keeps_hold {m child : Machine} {name : String}
    (hc : m.subroutines.find? name = some child) (callee : Machine) :
    m.Keeps (some name) (m.hold name callee) := by
  refine ⟨rfl, rfl, rfl, rfl, rfl, ?_, ?_⟩
  · have hmem : name ∈ m.subroutines.keys := by
      refine Decidable.byContradiction fun hno => ?_
      rw [← Table.find?_eq_none_iff, hc] at hno
      cases hno
    rw [hold, Table.keys_put, if_pos hmem]
  · intro name' hne
    have hne' : name ≠ name' := fun h => hne (congrArg some h)
    exact Table.find?_put_of_ne _ hne' _

/-- **A call that is over has changed the subroutine and the accumulator**, and the accumulator only
if the subroutine returned. -/
theorem keeps_conclude {m child : Machine} {name : String}
    (hc : m.subroutines.find? name = some child) (callee : Machine) (ending : Ending) :
    m.Keeps (some name) (m.conclude name callee ending).1 ∧
      (flowOfCall (m.conclude name callee ending).2 ≠ .ok .next →
        (m.conclude name callee ending).1.accumulator = m.accumulator) := by
  have hadopt : m.Keeps (some name) (m.adopt name callee) := keeps_hold hc callee.released
  cases ending with
  | returned =>
      refine ⟨?_, fun h => absurd rfl h⟩
      exact ⟨hadopt.program, hadopt.storage, hadopt.pc, hadopt.parent, hadopt.awaited, hadopt.names,
        hadopt.others⟩
  | finished | halted | failed _ => exact ⟨hadopt, fun _ => rfl⟩

/-- After the call the subroutine is as its run has left it, and nobody waits for it. -/
theorem find?_conclude (m : Machine) (name : String) (callee : Machine) (ending : Ending) :
    (m.conclude name callee ending).1.subroutines.find? name = some callee.released := by
  cases ending <;> exact Table.find?_put_self _ _ _

/-! ### Dispatched instructions -/

variable {m m' : Machine} {fuel : Nat} {s s' : Session κ} {mnemonic : Mnemonic} {operand : String}
  {result : Except Failure Flow}

/-- **What a dispatched instruction does.**  It fails and leaves the machine as it was; or it calls
a subroutine, which runs to its end; or it has one of the other effects. -/
theorem dispatch_cases (h : m.dispatch fuel s mnemonic operand = some (result, m', s')) :
    (∃ cause, s.perform (m.execute mnemonic operand) = (.error cause, s') ∧
      result = .error ⟨[], cause⟩ ∧ m' = m) ∨
    (∃ child ending callee s₁ s₂, mnemonic = .run ∧ m.subroutines.find? operand = some child ∧
      s.perform (m.execute .run operand) =
        (.ok (m, .call operand (child.invoked m.accumulator)), s₁) ∧
      (child.invoked m.accumulator).run fuel s₁ = some (ending, callee, s₂) ∧
      result = flowOfCall (m.conclude operand callee ending).2 ∧
      m' = (m.conclude operand callee ending).1 ∧
      s' = s₂.note (.completed operand (ending.completion callee))) ∨
    ∃ flow, s.perform (m.execute mnemonic operand) = (.ok (m', flow), s') ∧ result = .ok flow ∧
      mnemonic ≠ .run := by
  rw [dispatch_def] at h
  split at h
  · next cause s₁ hp =>
      cases h
      exact Or.inl ⟨cause, hp, rfl, rfl⟩
  · next m₁ name callee s₁ hp =>
      have heffect : Effect m operand mnemonic m₁ (.call name callee) :=
        Session.perform_yields (m.execute_yields mnemonic operand) hp
      obtain ⟨rfl, rfl, rfl, child, hc, rfl⟩ := heffect.of_call
      split at h
      · cases h
      · next ending callee s₂ hr =>
          cases h
          exact Or.inr (Or.inl ⟨child, ending, callee, s₁, s₂, rfl, hc, hp, hr, rfl, rfl, rfl⟩)
  · next m₁ flow s₁ hcall hp =>
      cases h
      refine Or.inr (Or.inr ⟨flow, hp, rfl, ?_⟩)
      rintro rfl
      -- The instruction for it calls or fails.
      have heffect : Effect m operand .run m' flow :=
        Session.perform_yields (m.execute_yields .run operand) hp
      cases heffect with
      | compute _ _ hm => exact hm (by decide)
      | jump _ hm _ => exact absurd hm (by decide)
      | call hc => exact hcall _ _ rfl

/-- A machine that is no root writes no sheet at the end of its run. -/
theorem run_of_not_isRoot (hm : m.Tidy) (hroot : m.isRoot = false) (fuel : Nat) (s : Session κ) :
    m.run fuel s = (Chain.start m).runFor fuel s := by
  rcases hr : (Chain.start m).runFor fuel s with _ | ⟨ending, left, s'⟩
  · simp only [run_def, hr]
  · have hrun : m.run fuel s = some ((left.close s' ending).1, left, (left.close s' ending).2) := by
      simp only [run_def, hr]
    have hleft : left.isRoot = false := by
      rw [isRoot, (run_tidy hm hrun).2.1]
      exact hroot
    rw [hrun]
    cases ending with
    | halted => simp only [close, hleft, Bool.false_eq_true, if_false]
    | _ => rfl

end Machine

/-! ### Instructions in a run -/

namespace Chain

/-- Where a chain with these callers stands when an instruction left its active machine as `m` and
came to the given result. -/
def goOn (m : Machine) (callers : List Frame) : Except Failure Flow → Progress × List LogEvent
  | .error failure => deliver (.failed (failure.within m.here)) m callers
  | .ok flow => proceed ⟨m, callers⟩ (.ok flow)

/-- `c.LeadsTo s next s'`: a run that is at the chain `c` in the session `s` gets to where `next`
says, in the session `s'` with the notes of `next`, and answers as from there. -/
def LeadsTo (c : Chain) (s : Session κ) (next : Progress × List LogEvent) (s' : Session κ) : Prop :=
  ∃ n k, ∀ j, c.runFor (n + j) s = next.1.runFor (k + j) (s'.noteAll next.2)

/-- A step of a chain gets somewhere. -/
theorem leadsTo_settle {c : Chain} {s s' : Session κ} {text : String}
    {result : Except Cause (Machine × Flow)} (ht : c.active.currentLine? = some text)
    (hp : s.perform (c.active.line text) = (result, s')) : c.LeadsTo s (c.settle result) s' := by
  refine ⟨1, 0, fun j => ?_⟩
  rw [Nat.add_comm 1 j, Nat.zero_add, runFor_succ, step_of_line ht hp]

omit [Console κ] in
/-- The ending of a subroutine goes to its caller as the result of the call. -/
theorem deliver_eq_goOn (ending : Ending) (callee : Machine) (f : Frame) (callers : List Frame)
    (s : Session κ) :
    (deliver ending callee (f :: callers)).1 =
        (goOn (f.caller.conclude f.callee callee ending).1 callers
          (Machine.flowOfCall (f.caller.conclude f.callee callee ending).2)).1 ∧
      s.noteAll (deliver ending callee (f :: callers)).2 =
        (s.note (.completed f.callee (ending.completion callee))).noteAll
          (goOn (f.caller.conclude f.callee callee ending).1 callers
            (Machine.flowOfCall (f.caller.conclude f.callee callee ending).2)).2 := by
  cases ending <;> exact ⟨rfl, rfl⟩

end Chain

namespace Machine

variable {m m' : Machine} {fuel : Nat} {s₀ s s' : Session κ} {mnemonic : Mnemonic}
  {operand : String} {result : Except Failure Flow}

/-- `m.ComesTo s₀ mnemonic operand s`: the machine stands on a line with that instruction, which is
executed with that operand, and to record the line takes the session `s₀` to `s`. -/
def ComesTo (m : Machine) (s₀ : Session κ) (mnemonic : Mnemonic) (operand : String)
    (s : Session κ) : Prop :=
  ∃ text i, m.currentLine? = some text ∧
    Line.decode (Text.wordsOf text) = .ok (.instruction i) ∧ i.mnemonic = mnemonic ∧
    OperandText i operand ∧ s₀.trace (Text.wordsOf text) m.accumulator = (.ok (), s)

/-- A machine that comes to an instruction executes it. -/
theorem ComesTo.perform_line (h : m.ComesTo s₀ mnemonic operand s) :
    ∃ text, m.currentLine? = some text ∧
      s₀.perform (m.line text) = s.perform (m.execute mnemonic operand) := by
  obtain ⟨text, i, ht, hd, rfl, ho, htrace⟩ := h
  have hobey : m.obeyWords (Text.wordsOf text) = m.execute i.mnemonic operand := by
    simp only [obeyWords_def, hd, Chain.obey_of_operandText ho]
  exact ⟨text, ht, by simp only [line_def, Session.perform, htrace, hobey]⟩

/-- **An instruction in a run does what it does when it is dispatched**: the run goes on from what
the instruction leaves, whatever callers wait. -/
theorem ComesTo.leadsTo (h : m.ComesTo s₀ mnemonic operand s) (hm : m.Tidy)
    (hdispatch : m.dispatch fuel s mnemonic operand = some (result, m', s'))
    (callers : List Frame) : Chain.LeadsTo ⟨m, callers⟩ s₀ (Chain.goOn m' callers result) s' := by
  obtain ⟨text, ht, hline⟩ := h.perform_line
  rcases dispatch_cases hdispatch with ⟨cause, hp, rfl, rfl⟩ |
    ⟨child, ending, callee, s₁, s₂, rfl, hc, hp, hr, rfl, rfl, rfl⟩ | ⟨flow, hp, rfl, -⟩
  · exact Chain.leadsTo_settle (c := ⟨m', callers⟩) ht (hline.trans hp)
  · -- The subroutine runs on top of its caller as it does when the call is dispatched.
    have hroot := ((hm.declared hc).invoked m.accumulator).not_isRoot
    rw [run_of_not_isRoot ((hm.of_child hc).invoked _) hroot] at hr
    obtain ⟨k, -, hrest⟩ := Chain.runFor_onTopOf hr (⟨m, operand⟩ :: callers)
    obtain ⟨hprogress, hnotes⟩ := Chain.deliver_eq_goOn ending callee ⟨m, operand⟩ callers s₂
    rw [hprogress, hnotes] at hrest
    refine ⟨fuel + 1, k, fun j => ?_⟩
    rw [Nat.add_right_comm, Chain.runFor_succ,
      Chain.step_of_line (c := ⟨m, callers⟩) ht (hline.trans hp)]
    exact hrest j
  · have hleads := Chain.leadsTo_settle (c := ⟨m, callers⟩) ht (hline.trans hp)
    cases flow <;> exact hleads

/-! ### While a call goes on -/

/-- `m.KeptInCall s₀ name callers`: the machine calls the subroutine of that name on its line, while
the callers wait.  As long as the call lasts, the whole tree is that of the machine and its callers
as they stand on their lines, with the subroutine as it has become by itself. -/
def KeptInCall (m : Machine) (s₀ : Session κ) (name : String) (callers : List Frame) : Prop :=
  ∃ callee s₁, Chain.step ⟨m, callers⟩ s₀ =
      (.running ((Chain.start callee).onTopOf (⟨m, name⟩ :: callers)), s₁) ∧
    ∀ c s₂, Chain.Lasts (callers.length + 1) ((Chain.start callee).onTopOf (⟨m, name⟩ :: callers))
        s₁ c s₂ →
      ∃ c₁, Chain.Reaches (Chain.start callee) s₁ c₁ s₂ ∧
        Chain.whole c.active c.callers =
          Chain.whole (m.hold name (Chain.whole c₁.active c₁.callers)) callers ∧
        m.Keeps (some name) (m.hold name (Chain.whole c₁.active c₁.callers))

/-- **A machine that waits for a subroutine does not change**, whatever the subroutine calls in its
turn. -/
theorem ComesTo.keptInCall {child : Machine} (h : m.ComesTo s₀ .run operand s)
    (hc : m.subroutines.find? operand = some child) (callers : List Frame) :
    m.KeptInCall s₀ operand callers := by
  obtain ⟨text, ht, hline⟩ := h.perform_line
  refine ⟨child.invoked m.accumulator, s.note (.invoking operand m.accumulator),
    Chain.step_of_line (c := ⟨m, callers⟩) ht (hline.trans (perform_run hc s)), ?_⟩
  intro c s₂ hlasts
  have hlasts : Chain.Lasts (⟨m, operand⟩ :: callers).length
      ((Chain.start (child.invoked m.accumulator)).onTopOf (⟨m, operand⟩ :: callers))
      (s.note (.invoking operand m.accumulator)) c s₂ := hlasts
  obtain ⟨c₁, rfl, hreach⟩ := hlasts.alone
  exact ⟨c₁, hreach, Chain.whole_append _ _ _, keeps_hold hc _⟩

/-- A call that is dispatched leaves the subroutine as its own run does. -/
theorem find?_of_dispatch_run {child : Machine}
    (h : m.dispatch fuel s .run operand = some (result, m', s'))
    (hc : m.subroutines.find? operand = some child) :
    ∃ ending callee s₁, (child.invoked m.accumulator).run fuel
        (s.note (.invoking operand m.accumulator)) = some (ending, callee, s₁) ∧
      m'.subroutines.find? operand = some callee.released := by
  rw [dispatch_run hc, callSync] at h
  split at h
  · cases h
  · next ending callee s₂ hrun =>
      cases h
      exact ⟨ending, callee, s₂, hrun, find?_conclude m operand callee ending⟩

/-! ### Failures are atomic -/

/-- **A failed instruction changes nothing.**  Let an instruction be dispatched on a machine, in
whatever state it and its session are.

If it fails, the machine has the accumulator that it had, and all else is as before, except that a
call may have changed the subroutine that it called.  Any other instruction leaves the whole machine
as it was, so a declaration that fails keeps the subroutine that was declared before.  A call that
halts leaves the machine like one that fails, and one that goes on changes, besides, the
accumulator; the subroutine is then what its own run has left.

A run that comes to the instruction goes on with the machine that is left, whatever callers wait;
and as long as a call lasts, neither the machine nor its callers change. -/
theorem dispatch_atomic (h : m.dispatch fuel s mnemonic operand = some (result, m', s')) :
    (∀ failure, result = .error failure → m'.accumulator = m.accumulator ∧
      m.Keeps (if mnemonic = .run then some operand else none) m' ∧ (mnemonic ≠ .run → m' = m)) ∧
    (mnemonic = .run → result = .ok .halt →
      m'.accumulator = m.accumulator ∧ m.Keeps (some operand) m') ∧
    (mnemonic = .run → result = .ok .next → m.Keeps (some operand) m') ∧
    (mnemonic = .run → ∀ child, m.subroutines.find? operand = some child →
      ∃ ending callee s₁, (child.invoked m.accumulator).run fuel
          (s.note (.invoking operand m.accumulator)) = some (ending, callee, s₁) ∧
        m'.subroutines.find? operand = some callee.released) ∧
    ∀ (s₀ : Session κ) (callers : List Frame), m.ComesTo s₀ mnemonic operand s →
      (m.Tidy → Chain.LeadsTo ⟨m, callers⟩ s₀ (Chain.goOn m' callers result) s') ∧
      (mnemonic = .run → ∀ child, m.subroutines.find? operand = some child →
        m.KeptInCall s₀ operand callers) := by
  have hleft : mnemonic = .run → ∀ child, m.subroutines.find? operand = some child →
      ∃ ending callee s₁, (child.invoked m.accumulator).run fuel
          (s.note (.invoking operand m.accumulator)) = some (ending, callee, s₁) ∧
        m'.subroutines.find? operand = some callee.released := by
    rintro rfl child hc
    exact find?_of_dispatch_run h hc
  have hruns : ∀ (s₀ : Session κ) (callers : List Frame), m.ComesTo s₀ mnemonic operand s →
      (m.Tidy → Chain.LeadsTo ⟨m, callers⟩ s₀ (Chain.goOn m' callers result) s') ∧
      (mnemonic = .run → ∀ child, m.subroutines.find? operand = some child →
        m.KeptInCall s₀ operand callers) := by
    intro s₀ callers hcomes
    refine ⟨fun hm => hcomes.leadsTo hm h callers, ?_⟩
    rintro rfl child hc
    exact hcomes.keptInCall hc callers
  rcases dispatch_cases h with ⟨cause, -, rfl, rfl⟩ |
    ⟨child, ending, callee, _, _, rfl, hc, -, -, rfl, rfl, -⟩ | ⟨flow, -, rfl, hne⟩
  · exact ⟨fun failure _ => ⟨rfl, .refl _ _, fun _ => rfl⟩, nofun, nofun, hleft, hruns⟩
  · obtain ⟨hkeeps, haccumulator⟩ := keeps_conclude hc callee ending
    refine ⟨?_, ?_, fun _ _ => hkeeps, hleft, hruns⟩
    · intro failure hfailed
      refine ⟨haccumulator (by rw [hfailed]; nofun), ?_, fun hne => absurd rfl hne⟩
      rw [if_pos rfl]
      exact hkeeps
    · intro _ hhalted
      exact ⟨haccumulator (by rw [hhalted]; nofun), hkeeps⟩
  · exact ⟨nofun, fun hr => absurd hr hne, fun hr => absurd hr hne, hleft, hruns⟩

/-- A root with two subroutines.  The first one adds, stores and divides by an empty slot. -/
def foreman : Machine :=
  let root := (ofProgram (.ofLines "root" ["RUN first"])).accumulate 6
  let first := root.subroutine (.ofLines "first" ["ADD 1", "STORE x", "DIVIDE y"])
  let second := root.subroutine (.ofLines "second" ["RET"])
  { root with subroutines := Table.ofList [("first", first), ("second", second)] }

/-- The call of the first one fails on its third line.  The root has its accumulator and the second
subroutine as before, while the first one has counted and stored. -/
theorem dispatch_atomic_foreman :
    ∃ failure m' s', foreman.dispatch 5 (.inMemory [] []) .run "first" =
        some (.error failure, m', s') ∧
      (m'.at? ["first"]).map (fun n => (n.accumulator, n.pc, n.slot "x")) = some (7, 2, 7) ∧
      m'.accumulator = 6 ∧ m'.pc = foreman.pc ∧
      m'.subroutines.find? "second" = foreman.subroutines.find? "second" := by
  have hrun : ((foreman.dispatch 5 (.inMemory [] []) .run "first").bind fun answer =>
      if answer.1.isOk then none
      else (answer.2.1.at? ["first"]).map fun n => (n.accumulator, n.pc, n.slot "x")) =
        some (7, 2, 7) := by decide +kernel
  obtain ⟨⟨result, m', s'⟩, h, hanswer⟩ := Option.bind_eq_some_iff.1 hrun
  obtain ⟨hfails, -⟩ := dispatch_atomic h
  cases result with
  | ok flow => cases hanswer
  | error failure =>
      obtain ⟨haccumulator, hkeeps, -⟩ := hfails failure rfl
      exact ⟨failure, m', s', h, hanswer, haccumulator, hkeeps.pc, hkeeps.others "second" (by simp)⟩

end Machine

end AccMachine
