/-
**The program counter is exact.**

A machine sets its program counter to zero when its run begins.  Then a line that goes on adds one
to it, a line that jumps sets it to an index that the label table of the same program names, and no
other line changes it.  So it is never behind the end of the program, and when the run is over it
tells how: it is the number of lines after a run past the last line, and otherwise it is on the
line that returned, halted, called or failed.

The same holds of every subroutine.  Its own run is one like that of the outermost machine, and
nothing changes a subroutine after its last run, as `AccMachine/Proofs/OwnRuns.lean` shows.

Main definitions:

* `Chain.InBounds` — no machine of a chain is behind the end of its program;
* `Machine.StandsOn` — the machine stands on a line with that instruction;
* `Machine.EndsBelow` — the last call of a run was one whose own run came to a certain ending;
* `Machine.LeftBy` — where a machine stands when its run has come to an ending;
* `Machine.CounterExact` — both together, for a whole run.

Main results:

* `Chain.Reaches.chainInBounds` — the program counters of a run stay in bounds;
* `Machine.EndsIn.leftBy` — **the program counter tells how a run has ended**;
* `Machine.run_counter_exact` — the program counters of a run and of the tree that it leaves.
-/

import AccMachine.Proofs.Blame
import AccMachine.Proofs.OwnRuns

set_option relaxedAutoImplicit false
set_option autoImplicit false

namespace AccMachine

/-! ### Bounds -/

namespace Chain

/-- No machine of the chain is behind the end of its program: the line that is fetched next is one
of the program, or the active machine is just behind the last line; every caller is on a line. -/
structure InBounds (c : Chain) : Prop where
  active : c.active.pc ≤ c.active.program.size
  fetched : ∀ text, c.active.currentLine? = some text → c.active.pc < c.active.program.size
  spent : c.active.currentLine? = none → c.active.pc = c.active.program.size
  waiting : ∀ f ∈ c.callers, f.caller.pc < f.caller.program.size

/-- A machine that has no line left, and is not behind the end, is at the end of its program. -/
theorem pc_of_spent {m : Machine} (hpc : m.pc ≤ m.program.size) (h : m.currentLine? = none) :
    m.pc = m.program.size :=
  Nat.le_antisymm hpc (List.getElem?_eq_none_iff.1 h)

theorem lt_size_of_callsAt {m : Machine} {name : String} (h : m.CallsAt name) :
    m.pc < m.program.size := by
  obtain ⟨text, _, ht, -⟩ := h
  exact Machine.lt_size_of_currentLine? ht

variable {κ : Type} [Console κ]

/-- **The program counters of a run stay in bounds.** -/
theorem Reaches.chainInBounds {m : Machine} {c : Chain} {s s₁ : Session κ}
    (h : Reaches (start m) s c s₁) : c.InBounds where
  active := h.inBounds
  fetched := fun _ ht => Machine.lt_size_of_currentLine? ht
  spent := pc_of_spent h.inBounds
  waiting := fun f hf => lt_size_of_callsAt (h.onCalls (onCalls_start m) f hf)

/-! ### The program of the outermost machine -/

omit [Console κ] in
/-- The callers hide the active machine from the program of the outermost one. -/
theorem program_whole_congr (m n : Machine) (callers : List Frame) (h : m.program = n.program) :
    (whole m callers).program = (whole n callers).program := by
  induction callers generalizing m n with
  | nil => exact h
  | cons f callers ih => exact ih _ _ rfl

omit [Console κ] in
theorem program_adoptAll (m : Machine) (callers : List Frame) :
    (adoptAll m callers).program = (whole m callers).program := by
  induction callers generalizing m with
  | nil => rfl
  | cons f callers ih =>
      rw [adoptAll, ih]
      exact program_whole_congr _ (f.caller.hold f.callee m) callers rfl

omit [Console κ] in
/-- A step leaves the outermost machine its program. -/
theorem Move.program_whole {c c' : Chain} (h : c.Move c') :
    (whole c'.active c'.callers).program = (whole c.active c.callers).program := by
  cases h with
  | next ht he => exact program_whole_congr _ _ _ he.kept.1
  | jump ht he => exact program_whole_congr _ _ _ he.kept.1
  | @call _ name child ht hline hc =>
      let callee := child.invoked c.active.accumulator
      exact program_whole_congr (c.active.hold name callee) c.active c.callers rfl
  | @ret _ _ f callers ht he hf =>
      rw [hf]
      exact program_whole_congr _ (f.caller.hold f.callee c.active) callers rfl

/-- So does the end of a run. -/
theorem Stop.program_whole {c : Chain} {s : Session κ} {ending : Ending} {m : Machine}
    (h : c.Stop s ending m) : m.program = (whole c.active c.callers).program := by
  cases h with
  | failed | halted => exact program_adoptAll _ _
  | returned ht he hf =>
      rw [hf]
      exact he.kept.1
  | finished ht hf => rw [hf, whole]
  | lost ht hf =>
      rw [hf]
      exact program_adoptAll _ _

theorem Reaches.program_whole {m : Machine} {c : Chain} {s s₁ : Session κ}
    (h : Reaches (start m) s c s₁) : (whole c.active c.callers).program = m.program :=
  h.keeps (P := fun c => (whole c.active c.callers).program = m.program)
    (fun _ _ hmove hc => hmove.program_whole.trans hc) rfl

end Chain

namespace Machine

/-! ### Lines that end a run -/

/-- The machine stands on a line with that instruction. -/
def StandsOn (m : Machine) (mnemonic : Mnemonic) : Prop :=
  ∃ text operand?, m.currentLine? = some text ∧ Line.Instructs text mnemonic operand?

theorem StandsOn.lt_size {m : Machine} {mnemonic : Mnemonic} (h : m.StandsOn mnemonic) :
    m.pc < m.program.size := by
  obtain ⟨text, _, ht, -⟩ := h
  exact lt_size_of_currentLine? ht

/-- A line that returns is one with the instruction for it. -/
theorem LineEffect.instructs_ret {m m' : Machine} {text : String}
    (h : m.LineEffect text m' .ret) : ∃ operand?, Line.Instructs text .ret operand? := by
  cases h with
  | @obey i operand _ _ hd _ he =>
      obtain ⟨label, mnemonic, operand?⟩ := i
      cases he with
      | ret _ => exact ⟨operand?, label, hd⟩

variable {κ : Type} [Console κ]

/-! ### Where a run leaves its machine -/

/-- `m.EndsBelow s n name ending`: the run of the machine `m` in the session `s` came to a call of
that subroutine, whose own run has come to that ending; `n` is the caller, which has taken the
subroutine back and still stands on the line of the call. -/
def EndsBelow (m : Machine) (s : Session κ) (n : Machine) (name : String) (ending : Ending) :
    Prop :=
  ∃ caller callee left s₀ s₁ s₂, Chain.Reaches (Chain.start m) s ⟨caller, []⟩ s₀ ∧
    Chain.step ⟨caller, []⟩ s₀ =
      (.running ((Chain.start callee).onTopOf [⟨caller, name⟩]), s₁) ∧
    callee.EndsIn s₁ ending left s₂ ∧ n = caller.adopt name left ∧ n.CallsAt name

/-- `m.LeftBy s ending n`: the machine `n`, which the run of `m` in the session `s` leaves, stands
where a run with that ending leaves it. -/
inductive LeftBy (m : Machine) (s : Session κ) : Ending → Machine → Prop
  | finished {n : Machine} (hpc : n.pc = n.program.size) : LeftBy m s .finished n
  | returned {n : Machine} (h : n.StandsOn .ret) : LeftBy m s .returned n
  | halted {n : Machine} (h : n.StandsOn .halt) : LeftBy m s .halted n
  /-- A subroutine has halted in its own run. -/
  | haltedBelow {n : Machine} {name : String} (h : m.EndsBelow s n name .halted) :
      LeftBy m s .halted n
  /-- The line itself has failed. -/
  | failed {n : Machine} {text : String} {cause : Cause} {s₁ s₂ : Session κ}
      (ht : n.currentLine? = some text) (hreach : Chain.Reaches (Chain.start m) s ⟨n, []⟩ s₁)
      (hp : s₁.perform (n.line text) = (.error cause, s₂)) :
      LeftBy m s (.failed ⟨[n.here], cause⟩) n
  /-- The line is a call, and the own run of the subroutine has failed. -/
  | failedBelow {n : Machine} {name : String} {failure : Failure}
      (h : m.EndsBelow s n name (.failed failure)) :
      LeftBy m s (.failed (failure.within n.here)) n
  /-- The line is a call, and the subroutine has run past its last line. -/
  | lost {n : Machine} {name : String} (h : m.EndsBelow s n name .finished) :
      LeftBy m s (.failed ⟨[n.here], .missingReturn name⟩) n

theorem EndsBelow.lt_size {m n : Machine} {s : Session κ} {name : String} {ending : Ending}
    (h : m.EndsBelow s n name ending) : n.pc < n.program.size := by
  obtain ⟨_, _, _, _, _, _, -, -, -, -, hcalls⟩ := h
  exact Chain.lt_size_of_callsAt hcalls

/-- However a run ends, its machine is not behind the end of its program. -/
theorem LeftBy.inBounds {m n : Machine} {s : Session κ} {ending : Ending}
    (h : m.LeftBy s ending n) : n.pc ≤ n.program.size := by
  cases h with
  | finished hpc => exact Nat.le_of_eq hpc
  | returned h => exact Nat.le_of_lt h.lt_size
  | halted h => exact Nat.le_of_lt h.lt_size
  | haltedBelow h => exact Nat.le_of_lt h.lt_size
  | failed ht _ _ => exact Nat.le_of_lt (lt_size_of_currentLine? ht)
  | failedBelow h => exact Nat.le_of_lt h.lt_size
  | lost h => exact Nat.le_of_lt h.lt_size

/-- A run that ends while nobody waits ends on a line of its own machine, or behind the last. -/
theorem leftBy_of_stop {m n a : Machine} {s s₁ : Session κ} {ending : Ending}
    (hreach : Chain.Reaches (Chain.start m) s ⟨a, []⟩ s₁)
    (h : Chain.Stop ⟨a, []⟩ s₁ ending n) : m.LeftBy s ending n := by
  cases h with
  | failed ht hp => exact .failed ht hreach hp
  | @halted text _ ht hp =>
      obtain ⟨-, ⟨label, mnemonic, operand?⟩, _, hd, hmnemonic, -⟩ := (perform_line hp).of_halt
      obtain rfl : mnemonic = .halt := hmnemonic
      exact .halted ⟨text, operand?, ht, label, hd⟩
  | @returned text _ ht he _ =>
      obtain ⟨operand?, hinstructs⟩ := he.instructs_ret
      obtain ⟨-, rfl⟩ := he.of_ret
      exact .returned ⟨text, operand?, ht, hinstructs⟩
  | finished ht _ => exact .finished (Chain.pc_of_spent hreach.inBounds ht)
  | lost _ hf => cases hf

/-- A run that ends while the machine waits ends on the line of its call, as the own run of the
subroutine says. -/
theorem leftBy_of_deliver {m n left : Machine} {s : Session κ} {ending ending' : Ending}
    {f : Frame} (h : (Chain.deliver ending' left [f]).1 = .ended ending n)
    (hbelow : ∀ ending₁, ending' = ending₁ →
      m.EndsBelow s (f.caller.adopt f.callee left) f.callee ending₁) : m.LeftBy s ending n := by
  rw [Chain.deliver_single] at h
  cases ending' with
  | returned => cases h
  | halted =>
      cases h
      exact .haltedBelow (hbelow _ rfl)
  | failed failure =>
      cases h
      exact .failedBelow (hbelow _ rfl)
  | finished =>
      cases h
      exact .lost (hbelow _ rfl)

/-- **The program counter tells how a run has ended.** -/
theorem EndsIn.leftBy {m n : Machine} {s s' : Session κ} {ending : Ending}
    (h : m.EndsIn s ending n s') : m.LeftBy s ending n := by
  obtain ⟨⟨active, callers⟩, s₁, hreach, hs⟩ := h
  rcases List.eq_nil_or_concat callers with rfl | ⟨inner, f, rfl⟩
  · exact leftBy_of_stop hreach (Chain.stop_of_step hs)
  · rw [List.concat_eq_append] at hreach hs
    have hcalls := hreach.onCalls (Chain.onCalls_start m) f (by simp)
    obtain ⟨s₀, callee, s₂, hcaller, hcall, hlasts⟩ := hreach.waits rfl rfl
    -- Below the call, the run of the subroutine has ended with the same step.
    obtain ⟨own, hown, hbelow⟩ := hlasts.alone
    have hstep := Chain.step_onTopOf own [f] s₁
    rw [← hown, hs] at hstep
    rcases hend : own.step s₁ with ⟨own' | ⟨ending', left⟩, s₃⟩ <;> rw [hend] at hstep
    · cases hstep
    · refine leftBy_of_deliver (congrArg Prod.fst hstep).symm ?_
      rintro _ rfl
      exact ⟨f.caller, callee, left, s₀, s₂, s₃, hcaller, hcall, ⟨own, s₁, hbelow, hend⟩, rfl,
        hcalls⟩

/-! ### Exact program counters -/

/-- The program counters of the run of a machine stay in bounds, and the one of the machine that it
leaves is where the ending says; the program is the same. -/
structure CounterExact (m : Machine) (s : Session κ) (ending : Ending) (n : Machine) : Prop where
  inBounds : ∀ c s₁, Chain.Reaches (Chain.start m) s c s₁ → c.InBounds
  left : m.LeftBy s ending n
  program : n.program = m.program

/-- The program counter of every run is exact. -/
theorem EndsIn.counterExact {m n : Machine} {s s' : Session κ} {ending : Ending}
    (h : m.EndsIn s ending n s') : m.CounterExact s ending n := by
  refine ⟨fun c s₁ hreach => hreach.chainInBounds, h.leftBy, ?_⟩
  obtain ⟨c, s₁, hreach, hs⟩ := h
  exact (Chain.stop_of_step hs).program_whole.trans hreach.program_whole

omit [Console κ] in
/-- Only a halt may become another ending when the run is closed. -/
theorem close_cases {m : Machine} {s s' : Session κ} {ending ending' : Ending}
    (h : m.close s ending = (ending', s')) :
    ending' = ending ∨
      ending = .halted ∧ ∃ fault, s.writeSheet = (.error fault, s') ∧
        ending' = .failed ⟨[], .device fault⟩ := by
  cases ending with
  | halted =>
      cases hroot : m.isRoot with
      | false =>
          simp only [close, hroot, Bool.false_eq_true, if_false] at h
          cases h
          exact Or.inl rfl
      | true =>
          rcases close_halted hroot h with ⟨-, rfl⟩ | ⟨fault, hw, rfl⟩
          · exact Or.inl rfl
          · exact Or.inr ⟨rfl, fault, hw, rfl⟩
  | finished | returned | failed _ =>
      cases h
      exact Or.inl rfl

/-- **The program counter is exact.**

Whatever the program counter of a machine is before a run, in every chain that the run comes to no
machine is behind the end of its program, and a line is fetched at an index below its length.  When
the run ends, the program counter of its machine is where the ending says: at the length of the
program if it ran past its last line, on a return, a halt or the line that failed; and on a call
exactly if it is the own run of the subroutine that has halted, failed or not returned.  (A halt
whose sheet is refused fails afterwards, and without a location.)

Every machine below it in the tree that is left is as it was before the run, if the run neither
called it nor declared it; or it was declared last, and has not run; or it was called last, and is
as its own run has left it, of which the same holds. -/
theorem run_counter_exact (m : Machine) (s : Session κ) :
    (∀ c s₁, Chain.Reaches (Chain.start m) s c s₁ → c.InBounds) ∧
    ∀ fuel ending' m' s', m.run fuel s = some (ending', m', s') →
      ∃ passed c s₁ ending s₂, Chain.Passes (Chain.start m) s passed c s₁ ∧
        c.step s₁ = (.ended ending m', s₂) ∧
        (ending' = ending ∨ ending = .halted ∧ ∃ fault, s₂.writeSheet = (.error fault, s') ∧
          ending' = .failed ⟨[], .device fault⟩) ∧
        m.LeftBy s ending m' ∧ m'.program = m.program ∧ m'.pc ≤ m'.program.size ∧
        ∀ path n, path ≠ [] → m'.at? path = some n →
          ((∀ d ∈ deedsOf passed, ¬ d.Touches path) ∧ m.at? path = some n) ∨
          ∃ c₀ s₀, Chain.LastTouched passed path c₀ s₀ ∧
            ((c₀.deed.Renews path ∧ n.pc = 0) ∨
            (c₀.deed.called? = some path ∧
              ∃ callee callers s₃ ending₁ left s₄,
                c₀.step s₀ = (.running ⟨callee, callers⟩, s₃) ∧ Chain.pathOf callers = path ∧
                callee.EndsIn s₃ ending₁ left s₄ ∧ callee.CounterExact s₃ ending₁ left ∧
                n = left.released)) := by
  refine ⟨fun c s₁ hreach => hreach.chainInBounds, ?_⟩
  intro fuel ending' m' s' hrun
  obtain ⟨c, s₁, ending, s₂, hreach, hs, hclose⟩ := run_eq_some_iff.1 ⟨fuel, hrun⟩
  obtain ⟨passed, hpasses⟩ := hreach.passes
  have hexact : m.CounterExact s ending m' := EndsIn.counterExact ⟨c, s₁, hreach, hs⟩
  refine ⟨passed, c, s₁, ending, s₂, hpasses, hs, close_cases hclose, hexact.left, hexact.program,
    hexact.left.inBounds, ?_⟩
  intro path n hpath hn
  rcases Chain.untouched_or_lastTouched passed path with hnone | ⟨c₀, s₀, hlast⟩
  · exact Or.inl ⟨hnone, (hpasses.at?_untouched hs hpath hnone).symm.trans hn⟩
  · refine Or.inr ⟨c₀, s₀, hlast, ?_⟩
    obtain ⟨_, _, -, hrenews | hcalled, -⟩ := id hlast
    · exact Or.inl ⟨hrenews, hpasses.pc_lastRenewal hs hlast hrenews hn⟩
    · obtain ⟨callee, callers, s₃, ending₁, left, s₄, hstep, hcallers, hends, hat⟩ :=
        hpasses.at?_lastCall hs hlast hcalled
      refine Or.inr ⟨hcalled, callee, callers, s₃, ending₁, left, s₄, hstep, hcallers, hends,
        hends.counterExact, ?_⟩
      rw [hat] at hn
      exact (Option.some.inj hn).symm

/-- A root far behind the end of its program, with a subroutine that jumps over a halt and returns,
and one that fails. -/
def straggler : Machine :=
  (ofProgram (.ofLines "root" ["INC leaf", "RUN leaf", "INC deep", "RUN deep"])).goto 9

/-- Its run fails on the last call; the program counters are on that call and on the return. -/
theorem run_counter_exact_straggler :
    ∃ (s : Session Buffer) (failure : Failure) (m' : Machine) (s' : Session Buffer)
      (leaf : Machine), straggler.run 20 s = some (.failed failure, m', s') ∧
      straggler.LeftBy s (.failed failure) m' ∧ m'.pc = 3 ∧ m'.at? ["leaf"] = some leaf ∧
      leaf.pc = 2 ∧ ∃ (callee : Machine) (s₃ : Session Buffer) (ending : Ending) (left : Machine),
        callee.LeftBy s₃ ending left ∧ leaf = left.released := by
  let s : Session Buffer :=
    .inMemory [("leaf", "JUMP end\nHALT\nend RET"), ("deep", "LOAD 1\nDIVIDE 0")] []
  have hrun : ((straggler.run 20 s).bind fun answer => answer.1.failure?.bind fun failure =>
      (answer.2.1.at? ["leaf"]).map fun leaf =>
        (failure.locations.length, answer.2.1.pc, leaf.pc)) = some (2, 3, 2) := by
    decide +kernel
  obtain ⟨⟨ending', m', s'⟩, h, hanswer⟩ := Option.bind_eq_some_iff.1 hrun
  obtain ⟨failure, hfailure, hleaf⟩ := Option.bind_eq_some_iff.1 hanswer
  obtain ⟨leaf, hat, hcounts⟩ := Option.map_eq_some_iff.1 hleaf
  simp only [Prod.mk.injEq] at hcounts
  obtain ⟨hlocations, hpc, hleafpc⟩ := hcounts
  obtain rfl := Ending.eq_of_failure? hfailure
  obtain ⟨_, _, _, ending, _, -, -, hending, hleft, -, -, hbelow⟩ :=
    (run_counter_exact straggler s).2 20 _ m' s' h
  obtain rfl : Ending.failed failure = ending := by
    rcases hending with hending | ⟨-, fault, -, hbare⟩
    · exact hending
    · cases hbare
      cases hlocations
  refine ⟨s, failure, m', s', leaf, h, hleft, hpc, hat, hleafpc, ?_⟩
  -- The subroutine is not on its first line, so it was run.
  rcases hbelow ["leaf"] leaf (List.cons_ne_nil _ _) hat with ⟨-, hbefore⟩ | ⟨_, _, -, hlast⟩
  · cases hbefore
  · rcases hlast with ⟨-, hzero⟩ | ⟨-, callee, _, s₃, ending, left, _, -, -, -, hexact, hleaf⟩
    · rw [hleafpc] at hzero
      cases hzero
    · exact ⟨callee, s₃, ending, left, hexact.left, hleaf⟩

end Machine

end AccMachine
