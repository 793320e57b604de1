/-
**A failure is blamed on a line that explains it.**

The innermost location of a failure is a line of a machine in the tree that the run leaves behind.
Nothing happens between the moment at which the failure arises and the end of the run except that
the machines of the chain are taken back and notes are made.  So that line, that machine and the
console, as they are after the run, still show why the run has failed.

Main definitions:

* `Line.Instructs` — a line carries an instruction with that operand;
* `Machine.Explains` — a line of a machine explains a cause;
* `Machine.Blames` — a failure is blamed on a line, in what the run leaves behind.

Main results:

* `Machine.LineRefusal.explains` — a line that failed explains its cause;
* `Chain.Reaches.inBounds` — no machine of a run is behind the end of its program;
* `Chain.Fits.place` — where the innermost machine of a chain is found after a failure;
* `Chain.blames_of_step` — a chain that fails is blamed on a line that explains it;
* `Machine.run_failed_explained` — **every failure is blamed on a line that explains it**.
-/

import AccMachine.Proofs.FailureTrail
import AccMachine.Proofs.Refusal
import AccMachine.Proofs.SheetRecord

set_option relaxedAutoImplicit false
set_option autoImplicit false

namespace AccMachine

/-! ### Explanations -/

/-- The line of text carries the instruction with that operand, or without one. -/
def Line.Instructs (text : String) (mnemonic : Mnemonic) (operand? : Option String) : Prop :=
  ∃ label, Line.decode (Text.wordsOf text) = .ok (.instruction ⟨label, mnemonic, operand?⟩)

namespace Machine

variable {κ : Type} [Console κ]

/-- `n.Explains view text s cause`: the line of text, in the machine `n` and the session `s`, is
one that fails with the cause. -/
def Explains (n : Machine) (view : Console.Transcript κ) (text : String) (s : Session κ) :
    Cause → Prop
  | .load reference fault =>
      Line.Instructs text .declare (some reference) ∧ s.source reference = .error fault
  | .line flaw => Line.decode (Text.wordsOf text) = .error flaw
  | .missingOperand mnemonic =>
      mnemonic.takesOperand = true ∧ Line.Instructs text mnemonic none
  | .divisionByZero =>
      ∃ operand, Line.Instructs text .divide (some operand) ∧
        (Operand.ofText operand = .literal 0 ∨ ∃ key, Operand.ofText operand = .slot key ∧
          (n.storage.find? key = none ∨ n.storage.find? key = some 0))
  | .invalidInput word flaw =>
      ∃ operand?, Line.Instructs text .input operand? ∧ Decimal.parse word = .error flaw ∧
        ∃ console line, Console.read console = (.ok (some line), s.console) ∧
          word = Text.trimmed line
  | .inputClosed =>
      ∃ operand?, Line.Instructs text .input operand? ∧
        ∃ console, Console.read console = (.ok none, s.console)
  | .undefinedLabel label =>
      ∃ mnemonic, Line.Instructs text mnemonic (some label) ∧ n.Jumps mnemonic ∧
        n.program.label? label = none ∧
        (view.outputs s.console).getLast? = some (missingLabel label)
  | .undeclaredSubroutine name =>
      Line.Instructs text .run (some name) ∧ n.subroutines.find? name = none
  | .returnOutsideSubroutine => ∃ operand?, Line.Instructs text .ret operand?
  | .missingReturn name =>
      Line.Instructs text .run (some name) ∧
        ∃ child, n.subroutines.find? name = some child ∧ child.pc = child.program.size
  | .device fault =>
      -- The console refused the entry of the line, or what its instruction shows, or a read.
      ∃ console,
        (s.tracer.mode = .debug ∧
          Console.emit console (.trace (traceEntry (Text.wordsOf text) n.accumulator)) =
            (.error fault, s.console)) ∨
        (∃ i operand output, Line.decode (Text.wordsOf text) = .ok (.instruction i) ∧
          OperandText i operand ∧ n.Says operand output i.mnemonic ∧
          Console.emit console output = (.error fault, s.console)) ∨
        (∃ operand?, Line.Instructs text .input operand? ∧
          Console.read console = (.error fault, s.console))

/-- It does not matter for an explanation whether anybody waits for the machine. -/
theorem Explains.of_released {view : Console.Transcript κ} {n m : Machine} {text : String}
    {s : Session κ} {cause : Cause} (hn : n.released = m.released)
    (h : m.Explains view text s cause) : n.Explains view text s cause := by
  have hreleased : m.released.Explains view text s cause := by cases cause <;> exact h
  rw [← hn] at hreleased
  cases cause <;> exact hreleased

/-- Nor does it matter which notes were made. -/
theorem Explains.noteAll {view : Console.Transcript κ} {n : Machine} {text : String}
    {s : Session κ} {cause : Cause} (h : n.Explains view text s cause) (events : List LogEvent) :
    n.Explains view text (s.noteAll events) cause := by
  obtain ⟨log, hlog⟩ := s.noteAll_eq events
  rw [hlog]
  cases cause <;> exact h

/-- An instruction that takes an operand is executed with the operand on its line. -/
theorem OperandText.instructs {text : String} {i : Instruction} {operand : String}
    (h : OperandText i operand) (hd : Line.decode (Text.wordsOf text) = .ok (.instruction i))
    (ht : i.mnemonic.takesOperand = true) : Line.Instructs text i.mnemonic (some operand) := by
  rcases h with h | ⟨-, hnone, -⟩
  · rw [← h]
    exact ⟨i.label, hd⟩
  · rw [ht] at hnone
    cases hnone

/-- A value is zero because the operand is zero, or a slot that holds zero or nothing. -/
theorem valueOf_eq_zero {m : Machine} {operand : String} (h : m.valueOf operand = 0) :
    Operand.ofText operand = .literal 0 ∨ ∃ key, Operand.ofText operand = .slot key ∧
      (m.storage.find? key = none ∨ m.storage.find? key = some 0) := by
  unfold valueOf at h
  split at h
  · next value ho =>
      subst h
      exact Or.inl ho
  · next key ho =>
      refine Or.inr ⟨key, ho, ?_⟩
      unfold slot at h
      cases hs : m.storage.find? key with
      | none => exact Or.inl rfl
      | some value =>
          rw [hs, Option.getD_some] at h
          exact Or.inr (by rw [h])

/-- An instruction that failed explains its cause. -/
theorem Refusal.explains {m : Machine} {text operand : String} {s : Session κ} {i : Instruction}
    {cause : Cause} (view : Console.Transcript κ)
    (hd : Line.decode (Text.wordsOf text) = .ok (.instruction i)) (ho : OperandText i operand)
    (h : m.Refusal operand s i.mnemonic cause) : m.Explains view text s cause := by
  obtain ⟨label, mnemonic, operand?⟩ := i
  cases h with
  | emit hs he => exact ⟨_, Or.inr (Or.inl ⟨_, _, _, hd, ho, hs, he⟩)⟩
  | read hr => exact ⟨_, Or.inr (Or.inr ⟨operand?, ⟨label, hd⟩, hr⟩)⟩
  | closed hr => exact ⟨operand?, ⟨label, hd⟩, _, hr⟩
  | invalid hr hp => exact ⟨operand?, ⟨label, hd⟩, hp, _, _, hr, rfl⟩
  | zero hv => exact ⟨operand, ho.instructs hd rfl, valueOf_eq_zero hv⟩
  | @label _ console hj hl he =>
      have htakes : mnemonic.takesOperand = true := by
        cases mnemonic <;> first | rfl | cases hj
      have houtputs := view.outputs_emit console (missingLabel operand) (by rw [he])
      rw [he] at houtputs
      exact ⟨mnemonic, ho.instructs hd htakes, hj, hl, by rw [houtputs, List.getLast?_concat]⟩
  | load hs => exact ⟨ho.instructs hd rfl, hs⟩
  | undeclared hc => exact ⟨ho.instructs hd rfl, hc⟩
  | unawaited ha => exact ⟨operand?, label, hd⟩

/-- **A line that failed explains its cause.** -/
theorem LineRefusal.explains {m : Machine} {text : String} {s : Session κ} {cause : Cause}
    (view : Console.Transcript κ) (h : m.LineRefusal text s cause) :
    m.Explains view text s cause := by
  cases h with
  | untraced hmode he => exact ⟨_, Or.inl ⟨hmode, he⟩⟩
  | unreadable hd => exact hd
  | @missingOperand i hd ho ht =>
      refine ⟨ht, i.label, ?_⟩
      rw [← ho]
      exact hd
  | obey hd ho hr => exact hr.explains view hd ho

/-- A line that cannot be read fails for that reason, if it is not refused by the console. -/
theorem LineRefusal.of_unreadable {m : Machine} {text : String} {s : Session κ} {cause : Cause}
    (h : m.LineRefusal text s cause) {flaw : Line.Flaw}
    (hd : Line.decode (Text.wordsOf text) = .error flaw) :
    cause = .line flaw ∨ ∃ fault, cause = .device fault := by
  cases h with
  | untraced _ _ => exact Or.inr ⟨_, rfl⟩
  | unreadable hd' =>
      rw [hd] at hd'
      cases hd'
      exact Or.inl rfl
  | missingOperand hd' _ _ =>
      rw [hd] at hd'
      cases hd'
  | obey hd' _ _ =>
      rw [hd] at hd'
      cases hd'

/-- A return fails only in a machine that nobody waits for. -/
theorem LineRefusal.not_awaited {m : Machine} {text : String} {s : Session κ}
    (h : m.LineRefusal text s .returnOutsideSubroutine) : m.awaited = false := by
  cases h with
  | @obey i _ _ _ _ hr =>
      obtain ⟨_, mnemonic, _⟩ := i
      cases hr with
      | unawaited ha => exact ha

/-- A line jumps only to a line of the program. -/
theorem LineEffect.jump_lt {m m' : Machine} {text : String} {target : Nat}
    (h : m.LineEffect text m' (.jump target)) : target < m.program.size := by
  cases h with
  | @obey i _ _ _ _ _ he =>
      obtain ⟨_, mnemonic, _⟩ := i
      cases he with
      | jump _ _ ht => exact Program.label?_lt ht

end Machine

namespace Chain

variable {κ : Type} [Console κ]

/-! ### The place of a failure -/

omit [Console κ] in
/-- No active machine is behind the end of its program. -/
theorem Move.inBounds {c c' : Chain} (h : c.Move c') (hcalls : c.OnCalls) :
    c'.active.pc ≤ c'.active.program.size := by
  cases h with
  | @next _ m ht he =>
      obtain ⟨hprogram, -, hpc⟩ := he.kept
      have hlt := Machine.lt_size_of_currentLine? ht
      change m.pc + 1 ≤ m.program.size
      rw [hprogram, hpc]
      exact hlt
  | @jump _ m target ht he =>
      obtain ⟨hprogram, -, -⟩ := he.kept
      change target ≤ m.program.size
      rw [hprogram]
      exact Nat.le_of_lt he.jump_lt
  | call ht hline hc => exact Nat.zero_le _
  | @ret _ m f callers ht he hf =>
      obtain ⟨text, _, hline, -⟩ := hcalls f (by rw [hf]; exact List.mem_cons_self)
      exact Machine.lt_size_of_currentLine? hline

theorem Reaches.inBounds {m : Machine} {c : Chain} {s s' : Session κ}
    (h : Reaches (start m) s c s') : c.active.pc ≤ c.active.program.size := by
  cases h with
  | refl => exact Nat.zero_le _
  | tail h hs => exact (move_of_step hs).inBounds (h.onCalls (onCalls_start m))

/-- The programs of a chain are those of its path. -/
theorem Fits.references {post : Machine.Post} {m : Machine} {callers : List Frame}
    (h : Fits post m callers) :
    (callers.map fun f => f.caller.program.reference).reverse ++ [m.program.reference] =
      post.reference :: pathOf callers := by
  induction h with
  | outermost _ hpost =>
      rw [← hpost]
      rfl
  | @called m f callers _ declared _ _ ih =>
      rw [List.map_cons, List.reverse_cons, ih, pathOf_cons, declared.reference]
      rfl

/-- **Where the innermost machine of a chain is found after a failure**: the programs of all
locations but the first are the path to it. -/
theorem Fits.place {post : Machine.Post} {m : Machine} {callers : List Frame}
    (h : Fits post m callers) (cause : Cause) :
    ∃ n, (Chain.adoptAll m callers).at?
        ((outward ⟨[m.here], cause⟩ callers).locations.tail.map Location.program) = some n ∧
      n.released = m.released ∧
      (outward ⟨[m.here], cause⟩ callers).locations.getLast? = some n.here := by
  obtain ⟨n, hn, hreleased⟩ := at?_adoptAll m callers
  have hhere : n.here = m.here := by
    change n.released.here = m.released.here
    rw [hreleased]
  have hpath : (outward ⟨[m.here], cause⟩ callers).locations.tail.map Location.program =
      pathOf callers := by
    have hreferences := congrArg List.tail h.references
    rw [List.tail_cons] at hreferences
    rw [locations_outward, List.map_tail, ← hreferences, List.map_append, List.map_reverse,
      List.map_map]
    rfl
  refine ⟨n, by rw [hpath, hn], hreleased, ?_⟩
  rw [locations_outward, hhere, List.getLast?_concat]

end Chain

namespace Machine

variable {κ : Type} [Console κ]

/-- `m.Blames view failure s n text`: in the machine `m` and the session `s`, as a run has left
them, the failure is blamed on the line `text` of the machine `n`, and this explains it. -/
structure Blames (m : Machine) (view : Console.Transcript κ) (failure : Failure) (s : Session κ)
    (n : Machine) (text : String) : Prop where
  /-- The programs of all locations but the first are the path to the machine. -/
  place : m.at? (failure.locations.tail.map Location.program) = some n
  innermost : failure.locations.getLast? = some n.here
  line : n.currentLine? = some text
  explains : n.Explains view text s failure.cause
  outside : failure.cause = .returnOutsideSubroutine →
    n = m ∧ failure.locations.length = 1
  unreadable : ∀ flaw, Line.decode (Text.wordsOf text) = .error flaw →
    failure.cause = .line flaw ∨ ∃ fault, failure.cause = .device fault

end Machine

namespace Chain

variable {κ : Type} [Console κ] {post : Machine.Post} {c : Chain} {s s' : Session κ}

/-- A chain whose line fails does so on a line that explains it. -/
theorem blames_of_line (view : Console.Transcript κ) (hfits : Fits post c.active c.callers)
    {text : String} {cause : Cause} (ht : c.active.currentLine? = some text)
    (hp : s.perform (c.active.line text) = (.error cause, s')) (events : List LogEvent) :
    ∃ n, (adoptAll c.active c.callers).Blames view (outward ⟨[c.active.here], cause⟩ c.callers)
      (s'.noteAll events) n text := by
  have hrefusal : c.active.LineRefusal text s' cause := Machine.lineRefusal_of_perform hp
  obtain ⟨n, hn, hreleased, hlast⟩ := hfits.place cause
  refine ⟨n, hn, hlast, ?_, ?_, ?_, ?_⟩
  · change n.released.currentLine? = some text
    rw [hreleased]
    exact ht
  · rw [cause_outward]
    exact ((hrefusal.explains view).of_released hreleased).noteAll events
  · intro hcause
    rw [cause_outward] at hcause
    obtain rfl : cause = .returnOutsideSubroutine := hcause
    have hawaited := hrefusal.not_awaited
    cases hcallers : c.callers with
    | nil =>
        rw [hcallers] at hn
        exact ⟨(Option.some.inj hn).symm, rfl⟩
    | cons f callers =>
        -- Somebody waits for every subroutine in the chain.
        rw [hcallers] at hfits
        cases hfits with
        | called _ _ awaited _ =>
            rw [hawaited] at awaited
            cases awaited
  · intro flaw hd
    rw [cause_outward]
    exact hrefusal.of_unreadable hd

/-- A chain whose active machine has run out of lines fails on the line of the call. -/
theorem blames_of_lost (view : Console.Transcript κ) (hfits : Fits post c.active c.callers)
    (hcalls : c.OnCalls) (hbounds : c.active.pc ≤ c.active.program.size) {f : Frame}
    {callers : List Frame} (ht : c.active.currentLine? = none) (hf : c.callers = f :: callers)
    (s : Session κ) :
    ∃ n text, (adoptAll c.active (f :: callers)).Blames view
      (outward ⟨[f.caller.here], .missingReturn f.callee⟩ callers) s n text := by
  rw [OnCalls, hf] at hcalls
  rw [hf] at hfits
  obtain ⟨text, label, hline, hd⟩ := hcalls f List.mem_cons_self
  obtain ⟨n, hn, hreleased, hlast⟩ := hfits.adopted.place (.missingReturn f.callee)
  refine ⟨n, text, hn, hlast, ?_, ?_, ?_, ?_⟩
  · change n.released.currentLine? = some text
    rw [hreleased]
    exact hline
  · rw [cause_outward]
    have hend : c.active.pc = c.active.program.size :=
      Nat.le_antisymm hbounds (List.getElem?_eq_none_iff.1 ht)
    have hexplains : (f.caller.adopt f.callee c.active).Explains view text s
        (.missingReturn f.callee) :=
      ⟨⟨label, hd⟩, c.active.released, Table.find?_put_self _ _ _, hend⟩
    exact hexplains.of_released hreleased
  · intro hcause
    rw [cause_outward] at hcause
    cases hcause
  · intro flaw hflaw
    rw [hd] at hflaw
    cases hflaw

/-- **A chain that fails is blamed on a line that explains it.** -/
theorem blames_of_step (view : Console.Transcript κ) (hfits : Fits post c.active c.callers)
    (hcalls : c.OnCalls) (hbounds : c.active.pc ≤ c.active.program.size) {failure : Failure}
    {m : Machine} (hstep : c.step s = (.ended (.failed failure) m, s')) :
    ∃ n text, m.Blames view failure s' n text := by
  cases stop_of_step hstep with
  | @failed text cause s₁ ht hp =>
      rw [step_of_line ht hp] at hstep
      obtain ⟨-, rfl⟩ := Prod.mk.inj hstep
      obtain ⟨n, hblames⟩ := blames_of_line view hfits ht hp (c.settle (.error cause)).2
      exact ⟨n, text, hblames⟩
  | lost ht hf => exact blames_of_lost view hfits hcalls hbounds ht hf s'

end Chain

namespace Machine

variable {κ : Type} [Console κ]

/-- **Every failure is blamed on a line that explains it.**  Let the run of a root fail with a
location.  In the machine and the session that the run leaves, the programs of all locations but the
first are a path to a machine, and the last location is the line on which this stands.  The line
explains the cause:

* if it is a flaw, then the line has this flaw; and if the line has a flaw, then it is the cause,
  unless the console has refused something;
* if an operand is missing, then the line carries that instruction without one;
* if it is a division by zero, then the line divides by the literal zero, or by a slot of the
  machine that was never stored or holds zero;
* if a label is undefined, then the line is a jump to the label that is taken with the accumulator
  of the machine, the machine knows no such label, and the last output is the warning about it;
* if a subroutine was never declared, then the line calls it, and the machine has none of that name;
* if it did not return, then the line calls it, and it stands at the end of its program;
* if a return was outside of a subroutine, then the line is a return, the machine is the root, and
  there is no other location;
* if a program could not be loaded, then the line declares it, and its source cannot be had;
* if the input was closed or was no integer, then the line reads it, and this is what the console
  has answered last;
* and if a device has failed, then the console has refused the entry of the line, the output that it
  shows, or the line of input that it reads. -/
theorem run_failed_explained (view : Console.Transcript κ) {m m' : Machine} (hm : m.Rooted)
    {fuel : Nat} {s s' : Session κ} {failure : Failure}
    (h : m.run fuel s = some (.failed failure, m', s')) (hlocated : failure.locations ≠ []) :
    m'.isRoot = true ∧ ∃ n text, m'.Blames view failure s' n text := by
  obtain ⟨c, s₁, ending, s₂, hreach, hstep, hclose⟩ := run_eq_some_iff.1 ⟨fuel, h⟩
  have hroot : m'.isRoot = true := by
    rw [isRoot, hreach.parent hstep]
    exact Option.isNone_iff_eq_none.2 hm.parent
  refine ⟨hroot, ?_⟩
  cases ending with
  | finished => cases hclose
  | returned => cases hclose
  | halted =>
      -- A refused sheet is a failure without a location.
      rcases close_halted hroot hclose with ⟨-, hhalted⟩ | ⟨fault, -, hfailed⟩
      · cases hhalted
      · cases hfailed
        exact absurd rfl hlocated
  | failed failure =>
      cases hclose
      exact Chain.blames_of_step view (hreach.fits hm.tidy.fits_start)
        (hreach.onCalls (Chain.onCalls_start m)) hreach.inBounds hstep

/-- A root that calls a subroutine, which jumps to a label that no line carries. -/
def strayer : Machine := ofProgram (.ofLines "root" ["INC leaf", "RUN leaf", "HALT"])

/-- Its session. -/
def strayerSession : Session Buffer := .inMemory [("leaf", "SUBTRACT 1\nJINEG gone\nRET")] []

/-- The jump of the subroutine explains the failure: its accumulator is negative, it knows no such
label, and the last output is the warning. -/
theorem run_failed_explained_strayer :
    ∃ failure m' s' n text, strayer.run 20 strayerSession = some (.failed failure, m', s') ∧
      failure = ⟨[⟨"root", 1, "RUN leaf"⟩, ⟨"leaf", 1, "JINEG gone"⟩], .undefinedLabel "gone"⟩ ∧
      m'.at? ["leaf"] = some n ∧ n.here = ⟨"leaf", 1, "JINEG gone"⟩ ∧
      n.currentLine? = some text ∧
      n.Explains Buffer.steady.toTranscript text s' (.undefinedLabel "gone") := by
  have hrun : (strayer.run 20 strayerSession).map (fun answer => answer.1.failure?) =
      some (some ⟨[⟨"root", 1, "RUN leaf"⟩, ⟨"leaf", 1, "JINEG gone"⟩],
        .undefinedLabel "gone"⟩) := by decide +kernel
  obtain ⟨⟨ending, m', s'⟩, h, hfailure⟩ := Option.map_eq_some_iff.1 hrun
  obtain rfl := Ending.eq_of_failure? hfailure
  obtain ⟨-, n, text, hblames⟩ := run_failed_explained Buffer.steady.toTranscript
    (rooted_ofProgram _) h nofun
  exact ⟨_, m', s', n, text, h, rfl, hblames.place, (Option.some.inj hblames.innermost).symm,
    hblames.line, hblames.explains⟩

end Machine

end AccMachine
