/-
**The layout of a program does not matter.**

A program that is laid out more loosely, with a blank line more or with a label on a line of its
own, does the same as before.  Its run takes one step more whenever it comes to the line that does
nothing; otherwise the two runs go on together, line by line, under indices that correspond.

Main definitions:

* `Chain.idleRank` — a chain whose root stands on the idle line has a step to take alone.

Main results:

* `Chain.follows_idle`, `Chain.follows_same` — how the two runs go on, on the idle line and
  elsewhere;
* `Chain.loosened_simulation` — **the looser program simulates the other one**;
* `Machine.run_loosened` — **the two runs end together, in the same way and in the same place**.
-/

import AccMachine.Proofs.FailureTrail
import AccMachine.Proofs.LoosenedProgram
import AccMachine.Proofs.Partners
import AccMachine.Proofs.TraceModes

set_option relaxedAutoImplicit false
set_option autoImplicit false

namespace AccMachine

theorem Session.Unlogged.symm {κ : Type} {s t : Session κ} (h : Session.Unlogged s t) :
    Session.Unlogged t s :=
  ⟨h.shelf.symm, h.files.symm, h.console.symm, h.off.symm⟩

namespace Chain

variable {κ : Type} [Console κ] {k : Nat} {p p' : Program} {a b : Machine} {s t : Session κ}

/-- The chains of the two runs that belong together; the looser program is that of the first. -/
abbrev Loose (k : Nat) (p p' : Program) : Chain → Session κ → Chain → Session κ → Prop :=
  Paired p' p (fun _ => True) (Program.origin k) Session.Unlogged

/-- The answers of the two runs that belong together. -/
abbrev LooseAnswer (k : Nat) (p p' : Program) : Answer κ → Answer κ → Prop :=
  SameAnswer p' p (fun _ => True) (Program.origin k) id Session.Unlogged

/-- How often the first chain can take a step alone: once, if its root stands on the idle line. -/
def idleRank (k : Nat) (c : Chain) : Nat := if c.callers = [] ∧ c.active.pc = k then 1 else 0

/-- On the idle line, the first run takes a step alone. -/
theorem follows_idle (h : Program.Stretched k p p') (hs : Session.Unlogged s t)
    (hm : a.Partners p' p (fun _ => True) b) (hpc : b.pc = Program.origin k a.pc)
    (hk : a.pc = k) :
    Follows (Loose k p p') (LooseAnswer k p p') (idleRank k) ⟨a, []⟩ s ⟨b, []⟩ t := by
  obtain ⟨text, htext, hidle⟩ := h.idle
  have hline : a.currentLine? = some text := by
    rw [Machine.currentLine?, hm.program.1, hk, htext]
  have hperform : s.perform (a.line text) = (.ok (a, .next), s) := by
    rw [Machine.perform_line_off hs.off.1, a.obeyWords_eq, hidle]
    rfl
  have hstep : step ⟨a, []⟩ s = (.running ⟨a.advance, []⟩, s) :=
    step_of_line (c := ⟨a, []⟩) hline hperform
  have hadvanced := hm.goto (a.pc + 1) b.pc
  have hstay : b.goto b.pc = b := by
    cases b
    rfl
  rw [hstay] at hadvanced
  refine .alone hstep ?_ (.outside hs hadvanced ?_)
  · have hafter : idleRank k ⟨a.advance, []⟩ = 0 := if_neg fun hr => by
      have hpc' : a.pc + 1 = k := hr.2
      omega
    have hbefore : idleRank k ⟨a, []⟩ = 1 := if_pos ⟨rfl, hk⟩
    omega
  · change b.pc = Program.origin k (a.pc + 1)
    rw [hpc, hk, Program.origin_of_le (Nat.le_refl k), Program.origin_succ_of_le (Nat.le_refl k)]

/-- On any other line, both runs do the same. -/
theorem follows_same (h : Program.Stretched k p p') (hs : Session.Unlogged s t)
    (hm : a.Partners p' p (fun _ => True) b) (hpc : b.pc = Program.origin k a.pc)
    (hk : a.pc ≠ k) :
    Follows (Loose k p p') (LooseAnswer k p p') (idleRank k) ⟨a, []⟩ s ⟨b, []⟩ t := by
  have hnext : Program.origin k (a.pc + 1) = Program.origin k a.pc + 1 :=
    Program.origin_succ_iff.2 hk
  have hlines := h.lines a.pc hk
  have hline : a.currentLine? = p'.line? a.pc := by rw [Machine.currentLine?, hm.program.1]
  have hline' : b.currentLine? = p.line? (Program.origin k a.pc) := by
    rw [Machine.currentLine?, hm.program.2, hpc]
  cases ht' : p.line? (Program.origin k a.pc) with
  | none =>
      rw [ht', Option.map_none, Option.map_eq_none_iff] at hlines
      exact follows_end hm hpc hnext hs (hline.trans hlines) (hline'.trans ht')
  | some text' =>
      rw [ht', Option.map_some, Option.map_eq_some_iff] at hlines
      obtain ⟨text, htext, hdoing⟩ := hlines
      have hagree : Dialogue.Agree
          (Machine.Concurs (fun _ => True) (fun _ => True) (Program.origin k) a b)
          (a.line text') (b.line text') :=
        Machine.agree_line_of_shared (hm.shared h.labels) (fun _ _ => trivial)
          fun _ _ _ _ _ => trivial
      obtain ⟨hresult, hs'⟩ := Session.perform_agree Session.unlogged_alike hagree hs
      -- Without a trace, only what the line does matters.
      have hperform : s.perform (a.line text') = s.perform (a.line text) := by
        rw [Machine.perform_line_off hs.off.1, Machine.perform_line_off hs.off.1,
          a.obeyWords_congr hdoing]
      rw [hperform] at hresult hs'
      exact follows_line hm hpc hnext (hline.trans htext) (hline'.trans ht')
        (hresult.matching fun _ _ => rfl) (Session.noteAll_alike Session.unlogged_alike hs')

/-- **The looser program simulates the other one.** -/
theorem loosened_simulation (h : Program.Stretched k p p') :
    Simulation (Loose (κ := κ) k p p') (LooseAnswer k p p') (idleRank k) := by
  intro c s c' t hpaired
  cases hpaired with
  | @outside a b _ _ hs hm hpc =>
      by_cases hk : a.pc = k
      · exact follows_idle h hs hm hpc hk
      · exact follows_same h hs hm hpc hk
  | inside c name hs hm hpc hnext =>
      exact follows_below Session.unlogged_alike c name hs hm hpc hnext rfl

end Chain

namespace Machine

variable {κ : Type} [Console κ]

/-- **The layout of a program does not matter.**  Let a program be laid out more loosely: a blank
line is put in at some index, or the instruction there loses its label to a line in front of it.
Two roots, one for each of the programs, have the same accumulator, slots and subroutines.  They run
without a trace, in sessions that differ in their log at most, on any console.  One run ends if and
only if the other does.  They then end in the same way: if they failed, it was with the same cause,
in the same place below the root, and each root stands on its line.  The accumulators, the slots and
the subroutines that are left are the same, and so is the state of the console; and the index of the
line on which the second root stands is that of the first one, moved along with its line. -/
theorem run_loosened {k : Nat} {p p' : Program} (h : Program.Loosened k p p') {m n : Machine}
    (hm : m.Partners p p' (fun _ => True) n) {s t : Session κ} (hs : Session.Unlogged s t) :
    ((∃ fuel answer, m.run fuel s = some answer) ↔ ∃ fuel answer, n.run fuel t = some answer) ∧
    ∀ fuel fuel' ending ending' m' n' s' t', m.run fuel s = some (ending, m', s') →
      n.run fuel' t = some (ending', n', t') →
      Ending.Matches id m' n' ending ending' ∧ m'.Partners p p' (fun _ => True) n' ∧
        n'.pc = Program.moved k m'.pc ∧ Session.Unlogged s' t' := by
  have hstart : Chain.Loose k p p' (Chain.start n) t (Chain.start m) s :=
    .outside hs.symm (hm.symm.goto 0 0) (Program.origin_of_le (Nat.zero_le k)).symm
  have hsim : Chain.Simulation (Chain.Loose (κ := κ) k p p') (Chain.LooseAnswer k p p')
      (Chain.idleRank k) := Chain.loosened_simulation h.stretched
  obtain ⟨hends, hanswers⟩ := hsim.ends_together hstart
  simp only [run_of_off hs.off.1, run_of_off hs.off.2]
  refine ⟨hends.symm, ?_⟩
  intro fuel fuel' ending ending' m' n' s' t' hrun hrun'
  have hanswer := hanswers fuel' fuel _ _ hrun' hrun
  have hpc : m'.pc = Program.origin k n'.pc := hanswer.pc
  have hmoved : n'.pc = Program.moved k m'.pc := by
    rw [hpc, Program.moved_origin (Program.origin_succ_iff.1 hanswer.next)]
  exact ⟨hanswer.ending.symm, hanswer.machines.symm, hmoved, hanswer.sessions.symm⟩

/-- A program that counts down with a subroutine that shows every number, and fails at the end. -/
def countdown : Program :=
  .ofLines "root" ["INC leaf", "LOAD 2", "again SUBTRACT 1", "RUN leaf", "JIZERO done",
    "JUMP again", "done DIVIDE x"]

/-- The same with the last label on a line of its own. -/
def looseCountdown : Program :=
  .ofLines "root" ["INC leaf", "LOAD 2", "again SUBTRACT 1", "RUN leaf", "JIZERO done",
    "JUMP again", "done", "DIVIDE x"]

/-- Both runs fail in the division, which has moved by one line. -/
theorem run_loosened_countdown :
    ∃ fuel m' n' s' t',
      (ofProgram countdown).run 40 (.inMemory [("leaf", "OUT\nRET")] []) =
        some (.failed ⟨[⟨"root", 6, "done DIVIDE x"⟩], .divisionByZero⟩, m', s') ∧
      (ofProgram looseCountdown).run fuel (.inMemory [("leaf", "OUT\nRET")] []) =
        some (.failed ⟨[⟨"root", 7, "DIVIDE x"⟩], .divisionByZero⟩, n', t') ∧
      n'.accumulator = m'.accumulator ∧
      s'.console.outputs.toList = [.value 1, .value 0, missingSlot "x"] ∧
      t'.console.outputs.toList = [.value 1, .value 0, missingSlot "x"] := by
  have hdecoded : Line.decode (Text.wordsOf "done DIVIDE x") =
      .ok (.instruction ⟨some "done", .divide, some "x"⟩) := by decide +kernel
  have hanchor : Text.wordsOf "done" = ["done"] := by decide +kernel
  have hbare : Text.wordsOf "DIVIDE x" = Instruction.tokens ⟨none, .divide, some "x"⟩ := by
    decide +kernel
  have hloosened : Program.Loosened 6 countdown looseCountdown :=
    .anchored rfl rfl hdecoded hanchor hbare rfl
  have hrun : ((ofProgram countdown).run 40 (.inMemory [("leaf", "OUT\nRET")] [])).map
      (fun answer => (answer.1.failure?, answer.2.2.console.outputs.toList)) =
        some (some ⟨[⟨"root", 6, "done DIVIDE x"⟩], .divisionByZero⟩,
          [.value 1, .value 0, missingSlot "x"]) := by decide +kernel
  obtain ⟨⟨ending, m', s'⟩, h, hanswer⟩ := Option.map_eq_some_iff.1 hrun
  obtain ⟨hfailure, houtputs⟩ := Prod.mk.inj hanswer
  obtain rfl := Ending.eq_of_failure? hfailure
  have hpartners : (ofProgram countdown).Partners countdown looseCountdown (fun _ => True)
      (ofProgram looseCountdown) := .ofProgram rfl
  obtain ⟨hends, hsame⟩ := run_loosened hloosened hpartners
    (.refl (s := .inMemory [("leaf", "OUT\nRET")] []) rfl)
  obtain ⟨fuel, ⟨ending', n', t'⟩, h'⟩ := hends.1 ⟨40, _, h⟩
  obtain ⟨hmatches, hleft, hpc, hsessions⟩ := hsame 40 fuel _ _ m' n' s' t' h h'
  obtain ⟨hlocation, rfl⟩ := hmatches.of_single
  have hline : m'.pc = 6 := (congrArg Location.line hlocation).symm
  have hhere : n'.here = ⟨"root", 7, "DIVIDE x"⟩ := by
    rw [here, currentLine?, hleft.program.2, hpc, hline]
    decide +kernel
  rw [hhere] at h'
  exact ⟨fuel, m', n', s', t', h, h', hleft.accumulator, houtputs, by
    rw [hsessions.console, houtputs]⟩

end Machine

end AccMachine
