/-
**Only the words of a line matter.**

The text of a line is looked at in three places: a label is resolved from its first word, the line
is traced and executed word by word, and a failure keeps the text without the blank characters at
its ends.  So a program may be written with other blank characters between its words, or around
them, and a machine does the same with it, line by line; all that differs is the text that a failure
shows of the root's own line.

Main definitions:

* `Program.SameWords` — two programs have the same words, line by line;
* `Machine.reworded` — a machine with another program;
* `Ending.retold` — an ending whose failure shows another text of the root's line;
* `Chain.Reworded` — two chains that differ in the program of their outermost machine.

Main results:

* `Program.SameWords.labels` — the labels of such programs are the same;
* `Machine.line_reworded` — **a line does the same to a machine with the other program**;
* `Chain.Reworded.step`, `Chain.Reworded.runFor` — so does every step, and every number of steps;
* `Machine.run_reworded` — **a run differs only in the text of the root's line in a failure**.
-/

import AccMachine.Proofs.FailureTrail
import AccMachine.Proofs.UnreadSlot

set_option relaxedAutoImplicit false
set_option autoImplicit false

namespace AccMachine

/-! ### Programs with the same words -/

namespace Program

/-- The programs have the same reference and the same words, line by line. -/
structure SameWords (p p' : Program) : Prop where
  reference : p'.reference = p.reference
  words : p'.lines.map Text.wordsOf = p.lines.map Text.wordsOf

theorem resolveFrom_congr {lines lines' : List String}
    (h : lines'.map Text.wordsOf = lines.map Text.wordsOf) (i : Nat) (table : Table Nat) :
    resolveFrom i table lines' = resolveFrom i table lines := by
  induction lines generalizing i table lines' with
  | nil =>
      obtain rfl : lines' = [] := List.map_eq_nil_iff.1 h
      rfl
  | cons text rest ih =>
      cases lines' with
      | nil => cases h
      | cons text' rest' =>
          obtain ⟨hwords, hrest⟩ := List.cons.inj h
          have hlabel : Line.labelOf? text' = Line.labelOf? text := by
            rw [Line.labelOf?, Line.labelOf?, hwords]
          unfold resolveFrom
          rw [hlabel]
          split <;> exact ih hrest _ _

namespace SameWords

variable {p p' : Program}

/-- The labels of such programs are the same. -/
theorem labels (h : p.SameWords p') : p'.labels = p.labels := by
  rw [p'.labels_eq, p.labels_eq]
  exact resolveFrom_congr h.words 0 _

theorem label? (h : p.SameWords p') (label : String) : p'.label? label = p.label? label := by
  rw [Program.label?, Program.label?, h.labels]

/-- Where the one has a line, the other one has a line with the same words. -/
theorem line? (h : p.SameWords p') (i : Nat) :
    (p'.line? i).map Text.wordsOf = (p.line? i).map Text.wordsOf := by
  rw [Program.line?, Program.line?, ← List.getElem?_map, ← List.getElem?_map, h.words]

end SameWords

end Program

/-! ### Machines with another program -/

/-- The location with another text. -/
def Location.retold (text : String) (l : Location) : Location := { l with text := text }

/-- The failure with another text in its outermost location, if it has a location. -/
def Failure.retold (text : String) (failure : Failure) : Failure where
  locations :=
    match failure.locations with
    | [] => []
    | l :: inner => l.retold text :: inner
  cause := failure.cause

/-- The ending with another text in the outermost location of its failure. -/
def Ending.retold (text : String) : Ending → Ending
  | failed failure => failed (failure.retold text)
  | ending => ending

namespace Machine

/-- The machine with another program, everything else as it is. -/
def reworded (p : Program) (m : Machine) : Machine := { m with program := p }

variable {p : Program} {m : Machine}

/-- The line that a machine stands on is the same but for its text. -/
theorem here_reworded (h : m.program.SameWords p) :
    (m.reworded p).here = m.here.retold (m.reworded p).here.text := by
  have hreference : (m.reworded p).here.program = m.here.program := h.reference
  rw [Location.retold, ← hreference]
  rfl

/-- What a line leads to, with another program in the machine. -/
def rewordedResult (p : Program) (result : Machine × Flow) : Machine × Flow :=
  (result.1.reworded p, result.2)

theorem jumpIf_reworded (h : m.program.SameWords p) (taken : Bool) (label : String) :
    (m.reworded p).jumpIf taken label =
      (m.jumpIf taken label).bind fun result => .done (rewordedResult p result) := by
  have hfind : (m.reworded p).findLabel label = m.findLabel label := by
    have hlabel : (m.reworded p).program.label? label = m.program.label? label := h.label? label
    rw [findLabel, findLabel, hlabel]
  simp only [jumpIf_def, hfind, Dialogue.bind_eq, Dialogue.bind_assoc]
  congr 1
  funext target?
  cases taken with
  | false => rfl
  | true => cases target? <;> rfl

/-- **An instruction does the same to a machine with another program**, if the labels and the
reference are the same. -/
theorem execute_reworded (h : m.program.SameWords p) (mnemonic : Mnemonic) (operand : String) :
    (m.reworded p).execute mnemonic operand =
      (m.execute mnemonic operand).bind fun result => .done (rewordedResult p result) := by
  have harithmetic : ∀ op : Int64 → Int64 → Int64, (m.reworded p).arithmetic op operand =
      (m.arithmetic op operand).bind fun result => .done (rewordedResult p result) := by
    intro op
    simp only [arithmetic_def, Dialogue.bind_eq, Dialogue.bind_assoc]
    rfl
  rw [execute_def, execute_def]
  cases mnemonic with
  | jump | jumpNegative | jumpZero => exact jumpIf_reworded h _ operand
  | add | subtract | multiply => exact harithmetic _
  | divide =>
      simp only [division_def, Dialogue.bind_eq, Dialogue.bind_assoc]
      change (m.checkedValue operand).bind _ = (m.checkedValue operand).bind _
      congr 1
      funext value
      split <;> rfl
  | input =>
      simp only [readNumber_def, Dialogue.ask_bind, Dialogue.bind]
      congr 1
      funext line
      cases line with
      | none => rfl
      | some text =>
          dsimp only
          split <;> rfl
  | declare =>
      have hchild : ∀ program, (m.reworded p).subroutine program = m.subroutine program := by
        intro program
        rw [subroutine, subroutine, reworded, h.reference]
      have hreference : (m.reworded p).program.reference = m.program.reference := h.reference
      simp only [declareSubroutine_def, hchild, hreference, Dialogue.bind_eq, Dialogue.fetch_bind,
        Dialogue.log_bind, Dialogue.bind]
      rfl
  | run =>
      have hfind : (m.reworded p).subroutines = m.subroutines := rfl
      simp only [callSubroutine_def, hfind]
      cases m.subroutines.find? operand <;> rfl
  | ret =>
      have hawaited : (m.reworded p).awaited = m.awaited := rfl
      simp only [returnToCaller_def, hawaited]
      split <;> rfl
  | load | store | xor | or | and | andNot | output | outputChar | halt => rfl

/-- **A line does the same to a machine with another program** where the line has the same words. -/
theorem line_reworded (h : m.program.SameWords p) {text text' : String}
    (hwords : Text.wordsOf text' = Text.wordsOf text) :
    (m.reworded p).line text' =
      (m.line text).bind fun result => .done (rewordedResult p result) := by
  rw [line_def, line_def, hwords]
  simp only [Dialogue.bind]
  congr 1
  rw [obeyWords_def, obeyWords_def]
  split
  · rfl
  · rfl
  · rfl
  · next i _ =>
      rw [obey_def, obey_def]
      split
      · exact execute_reworded h _ _
      · split
        · rfl
        · exact execute_reworded h _ _

end Machine

/-! ### Chains with another program at the root -/

namespace Chain

/-- The chains differ in their outermost machine, which has the program `p` in the one and `p'` in
the other. -/
inductive Reworded (p p' : Program) : Chain → Chain → Prop
  | outside {m : Machine} (hm : m.program = p) : Reworded p p' ⟨m, []⟩ ⟨m.reworded p', []⟩
  | inside (c : Chain) {m : Machine} (name : String) (hm : m.program = p) :
      Reworded p p' (c.onTopOf [⟨m, name⟩]) (c.onTopOf [⟨m.reworded p', name⟩])

variable {κ : Type}

/-- The answer with another program in the machine that is left, and with its line in the
failure. -/
def retold (p : Program) : Answer κ → Answer κ
  | (ending, m, s) => (ending.retold (m.reworded p).here.text, m.reworded p, s)

/-- `Beside p p' x y`: the steps of two such chains came to `x` and `y`, and these are the same but
for the program at the root and the text of its line. -/
inductive Beside (p p' : Program) : Progress × Session κ → Progress × Session κ → Prop
  | running {c c' : Chain} (h : Reworded p p' c c') (s : Session κ) :
      Beside p p' (.running c, s) (.running c', s)
  | ended (ending : Ending) {m : Machine} (hm : m.program = p)
      (hhere : ∀ failure, ending = .failed failure → failure.locations.head? = some m.here)
      (s : Session κ) :
      Beside p p' (.ended ending m, s)
        (.ended (ending.retold (m.reworded p').here.text) (m.reworded p'), s)

variable {p p' : Program}

theorem Beside.failed (hp : p.SameWords p') {m : Machine} (hm : m.program = p) (failure : Failure)
    (s : Session κ) :
    Beside p p' (.ended (.failed (failure.within m.here)) m, s)
      (.ended (.failed (failure.within (m.reworded p').here)) (m.reworded p'), s) := by
  subst hm
  rw [Machine.here_reworded hp]
  refine .ended _ rfl ?_ s
  rintro _ ⟨⟩
  rfl

/-- An ending that goes outwards to the root does so in the same way. -/
theorem beside_deliver (hp : p.SameWords p') {m : Machine} (hm : m.program = p) (name : String)
    (ending : Ending) (callee : Machine) (s : Session κ) :
    Beside p p'
      ((deliver ending callee [⟨m, name⟩]).1, s.noteAll (deliver ending callee [⟨m, name⟩]).2)
      ((deliver ending callee [⟨m.reworded p', name⟩]).1,
        s.noteAll (deliver ending callee [⟨m.reworded p', name⟩]).2) := by
  have hadopt : (m.adopt name callee).program = p := hm
  cases ending with
  | finished => exact .failed hp hadopt ⟨[], .missingReturn name⟩ _
  | halted => exact .ended .halted hadopt nofun _
  | returned => exact .running (.outside (by exact hm)) _
  | failed failure => exact .failed hp hadopt failure _

variable [Console κ]

/-- **A step of such chains comes to the same.** -/
theorem Reworded.step (hp : p.SameWords p') {c c' : Chain} (h : Reworded p p' c c')
    (s : Session κ) : Beside p p' (c.step s) (c'.step s) := by
  cases h with
  | inside c name hm =>
      rw [step_onTopOf, step_onTopOf]
      rcases c.step s with ⟨c₁ | ⟨ending, callee⟩, s₁⟩
      · exact .running (.inside c₁ name hm) s₁
      · exact beside_deliver hp hm name ending callee s₁
  | @outside m hm =>
      subst hm
      have hline := hp.line? m.pc
      cases ht : m.currentLine? with
      | none =>
          have ht' : (m.reworded p').currentLine? = none := by
            rw [Machine.currentLine?] at ht
            rw [ht] at hline
            exact Option.map_eq_none_iff.1 hline
          rw [step_of_none (c := ⟨m, []⟩) ht, step_of_none (c := ⟨m.reworded p', []⟩) ht']
          exact .ended .finished rfl (fun _ h => by cases h) s
      | some text =>
          have hline' : ((m.reworded p').currentLine?).map Text.wordsOf
              = some (Text.wordsOf text) := by
            rw [Machine.currentLine?] at ht
            rw [ht] at hline
            exact hline
          obtain ⟨text', ht', hwords⟩ := Option.map_eq_some_iff.1 hline'
          have hperform := s.perform_bind (m.line text) fun result =>
            .done (Machine.rewordedResult p' result)
          rw [← Machine.line_reworded hp hwords] at hperform
          rcases hs : s.perform (m.line text) with ⟨cause | ⟨m₁, flow⟩, s₁⟩ <;>
            rw [hs] at hperform <;>
            rw [step_of_line (c := ⟨m, []⟩) ht hs,
              step_of_line (c := ⟨m.reworded p', []⟩) ht' hperform]
          · exact .failed hp rfl ⟨[], cause⟩ _
          · have hm₁ : m₁.program = m.program := (Machine.perform_line hs).kept.1
            cases flow with
            | next => exact .running (.outside (m := m₁.advance) hm₁) _
            | jump target => exact .running (.outside (m := m₁.goto target) hm₁) _
            | call name callee => exact .running (.inside ⟨callee, []⟩ name hm₁) _
            | ret => exact .ended .returned hm₁ (fun _ h => by cases h) _
            | halt => exact .ended .halted hm₁ (fun _ h => by cases h) _

/-- **Such chains run alike**, for any number of steps.  The machine that is left has the program
still, and the failure of the run, if there is one, begins with the line on which it stands. -/
theorem Reworded.runFor (hp : p.SameWords p') (fuel : Nat) {c c' : Chain} (h : Reworded p p' c c')
    (s : Session κ) :
    c'.runFor fuel s = (c.runFor fuel s).map (retold p') ∧
      ∀ ending m s', c.runFor fuel s = some (ending, m, s') →
        m.program = p ∧
          ∀ failure, ending = .failed failure → failure.locations.head? = some m.here := by
  induction fuel generalizing c c' s with
  | zero => exact ⟨rfl, nofun⟩
  | succ fuel ih =>
      rw [runFor_succ_eq, runFor_succ_eq]
      have hstep := h.step hp s
      generalize c.step s = x at hstep
      generalize c'.step s = y at hstep
      cases hstep with
      | running h₁ s₁ => exact ih h₁ s₁
      | ended ending hm hhere s₁ =>
          refine ⟨rfl, ?_⟩
          intro ending' m' s' hanswer
          cases hanswer
          exact ⟨hm, hhere⟩

end Chain

namespace Machine

variable {κ : Type} [Console κ]

/-! ### Whole runs -/

omit [Console κ] in
/-- A run is closed in the same way, whatever text its failure shows. -/
theorem close_reworded (p : Program) (m : Machine) (s : Session κ) (ending : Ending)
    (text : String) :
    (m.reworded p).close s (ending.retold text) =
      ((m.close s ending).1.retold text, (m.close s ending).2) := by
  cases ending with
  | finished | returned | failed _ => rfl
  | halted =>
      change (m.reworded p).close s .halted = _
      have hroot : (m.reworded p).isRoot = m.isRoot := rfl
      simp only [close, hroot]
      split
      · rcases s.writeSheet with ⟨_ | _, s'⟩ <;> rfl
      · rfl

/-- **Only the words of a line matter.**  Let a machine in any state be given a program with the
same reference and the same words, line by line.  The labels are the same.  The machine then runs,
in any session, exactly as it would have with its own program: after the same number of lines it
comes to the same end, with the same session and, but for the program, in the same state.  Only if
the run fails with a location is there a difference, and then in the text of the first location,
which is that of the line on which this machine stands. -/
theorem run_reworded {m : Machine} {p : Program} (h : m.program.SameWords p) (s : Session κ) :
    p.labels = m.program.labels ∧
    (∀ fuel, (m.reworded p).run fuel s = (m.run fuel s).map (Chain.retold p)) ∧
    ∀ fuel ending m' s', m.run fuel s = some (ending, m', s') →
      m'.program = m.program ∧
        ∀ failure, ending = .failed failure → ∀ l ∈ failure.locations.head?, l = m'.here := by
  have hstart : Chain.Reworded m.program p (Chain.start m) (Chain.start (m.reworded p)) :=
    .outside (m := m.goto 0) rfl
  refine ⟨h.labels, ?_, ?_⟩
  · intro fuel
    rw [run_def, run_def, (hstart.runFor h fuel s).1]
    cases (Chain.start m).runFor fuel s with
    | none => rfl
    | some answer =>
        obtain ⟨ending, m', s'⟩ := answer
        simp only [Option.map_some, Chain.retold, close_reworded]
  · intro fuel ending' m' s' hrun
    obtain ⟨ending, s₁, hrunFor, hclose⟩ := run_iff_runFor.1 hrun
    obtain ⟨hprogram, hhere⟩ := (hstart.runFor h fuel s).2 ending m' s₁ hrunFor
    refine ⟨hprogram, ?_⟩
    rintro failure rfl l hl
    rcases ending with _ | _ | _ | failure'
    · cases hclose
    · -- The sheet of a root that halted was refused; such a failure has no location.
      simp only [close] at hclose
      split at hclose
      · split at hclose
        · cases hclose
        · cases hclose
          cases hl
      · cases hclose
    · cases hclose
    · cases hclose
      rw [hhere failure rfl] at hl
      exact (Option.some.inj hl).symm

/-- A root whose program says a number and then divides by zero. -/
def faltering : Machine := ofProgram (.ofLines "root" ["LOAD 7", "OUT", "again DIVIDE 0"])

/-- The same program with other blank characters. -/
def falteringSpaced : Program := .ofLines "root" ["\tLOAD  7", " OUT ", "  again\tDIVIDE   0\r"]

/-- Both runs say the number and fail on the last line, each with its own text of it. -/
theorem run_reworded_faltering :
    falteringSpaced.labels = faltering.program.labels ∧ ∃ m s,
      faltering.run 9 (.inMemory [] []) =
        some (.failed ⟨[⟨"root", 2, "again DIVIDE 0"⟩], .divisionByZero⟩, m, s) ∧
      (faltering.reworded falteringSpaced).run 9 (.inMemory [] []) =
        some (.failed ⟨[⟨"root", 2, "again\tDIVIDE   0"⟩], .divisionByZero⟩,
          m.reworded falteringSpaced, s) ∧
      s.console.outputs.toList = [.value 7] := by
  have hwords : faltering.program.SameWords falteringSpaced := ⟨rfl, by decide +kernel⟩
  have hrun : (faltering.run 9 (.inMemory [] [])).map (fun answer =>
        (answer.1.failure?, answer.2.1.pc, answer.2.2.console.outputs.toList)) =
      some (some ⟨[⟨"root", 2, "again DIVIDE 0"⟩], .divisionByZero⟩, 2, [.value 7]) := by
    decide +kernel
  obtain ⟨⟨ending, m, s⟩, h, hanswer⟩ := Option.map_eq_some_iff.1 hrun
  simp only [Prod.mk.injEq] at hanswer
  obtain ⟨hfailure, hpc, houtputs⟩ := hanswer
  obtain rfl := Ending.eq_of_failure? hfailure
  obtain ⟨hlabels, hsame, -⟩ := run_reworded hwords (.inMemory [] [])
  refine ⟨hlabels, m, s, h, ?_, houtputs⟩
  have htext : (m.reworded falteringSpaced).here.text = "again\tDIVIDE   0" := by
    change Text.trimmed ((falteringSpaced.line? m.pc).getD "") = _
    rw [hpc]
    decide +kernel
  rw [hsame 9, h, Option.map_some, Chain.retold, htext]
  rfl

end Machine

end AccMachine
