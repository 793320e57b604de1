/-
**The names of labels do not matter.**

A program whose labels are renamed does the same as before: its lines look up new labels, and these
lead to the lines that the old ones led to.  Only where a label leads to no line, its name is told:
in the warning about it, and in the failure of a jump to it.  There the new name takes the place of
the old one.  That is so for what the root itself says and for its own failures; the subroutines
that it calls are programs of their own, whose labels were not renamed.

Main definitions:

* `Cause.relabel`, `Output.Relabelled` — a cause, and what is said, with the label renamed;
* `Session.Told` — the sessions of two runs of which the second one said the same with the labels of
  the root renamed.

Main results:

* `Machine.perform_relabelled` — **a renamed line does the same**, and names the new label;
* `Chain.renamed_simulation` — the run of the renamed program goes on in step;
* `Machine.run_relabelled` — **the two runs end together**, in the same way and in the same place;
* `Machine.run_relabelled_foreign` — what a subroutine says is not renamed.
-/

import AccMachine.Proofs.FailureTrail
import AccMachine.Proofs.Halting
import AccMachine.Proofs.JumpTargets
import AccMachine.Proofs.Partners
import AccMachine.Proofs.RenamedLabels
import AccMachine.Proofs.Sayings
import AccMachine.Proofs.SheetRecord
import AccMachine.Proofs.TraceModes
import AccMachine.Proofs.Voices

set_option relaxedAutoImplicit false
set_option autoImplicit false

namespace AccMachine

/-! ### Labels that are named -/

/-- The cause with its label renamed, if it names one. -/
def Cause.relabel (r : String → String) : Cause → Cause
  | undefinedLabel label => undefinedLabel (r label)
  | cause => cause

theorem Cause.relabel_of_ne {r : String → String} {cause : Cause}
    (h : ∀ label, cause ≠ undefinedLabel label) : cause.relabel r = cause := by
  cases cause with
  | undefinedLabel label => exact absurd rfl (h label)
  | _ => rfl

/-- `Output.Relabelled r (own, o) o'`: if it is the root that says it, a warning about a label names
the new label in `o'`.  Any other output is the same. -/
structure Output.Relabelled (r : String → String) (saying : Bool × Output) (o' : Output) :
    Prop where
  renamed : ∀ label, saying.1 = true → saying.2 = Machine.missingLabel label →
    o' = Machine.missingLabel (r label)
  same : (saying.1 = true → ∀ label, saying.2 ≠ Machine.missingLabel label) → o' = saying.2

theorem Output.Relabelled.foreign (r : String → String) (o : Output) :
    Output.Relabelled r (false, o) o :=
  ⟨nofun, fun _ => rfl⟩

theorem Output.Relabelled.of_ne {r : String → String} {own : Bool} {o : Output}
    (h : ∀ label, o ≠ Machine.missingLabel label) : Output.Relabelled r (own, o) o :=
  ⟨fun label _ heq => absurd heq (h label), fun _ => rfl⟩

theorem Output.Relabelled.warning (r : String → String) (label : String) :
    Output.Relabelled r (true, Machine.missingLabel label) (Machine.missingLabel (r label)) := by
  refine ⟨?_, fun hno => absurd rfl (hno rfl label)⟩
  intro label' _ heq
  rw [Machine.missingLabel_injective heq]

/-- What was said tells what is said with the label renamed. -/
theorem Output.Relabelled.rightUnique (r : String → String) :
    Relator.RightUnique (Output.Relabelled r) := by
  intro saying o o' h h'
  by_cases hwarns : saying.1 = true ∧ ∃ label, saying.2 = Machine.missingLabel label
  · obtain ⟨hown, label, heq⟩ := hwarns
    rw [h.renamed label hown heq, h'.renamed label hown heq]
  · have hno : saying.1 = true → ∀ label, saying.2 ≠ Machine.missingLabel label :=
      fun hown label heq => hwarns ⟨hown, label, heq⟩
    rw [h.same hno, h'.same hno]

/-! ### Lines that name a label -/

namespace Machine

variable {m : Machine} {text operand : String} {i : Instruction}

/-- An instruction that looks up a label has it for an operand. -/
theorem OperandText.jumpsTo (h : OperandText i operand)
    (hd : Line.decode (Text.wordsOf text) = .ok (.instruction i))
    (hjumps : i.mnemonic.jumps = true) : Line.JumpsTo text operand := by
  rcases h with ho | ⟨-, ht, -⟩
  · exact ⟨i.mnemonic, hjumps, by rw [Line.doing?_of_instruction hd, ho]⟩
  · rw [Mnemonic.takesOperand_of_jumps hjumps] at ht
    cases ht

/-- A line that warns about a label looks it up. -/
theorem LineSays.jumpsTo {label : String} (h : m.LineSays text (missingLabel label)) :
    Line.JumpsTo text label := by
  obtain ⟨i, operand, hd, ho, htells⟩ := h
  have hto : i.mnemonic.jumps = true → missingLabel label = missingLabel operand →
      Line.JumpsTo text label := by
    intro hjumps heq
    rw [missingLabel_injective heq]
    exact ho.jumpsTo hd hjumps
  cases hm : i.mnemonic <;> rw [hm] at htells hto
  case jump | jumpNegative | jumpZero => exact hto rfl htells.2
  case add | subtract | multiply | divide =>
    obtain ⟨key, -, -, heq⟩ := htells
    exact absurd heq.symm (missingSlot_ne_missingLabel _ _)
  all_goals cases htells

variable {κ ι : Type} [Console κ] {s : Session κ}

/-- A line that fails for want of a label looks it up. -/
theorem LineRefusal.jumpsTo {label : String} (h : m.LineRefusal text s (.undefinedLabel label)) :
    Line.JumpsTo text label := by
  have hjumps : ∀ {mnemonic operand}, m.Refusal operand s mnemonic (.undefinedLabel label) →
      mnemonic.jumps = true ∧ operand = label := by
    intro mnemonic operand hr
    cases hr with
    | label hj _ _ =>
        refine ⟨?_, rfl⟩
        cases mnemonic with
        | jump | jumpNegative | jumpZero => rfl
        | _ => cases hj
  cases h with
  | obey hd ho hr =>
      obtain ⟨hj, rfl⟩ := hjumps hr
      exact ho.jumpsTo hd hj

/-- No line fails because of a console that refuses nothing. -/
theorem LineRefusal.not_device (view : Console.Steady κ ι) {fault : DeviceFault} :
    ¬ m.LineRefusal text s (.device fault) := by
  have hemit : ∀ {console : κ} {output : Output},
      Console.emit console output ≠ (.error fault, s.console) := by
    intro console output he
    have hok := view.emit_ok console output
    rw [he] at hok
    cases hok
  have hrefusal : ∀ {mnemonic operand}, ¬ m.Refusal operand s mnemonic (.device fault) := by
    intro mnemonic operand hr
    cases hr with
    | emit _ he => exact hemit he
    | @read console _ hread =>
        have hok := view.read_eq console
        rw [hread] at hok
        cases hok
  intro h
  cases h with
  | untraced _ he => exact hemit he
  | obey _ _ hr => exact hrefusal hr

end Machine

/-! ### Looking up a label -/

namespace Machine

variable {m : Machine} {label : String}

/-- What a line that looks up a label does. -/
theorem obeyWords_of_jumps (m : Machine) {text : String} {mnemonic : Mnemonic}
    (hjumps : mnemonic.jumps = true) (h : Line.doing? text = .ok (some (mnemonic, some label))) :
    m.obeyWords (Text.wordsOf text) = m.jumpIf (mnemonic.takes m.accumulator) label := by
  rw [obeyWords_eq, h, ← execute_of_jumps m hjumps]
  rfl

/-! ### Renamed lines -/

variable {κ ι : Type} [Console κ] {view : Console.Steady κ ι} {r : String → String}
  {p p' : Program} {K : String → Prop} {a b : Machine} {s t : Session κ}

/-- A label that is looked up under its new name leads to the same line, or is named in the same
way. -/
theorem perform_jumpIf_relabelled (hm : a.Partners p p' K b) (hs : s.Peers view t)
    (hlabel : p'.label? (r label) = p.label? label) (taken : Bool) :
    Dialogue.MatchingResult (Cause.relabel r) (Concurs K (fun _ => True) id a b)
        (s.perform (a.jumpIf taken label)).1 (t.perform (b.jumpIf taken (r label))).1 ∧
      Session.Beside view (fun o => Output.Relabelled r (true, o)) s t
        (s.perform (a.jumpIf taken label)).2 (t.perform (b.jumpIf taken (r label))).2 := by
  rw [← hm.program.1, ← hm.program.2] at hlabel
  have hsame : Concurs K (fun _ => True) id a b (a, .next) (b, .next) :=
    .computed (.same hm.accumulator)
  cases htarget : a.program.label? label with
  | some target =>
      rw [jumpIf_of_some htarget, jumpIf_of_some (hlabel.trans htarget)]
      refine ⟨.ok ?_, hs.beside⟩
      cases taken with
      | false => exact hsame
      | true => exact .jump htarget
  | none =>
      rw [jumpIf_of_none htarget, jumpIf_of_none (hlabel.trans htarget)]
      simp only [Session.perform, Session.emit_eq, view.emit_ok]
      have hwarned : Session.Beside view (fun o => Output.Relabelled r (true, o)) s t
          (s.emit (missingLabel label)).2 (t.emit (missingLabel (r label))).2 :=
        hs.beside.emit (Output.Relabelled.warning r label)
      cases taken with
      | false => exact ⟨.ok hsame, hwarned⟩
      | true => exact ⟨.error (.undefinedLabel label), hwarned⟩

/-- A line that looks up no label does the same as before, and says the same. -/
theorem perform_relabelled_of_not_jumpsTo (hm : a.Partners p p' (fun _ => True) b)
    (hs : s.Peers view t) {text : String} (hto : ∀ label, ¬ Line.JumpsTo text label) :
    Dialogue.MatchingResult (Cause.relabel r) (Concurs (fun _ => True) (fun _ => True) id a b)
        (s.perform (a.line text)).1 (t.perform (b.line text)).1 ∧
      Session.Beside view (fun o => Output.Relabelled r (true, o)) s t
        (s.perform (a.line text)).2 (t.perform (b.line text)).2 := by
  have hagree : Dialogue.Agree (Concurs (fun _ => True) (fun _ => True) id a b)
      (a.obeyWords (Text.wordsOf text)) (b.obeyWords (Text.wordsOf text)) := by
    refine agree_obeyWords hm.accumulator fun i operand hd ho => ?_
    have hjumps : i.mnemonic.jumps = false := by
      cases hj : i.mnemonic.jumps with
      | false => rfl
      | true => exact absurd (ho.jumpsTo hd hj) (hto operand)
    exact agree_unjumping hm.common hjumps (fun _ _ => trivial) fun _ => trivial
  obtain ⟨hresult, hbeside⟩ :=
    Session.perform_agree (Session.beside_alike (W := Eq) (fun _ => rfl) s t) hagree hs.beside
  have hrefusal : ∀ cause, (s.perform (a.obeyWords (Text.wordsOf text))).1 = .error cause →
      a.LineRefusal text (s.perform (a.line text)).2 cause := by
    intro cause hcause
    refine lineRefusal_of_perform (Prod.ext ?_ rfl)
    rw [perform_line_off hs.off.1, hcause]
  rw [perform_line_off hs.off.1, perform_line_off hs.off.2]
  refine ⟨hresult.matching fun cause hcause => ?_, hbeside.toPeers, ?_⟩
  · refine Cause.relabel_of_ne fun label heq => hto label ?_
    rw [heq] at hcause
    exact (hrefusal _ hcause).jumpsTo
  · -- What is said is the same, and no warning about a label.
    obtain ⟨said, said', houtputs, houtputs', hsaid⟩ := hbeside.said
    obtain ⟨spoken, hspoken, htells⟩ := Session.perform_outputs view.toTranscript
      (a.obeyWords_tells text) fun fault hfault => (hrefusal _ hfault).not_device view
    obtain rfl : said = spoken := List.append_cancel_left (houtputs.symm.trans hspoken)
    obtain rfl : said = said' := List.forall₂_eq_eq_eq ▸ hsaid
    refine ⟨said, said, houtputs, houtputs', List.forall₂_same.2 fun o ho => ?_⟩
    refine Output.Relabelled.of_ne fun label heq => hto label ?_
    rw [heq] at ho
    exact (htells _ ho).jumpsTo

/-- **A renamed line does the same**, and names the new label. -/
theorem perform_relabelled (hr : Relabelling r) (hp : p.Relabelled r p')
    (hm : a.Partners p p' (fun _ => True) b) (hs : s.Peers view t) {text text' : String}
    (htext : Line.Relabelled r text text') :
    Dialogue.MatchingResult (Cause.relabel r) (Concurs (fun _ => True) (fun _ => True) id a b)
        (s.perform (a.line text)).1 (t.perform (b.line text')).1 ∧
      Session.Beside view (fun o => Output.Relabelled r (true, o)) s t
        (s.perform (a.line text)).2 (t.perform (b.line text')).2 := by
  by_cases hto : ∃ label, Line.JumpsTo text label
  · obtain ⟨label, hto⟩ := hto
    obtain ⟨hword, mnemonic, hjumps, hdoing, hdoing'⟩ := htext.doing_of_jumpsTo hr hto
    rw [perform_line_off hs.off.1, perform_line_off hs.off.2, obeyWords_of_jumps a hjumps hdoing,
      obeyWords_of_jumps b hjumps hdoing', hm.accumulator]
    exact perform_jumpIf_relabelled hm hs (hp.label? hr hword) _
  · have hto' : ∀ label, ¬ Line.JumpsTo text label := fun label h => hto ⟨label, h⟩
    have hsame : t.perform (b.line text') = t.perform (b.line text) := by
      rw [perform_line_off hs.off.2, perform_line_off hs.off.2,
        b.obeyWords_congr (htext.doing_of_not_jumpsTo hr hto')]
    rw [hsame]
    exact perform_relabelled_of_not_jumpsTo hm hs hto'

end Machine

namespace Session

variable {κ ι : Type} [Console κ] {view : Console.Steady κ ι} {r : String → String}
  {W : Output → Output → Prop} {s₀ t₀ s t s' t' : Session κ} {told : List (Bool × Output)}

/-! ### What was said in the two runs -/

/-- The sessions are peers; since the session `s₀`, the first one has been told `told`, and the
second one the same with the labels of the root renamed. -/
structure Told (view : Console.Steady κ ι) (r : String → String) (s₀ : Session κ)
    (told : List (Bool × Output)) (s t : Session κ) : Prop extends Peers view s t where
  first : view.outputs s.console = view.outputs s₀.console ++ told.map Prod.snd
  second : ∃ said, view.outputs t.console = view.outputs s₀.console ++ said ∧
    List.Forall₂ (Output.Relabelled r) told said

theorem Told.nil (h : s.tracer.mode = .off) : Told view r s [] s s where
  toPeers := .refl h
  first := (List.append_nil _).symm
  second := ⟨[], (List.append_nil _).symm, .nil⟩

/-- The sessions have been told what they were told before, and what is said now. -/
theorem Told.extend (h : Told view r s₀ told s t) {own : Bool}
    (hb : Beside view (fun o => Output.Relabelled r (own, o)) s t s' t') :
    Told view r s₀ (told ++ ((view.outputs s'.console).drop (view.outputs s.console).length).map
      fun o => (own, o)) s' t' := by
  obtain ⟨said, said', hs, ht, hsaid⟩ := hb.said
  obtain ⟨before, hbefore, htold⟩ := h.second
  refine ⟨hb.toPeers, ?_, before ++ said', ?_, ?_⟩
  · rw [hs, List.drop_left, h.first, List.map_append, List.map_map, List.append_assoc]
    congr 2
    exact (List.map_id' said).symm
  · rw [ht, hbefore, List.append_assoc]
  · rw [hs, List.drop_left]
    exact List.rel_append htold (List.forall₂_map_left_iff.2 hsaid)

/-- Notes say nothing. -/
theorem Beside.noteAll (h : Beside view W s₀ t₀ s t) (events events' : List LogEvent) :
    Beside view W s₀ t₀ (s.noteAll events) (t.noteAll events') := by
  obtain ⟨log, hlog⟩ := s.noteAll_eq events
  obtain ⟨log', hlog'⟩ := t.noteAll_eq events'
  rw [hlog, hlog']
  exact ⟨⟨h.shelf, h.files, h.input, h.off⟩, h.said⟩

end Session

/-! ### The two runs -/

namespace Chain

variable {κ ι : Type} [Console κ] {view : Console.Steady κ ι} {r : String → String}
  {p p' : Program} {c₀ c c' : Chain} {s₀ s t : Session κ}

/-- The chains of the two runs that belong together; the first one began at the chain `c₀` in the
session `s₀`. -/
def Renamed (view : Console.Steady κ ι) (r : String → String) (p p' : Program) (c₀ : Chain)
    (s₀ : Session κ) (c : Chain) (s : Session κ) (c' : Chain) (t : Session κ) : Prop :=
  ∃ k, Comes view.toTranscript c₀ s₀ k c s ∧
    Paired p p' (fun _ => True) id
      (Session.Told view r s₀ (sayings view.toTranscript k c₀ s₀)) c s c' t

/-- The answers of the two runs that belong together. -/
def RenamedAnswer (view : Console.Steady κ ι) (r : String → String) (p p' : Program) (c₀ : Chain)
    (s₀ : Session κ) (answer answer' : Answer κ) : Prop :=
  ∃ k, runFor k c₀ s₀ = some answer ∧
    SameAnswer p p' (fun _ => True) id (Cause.relabel r)
      (Session.Told view r s₀ (sayings view.toTranscript k c₀ s₀)) answer answer'

/-- A step that says the same, with the labels of the root renamed, adds to what was said before. -/
theorem Follows.told {k : Nat} (hcomes : Comes view.toTranscript c₀ s₀ k c s)
    (htold : Session.Told view r s₀ (sayings view.toTranscript k c₀ s₀) s t) {rank : Chain → Nat}
    (h : Follows
      (Paired p p' (fun _ => True) id
        (Session.Beside view (fun o => Output.Relabelled r (c.callers.isEmpty, o)) s t))
      (SameAnswer p p' (fun _ => True) id (Cause.relabel r)
        (Session.Beside view (fun o => Output.Relabelled r (c.callers.isEmpty, o)) s t))
      rank c s c' t) :
    Follows (Renamed view r p p' c₀ s₀) (RenamedAnswer view r p p' c₀ s₀) rank c s c' t := by
  have hnext : ∀ {progress s₁ t₁}, c.step s = (progress, s₁) →
      Session.Beside view (fun o => Output.Relabelled r (c.callers.isEmpty, o)) s t s₁ t₁ →
      Session.Told view r s₀ (sayings view.toTranscript (k + 1) c₀ s₀) s₁ t₁ := by
    intro progress s₁ t₁ hs hb
    rw [hcomes.sayings_succ, saying, hs]
    exact htold.extend hb
  refine h.imp ?_ ?_
  · intro c₁ s₁ c₁' t₁ hs hpaired
    exact ⟨k + 1, hcomes.next hs, hpaired.mono (fun _ => id) (hnext hs)⟩
  · intro ending m s₁ answer' hs hanswer
    refine ⟨k + 1, ?_, { hanswer with sessions := hnext hs hanswer.sessions }⟩
    rw [hcomes.runFor 1, runFor_succ_eq, hs]

/-- **The run of the renamed program goes on in step.** -/
theorem renamed_simulation (hr : Relabelling r) (hp : p.Relabelled r p') :
    Simulation (Renamed view r p p' c₀ s₀) (RenamedAnswer view r p p' c₀ s₀) fun _ => 0 := by
  rintro c s c' t ⟨k, hcomes, hpaired⟩
  cases hpaired with
  | @inside c a b name _ _ hs hm hpc hnext =>
      refine Follows.told hcomes hs ?_
      have hforeign : (c.onTopOf [⟨a, name⟩]).callers.isEmpty = false := by simp [onTopOf]
      rw [hforeign]
      exact follows_below (Session.beside_alike (Output.Relabelled.foreign r) s t) c name
        hs.toPeers.beside hm hpc hnext rfl
  | @outside a b _ _ hs hm hpc =>
      refine Follows.told hcomes hs ?_
      have hline : a.currentLine? = p.line? a.pc := by rw [Machine.currentLine?, hm.program.1]
      have hline' : b.currentLine? = p'.line? a.pc := by
        rw [Machine.currentLine?, hm.program.2, hpc, id]
      rcases hp.line? a.pc with ⟨ht, ht'⟩ | ⟨text, text', ht, ht', htext⟩
      · exact follows_end hm hpc rfl hs.toPeers.beside (hline.trans ht) (hline'.trans ht')
      · obtain ⟨hresult, hbeside⟩ := Machine.perform_relabelled hr hp hm hs.toPeers htext
        exact follows_line hm hpc rfl (hline.trans ht) (hline'.trans ht') hresult hbeside.noteAll

end Chain

namespace Machine

variable {κ ι : Type} [Console κ]

/-- **The names of labels do not matter.**  Let the labels of a program be renamed.  Two roots, one
for each of the programs, have the same accumulator, slots and subroutines, and run without a trace
in the same session, on a console that refuses nothing.  One run ends if and only if the other does.
They then end in the same way: if they failed, each root stands on its line; the failure below the
root is the same, and so is a cause that arose on the line of the root itself, except that a label
without a line is named by its new name.  The accumulators, the slots and the subroutines that are
left are the same, and so are the indices of the lines on which the roots stand and the input that
is left.  The second run has said what the first one said, output by output, except that the root's
own warnings about labels without a line name them by their new names. -/
theorem run_relabelled (view : Console.Steady κ ι) {r : String → String} (hr : Relabelling r)
    {p p' : Program} (hp : p.Relabelled r p') {m n : Machine}
    (hm : m.Partners p p' (fun _ => True) n) {s : Session κ} (hs : s.tracer.mode = .off) :
    ((∃ fuel answer, m.run fuel s = some answer) ↔ ∃ fuel answer, n.run fuel s = some answer) ∧
    ∀ fuel fuel' ending ending' m' n' s' t', m.run fuel s = some (ending, m', s') →
      n.run fuel' s = some (ending', n', t') →
      Ending.Matches (Cause.relabel r) m' n' ending ending' ∧
        m'.Partners p p' (fun _ => True) n' ∧ n'.pc = m'.pc ∧
        Session.Told view r s ((Chain.start m).sayings view.toTranscript fuel s) s' t' := by
  have hstart : Chain.Renamed view r p p' (Chain.start m) s (Chain.start m) s (Chain.start n) s :=
    ⟨0, .refl _ _ s, .outside (.nil hs) (hm.goto 0 0) rfl⟩
  have hsim : Chain.Simulation (Chain.Renamed view r p p' (Chain.start m) s)
      (Chain.RenamedAnswer view r p p' (Chain.start m) s) fun _ => 0 :=
    Chain.renamed_simulation hr hp
  obtain ⟨hends, hanswers⟩ := hsim.ends_together hstart
  simp only [run_of_off hs]
  refine ⟨hends, ?_⟩
  intro fuel fuel' ending ending' m' n' s' t' hrun hrun'
  obtain ⟨k, hk, hanswer⟩ := hanswers fuel fuel' _ _ hrun hrun'
  -- Neither run says more with more fuel.
  have hsayings : (Chain.start m).sayings view.toTranscript fuel s =
      (Chain.start m).sayings view.toTranscript k s := by
    rw [← Chain.sayings_of_runFor hrun (Nat.le_max_left fuel k),
      Chain.sayings_of_runFor hk (Nat.le_max_right fuel k)]
  rw [hsayings]
  exact ⟨hanswer.ending, hanswer.machines, hanswer.pc, hanswer.sessions⟩

/-- A program that looks up a label without a line, and calls a subroutine that does so too. -/
def bouncing : Program :=
  .ofLines "root" ["INC leaf", "LOAD 1", "again RUN leaf", "JINEG gone", "SUBTRACT 1",
    "JIZERO again", "JUMP gone"]

/-- The same with the two labels exchanged. -/
def bouncingBack : Program :=
  .ofLines "root" ["INC leaf", "LOAD 1", "gone RUN leaf", "JINEG again", "SUBTRACT 1",
    "JIZERO gone", "JUMP again"]

/-- Both runs fail in the last jump.  What the subroutine says is the same. -/
theorem run_relabelled_bouncing :
    ∃ fuel m' n' s' t',
      (ofProgram bouncing).run 20 (.inMemory [("leaf", "JINEG gone\nRET")] []) =
        some (.failed ⟨[⟨"root", 6, "JUMP gone"⟩], .undefinedLabel "gone"⟩, m', s') ∧
      (ofProgram bouncingBack).run fuel (.inMemory [("leaf", "JINEG gone\nRET")] []) =
        some (.failed ⟨[⟨"root", 6, "JUMP again"⟩], .undefinedLabel "again"⟩, n', t') ∧
      n'.accumulator = m'.accumulator ∧
      t'.console.outputs.toList = [missingLabel "gone", missingLabel "again", missingLabel "gone",
        missingLabel "again", missingLabel "again"] := by
  have hrelabelling : Relabelling (Equiv.swap "again" "gone") :=
    relabelling_swap ⟨Text.isWord_of_all (by decide) (by decide), by decide⟩
      ⟨Text.isWord_of_all (by decide) (by decide), by decide⟩
  have hrenamed : bouncing.Relabelled (Equiv.swap "again" "gone") bouncingBack :=
    ⟨rfl, by decide +kernel⟩
  have hpartners : (ofProgram bouncing).Partners bouncing bouncingBack (fun _ => True)
      (ofProgram bouncingBack) := .ofProgram rfl
  have hrun : ((ofProgram bouncing).run 20 (.inMemory [("leaf", "JINEG gone\nRET")] [])).map
      (fun answer => answer.1.failure?) =
        some (some ⟨[⟨"root", 6, "JUMP gone"⟩], .undefinedLabel "gone"⟩) := by decide +kernel
  obtain ⟨⟨ending, m', s'⟩, h, hfailure⟩ := Option.map_eq_some_iff.1 hrun
  obtain rfl := Ending.eq_of_failure? hfailure
  obtain ⟨hends, hsame⟩ := run_relabelled Buffer.steady hrelabelling hrenamed hpartners
    (s := .inMemory [("leaf", "JINEG gone\nRET")] []) rfl
  obtain ⟨fuel, ⟨ending', n', t'⟩, h'⟩ := hends.1 ⟨20, _, h⟩
  obtain ⟨hmatches, hleft, hpc, htold⟩ := hsame 20 fuel _ _ m' n' s' t' h h'
  obtain ⟨hlocation, rfl⟩ := hmatches.of_single
  have hline : m'.pc = 6 := (congrArg Location.line hlocation).symm
  have hhere : n'.here = ⟨"root", 6, "JUMP again"⟩ := by
    rw [here, currentLine?, hleft.program.2, hpc, hline]
    decide +kernel
  have hcause : Cause.relabel (Equiv.swap "again" "gone") (.undefinedLabel "gone") =
      .undefinedLabel "again" := by decide +kernel
  rw [hhere, hcause] at h'
  have hsayings : (Chain.start (ofProgram bouncing)).sayings Buffer.steady.toTranscript 20
      (.inMemory [("leaf", "JINEG gone\nRET")] []) =
        [(false, missingLabel "gone"), (true, missingLabel "gone"), (false, missingLabel "gone"),
          (true, missingLabel "gone"), (true, missingLabel "gone")] := by decide +kernel
  obtain ⟨said, houtputs, hsaid⟩ := htold.second
  rw [hsayings] at hsaid
  have hown : Output.Relabelled (Equiv.swap "again" "gone") (true, missingLabel "gone")
      (missingLabel "again") := .warning (Equiv.swap "again" "gone") "gone"
  have hforeign : Output.Relabelled (Equiv.swap "again" "gone") (false, missingLabel "gone")
      (missingLabel "gone") := .foreign _ _
  have hexpected := List.Forall₂.cons hforeign (.cons hown (.cons hforeign (.cons hown
    (.cons hown .nil))))
  have hunique := (Output.Relabelled.rightUnique _).forall₂ hsaid hexpected
  exact ⟨fuel, m', n', s', t', h, h', hleft.accumulator, houtputs.trans (by rw [hunique]; rfl)⟩

/-- A program that calls a subroutine, and then looks up a label without a line. -/
def calling (label : String) : Program :=
  .ofLines "root" ["INC leaf", "RUN leaf", "JINEG " ++ label, "HALT"]

/-- What a subroutine says about its own labels is not renamed. -/
theorem run_relabelled_foreign :
    Relabelling (Equiv.swap "gone" "lost") ∧
    (calling "gone").Relabelled (Equiv.swap "gone" "lost") (calling "lost") ∧
    ∃ m' n' s' t',
      (ofProgram (calling "gone")).run 10 (.inMemory [("leaf", "JINEG gone\nRET")] []) =
        some (.halted, m', s') ∧
      (ofProgram (calling "lost")).run 10 (.inMemory [("leaf", "JINEG gone\nRET")] []) =
        some (.halted, n', t') ∧
      s'.console.outputs.toList = [missingLabel "gone", missingLabel "gone"] ∧
      t'.console.outputs.toList = [missingLabel "gone", missingLabel "lost"] ∧
      ¬ List.Forall₂ (fun o o' => ∀ label, o = missingLabel label →
          o' = missingLabel (Equiv.swap "gone" "lost" label))
        s'.console.outputs.toList t'.console.outputs.toList := by
  have hrelabelling : Relabelling (Equiv.swap "gone" "lost") :=
    relabelling_swap ⟨Text.isWord_of_all (by decide) (by decide), by decide⟩
      ⟨Text.isWord_of_all (by decide) (by decide), by decide⟩
  have hrenamed : (calling "gone").Relabelled (Equiv.swap "gone" "lost") (calling "lost") :=
    ⟨rfl, by decide +kernel⟩
  have hrun : ((ofProgram (calling "gone")).run 10 (.inMemory [("leaf", "JINEG gone\nRET")]
      [])).map (fun answer => (answer.1.isHalted, answer.2.2.console.outputs.toList)) =
        some (true, [missingLabel "gone", missingLabel "gone"]) := by decide +kernel
  have hrun' : ((ofProgram (calling "lost")).run 10 (.inMemory [("leaf", "JINEG gone\nRET")]
      [])).map (fun answer => (answer.1.isHalted, answer.2.2.console.outputs.toList)) =
        some (true, [missingLabel "gone", missingLabel "lost"]) := by decide +kernel
  obtain ⟨⟨ending, m', s'⟩, h, hanswer⟩ := Option.map_eq_some_iff.1 hrun
  obtain ⟨⟨ending', n', t'⟩, h', hanswer'⟩ := Option.map_eq_some_iff.1 hrun'
  obtain ⟨hhalted, houtputs⟩ := Prod.mk.inj hanswer
  obtain ⟨hhalted', houtputs'⟩ := Prod.mk.inj hanswer'
  obtain rfl := Ending.eq_of_isHalted hhalted
  obtain rfl := Ending.eq_of_isHalted hhalted'
  refine ⟨hrelabelling, hrenamed, m', n', s', t', h, h', houtputs, houtputs', ?_⟩
  rw [houtputs, houtputs']
  intro hrenames
  have hfirst := (List.forall₂_cons.1 hrenames).1 "gone" rfl
  rw [Equiv.swap_apply_left] at hfirst
  exact absurd (missingLabel_injective hfirst) (by decide)

end Machine

end AccMachine
