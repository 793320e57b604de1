/-
**A call of a subroutine is its lines.**

Instead of calling a subroutine whose lines only compute, a program can have these lines in place of
the call.  The two programs do the same, although much is different on the way: the call copies the
accumulator into the subroutine and out of it again, the subroutine keeps its slots from one call to
the next in a storage of its own, and the lines behind a call have other indices.  The proof runs
the two side by side.  Only a call without a label and the return from it have no counterpart in the
program with the calls inlined.

Main definitions:

* `Line.Returns` — the line that ends a subroutine;
* `Abreast` — the chains of the two runs that belong together;
* `SameEnd` — the two runs have ended in the same way.

Main results:

* `follows_kept`, `follows_call` — how the two runs go on outside a call;
* `follows_body`, `follows_return` — within the inlined subroutine;
* `follows_beyond` — and within other subroutines;
* `abreast_simulation` — **the program with the calls inlined simulates the other one**;
* `Machine.run_inline` — **the two runs end together, and in the same way**.
-/

import AccMachine.Proofs.Merged
import AccMachine.Proofs.Simulation
import AccMachine.Proofs.TraceModes

set_option relaxedAutoImplicit false
set_option autoImplicit false

namespace AccMachine

/-- The line is a return. -/
def Line.Returns (text : String) : Prop :=
  Line.decode (Text.wordsOf text) = .ok (.instruction ⟨none, .ret, none⟩)

/-! ### Chains that belong together -/

/-- An ending without the locations of a failure. -/
def Ending.unlocated : Ending → Ending
  | failed failure => .failed ⟨[], failure.cause⟩
  | ending => ending

section Simulation

variable {κ : Type}

/-- The two runs have ended in the same way, perhaps with other locations of a failure, and left the
console in the same state.  Unless they failed, their machines have the same accumulator.  The
second machine has the storage of the first one together with that of its subroutine of the given
name, and otherwise the same subroutines. -/
structure SameEnd (name : String) (answer answer' : Chain.Answer κ) : Prop where
  ending : answer'.1.unlocated = answer.1.unlocated
  console : answer'.2.2.console = answer.2.2.console
  accumulator : (∀ failure, answer.1 ≠ .failed failure) →
    answer'.2.1.accumulator = answer.2.1.accumulator
  storage : ∃ child, answer.2.1.subroutines.find? name = some child ∧
    ∀ key, answer'.2.1.storage.find? key =
      (answer.2.1.storage.find? key).or (child.storage.find? key)
  others : ∀ name', name' ≠ name →
    answer'.2.1.subroutines.find? name' = answer.2.1.subroutines.find? name'

variable (p : Program) (name : String) (body : List String) (last : String)

/-- The chains of the two runs that belong together. -/
inductive Abreast : Chain → Session κ → Chain → Session κ → Prop
  /-- Both runs begin, and the source text of the subroutine is at hand. -/
  | start {s t : Session κ} {text : String} (sessions : Session.Unlogged s t)
      (source : s.source name = .ok text) (lines : Source.lines text = body ++ [last]) :
      Abreast (Chain.start (.ofProgram p)) s (Chain.start (.ofProgram (p.inline name body))) t
  /-- No call is being executed. -/
  | outside {s t : Session κ} {k : Nat} {m child n : Machine} (sessions : Session.Unlogged s t)
      (place : Machine.InPlace p name body last k m child n) : Abreast ⟨m, []⟩ s ⟨n, []⟩ t
  /-- The inlined subroutine is being executed. -/
  | within {s t : Session κ} {k : Nat} {label : Option String} {m child n : Machine}
      (sessions : Session.Unlogged s t)
      (place : Machine.InCall p name body last k label m child n) :
      Abreast ⟨child, [⟨m, name⟩]⟩ s ⟨n, []⟩ t
  /-- Another subroutine is being executed, called from a line that stayed as it is. -/
  | beyond {s t : Session κ} {k : Nat} {m child n : Machine} {text name' : String} (c : Chain)
      (sessions : Session.Unlogged s t) (place : Machine.InPlace p name body last k m child n)
      (line : p.lines.tail[k]? = some text) (kept : Program.inlineLine name body text = [text])
      (other : name' ≠ name) : Abreast (c.onTopOf [⟨m, name'⟩]) s (c.onTopOf [⟨n, name'⟩]) t

/-- How often the first chain can take a step alone: it may call the inlined subroutine and return
from it on every line that is left. -/
def aloneRank (c : Chain) : Nat :=
  match c.callers with
  | [] => 2 * (c.active.program.size - c.active.pc)
  | f :: _ => 2 * (f.caller.program.size - f.caller.pc) - 1

variable {p name body last} {s t : Session κ} {k : Nat} {m child n : Machine}

/-! ### The ends of the runs -/

/-- Machines that stand side by side at the end have ended in the same way. -/
theorem sameEnd_of_inPlace (h : Machine.InPlace p name body last k m child n)
    (hs : Session.Unlogged s t) {ending ending' : Ending}
    (hending : ending'.unlocated = ending.unlocated) :
    SameEnd name (ending, m, s) (ending', n, t) where
  ending := hending
  console := hs.console
  accumulator := fun _ => h.accumulator
  storage := ⟨child, h.declared, h.merged.storage⟩
  others := h.merged.others

/-- A failure within the inlined subroutine has the same cause in its lines. -/
theorem sameEnd_of_failed (h : Machine.Merged p name body last m child n)
    (hs : Session.Unlogged s t) {failure failure' : Failure}
    (hcause : failure'.cause = failure.cause) :
    SameEnd name (.failed failure, m.adopt name child, s) (.failed failure', n, t) where
  ending := by rw [Ending.unlocated, Ending.unlocated, hcause]
  console := hs.console
  accumulator := fun hne => absurd rfl (hne failure)
  storage := ⟨{ child with awaited := false }, Table.find?_put_self _ _ _, h.storage⟩
  others := h.adopt.others

/-! ### How the runs go on -/

variable [Console κ]

/-- The two runs go on from these chains in one of the ways of a simulation. -/
abbrev GoOn (p : Program) (name : String) (body : List String) (last : String) (c : Chain)
    (s : Session κ) (c' : Chain) (t : Session κ) : Prop :=
  Chain.Follows (Abreast p name body last) (SameEnd name) aloneRank c s c' t

/-- The subroutine is declared by the first run while the second one passes a blank line. -/
theorem follows_start (hp : p.Inlinable name body) (hs : Session.Unlogged s t) {text : String}
    (hsource : s.source name = .ok text) (hlines : Source.lines text = body ++ [last]) :
    GoOn p name body last (Chain.start (.ofProgram p)) s
      (Chain.start (.ofProgram (p.inline name body))) t := by
  obtain ⟨first, hfirst, hd⟩ := hp.lines
  have hline : (Chain.start (.ofProgram p)).active.currentLine? = some first := by
    change p.lines[0]? = some first
    rw [hfirst]
    rfl
  have hobey : (Machine.ofProgram p).obeyWords (Text.wordsOf first) =
      (Machine.ofProgram p).declareSubroutine name := by
    simp only [Machine.obeyWords_def, hd, Machine.obey_def, Machine.execute_def]
  have hload : ∃ event, s.load name = (.ok (.ofLines name (body ++ [last])), s.note event) := by
    refine ⟨.loaded name (Program.ofLines name (body ++ [last])).size
      (Program.ofLines name (body ++ [last])).labels.size, ?_⟩
    simp only [Session.load, hsource, hlines]
  obtain ⟨event, hload⟩ := hload
  -- The first machine holds the subroutine, which has stored nothing yet.
  obtain ⟨child, hchild⟩ : ∃ child, child =
      (Machine.ofProgram p).subroutine (.ofLines name (body ++ [last])) := ⟨_, rfl⟩
  have hperform : s.perform ((Machine.ofProgram p).line first) =
      (.ok ((Machine.ofProgram p).hold name child, .next),
        (s.note event).note (.declared p.reference name)) := by
    rw [Machine.perform_line_off hs.off.1, hobey, hchild]
    simp only [Machine.declareSubroutine_def, Dialogue.bind_eq, Dialogue.fetch_bind,
      Dialogue.log_bind, Dialogue.pure_eq, Session.perform, hload]
    rfl
  have hs' : Session.Unlogged ((s.note event).note (.declared p.reference name)) t :=
    Session.unlogged_alike.noteLeft _ (Session.unlogged_alike.noteLeft _ hs)
  have hblank : t.perform ((Machine.ofProgram (p.inline name body)).line "") =
      (.ok (.ofProgram (p.inline name body), .next), t) := by
    rw [Machine.perform_line_off hs.off.2]
    rfl
  have hmerged : Machine.Merged p name body last ((Machine.ofProgram p).hold name child).advance
      child (Machine.ofProgram (p.inline name body)).advance := by
    subst hchild
    exact
      { program := rfl
        inlined := rfl
        lines := rfl
        storage := fun _ => rfl
        ownSlots := by
          intro key hkey
          cases hkey
        childSlots := by
          intro key hkey
          cases hkey
        others := fun name' hne => (Table.find?_put_of_ne _ hne.symm _).symm
        awaited := ⟨rfl, rfl⟩ }
  have hplace : Machine.InPlace p name body last 0 ((Machine.ofProgram p).hold name child).advance
      child (Machine.ofProgram (p.inline name body)).advance :=
    { merged := hmerged
      declared := Table.find?_put_self _ _ _
      accumulator := rfl
      pc := rfl
      pc_inline := rfl
      le_length := Nat.zero_le _ }
  exact .together (Chain.step_of_line hline hperform)
    (Chain.step_of_line (c := Chain.start (.ofProgram (p.inline name body))) rfl hblank)
    (.outside hs' hplace)

/-- A line that stays as it is does the same in both runs. -/
theorem follows_kept (hp : p.Inlinable name body) (hs : Session.Unlogged s t)
    (h : Machine.InPlace p name body last k m child n) {text : String}
    (htext : p.lines.tail[k]? = some text)
    (hcall : ∀ label,
      Line.decode (Text.wordsOf text) ≠ .ok (.instruction ⟨label, .run, some name⟩))
    (hkept : Program.inlineLine name body text = [text]) :
    GoOn p name body last ⟨m, []⟩ s ⟨n, []⟩ t := by
  have hmem : text ∈ p.lines.tail := List.mem_of_getElem? htext
  have hline : m.currentLine? = some text := by
    rw [h.currentLine? hp, htext]
  have hline' : n.currentLine? = some text := by
    rw [h.merged.line?_inline htext (j := 0) (by rw [hkept]; exact Nat.one_pos) h.pc_inline, hkept]
    rfl
  have hagree : Dialogue.Agree
      (Machine.Concurs (Line.UsedIn p.lines) (· ≠ name)
        (fun target => Program.place name body p.lines.tail (target - 1)) m n)
      (m.line text) (n.line text) := by
    refine Machine.agree_line_of_shared (h.shared hp) ?_ ?_
    · intro key hkey
      exact ⟨text, List.mem_of_mem_tail hmem, hkey⟩
    · rintro label mnemonic name' hmnemonic hd rfl
      simp only [List.mem_cons, List.not_mem_nil, or_false] at hmnemonic
      rcases hmnemonic with rfl | rfl
      · exact hp.once text hmem label hd
      · exact hcall label hd
  obtain ⟨hresult, hs'⟩ := Session.perform_agree Session.unlogged_alike hagree hs
  rcases hperform : s.perform (m.line text) with ⟨result, s'⟩
  rcases hperform' : t.perform (n.line text) with ⟨result', t'⟩
  rw [hperform, hperform'] at hresult hs'
  have hstep := Chain.step_of_line (c := ⟨m, []⟩) hline hperform
  have hstep' := Chain.step_of_line (c := ⟨n, []⟩) hline' hperform'
  cases hresult with
  | error cause => exact .stop hstep hstep' (sameEnd_of_inPlace h hs' rfl)
  | ok hconcurs =>
      cases hconcurs with
      | computed hcomputed =>
          cases hcomputed with
          | accumulate value =>
              exact .together hstep hstep'
                (.outside hs' ((h.accumulate value).advance htext hkept))
          | store hkey =>
              exact .together hstep hstep' (.outside hs' ((h.store hkey).advance htext hkept))
      | jump htarget =>
          obtain ⟨k', rfl, hk'⟩ := Program.exists_of_label? hp (h.merged.program ▸ htarget)
          exact .together hstep hstep' (.outside hs' (h.goto (Nat.le_of_lt hk')))
      | declare hne callee =>
          exact .together hstep hstep'
            (.outside hs' ((h.hold hne callee).advance htext hkept))
      | call hne callee =>
          exact .together hstep hstep' (.beyond ⟨callee, []⟩ hs' h htext hkept hne)
      | halt => exact .stop hstep hstep' (sameEnd_of_inPlace h hs' rfl)

/-- The first run calls the inlined subroutine, while the second one passes the label or stays. -/
theorem follows_call (hp : p.Inlinable name body) (hs : Session.Unlogged s t)
    (h : Machine.InPlace p name body last k m child n) {text : String}
    (htext : p.lines.tail[k]? = some text) {label : Option String}
    (hcall : Line.decode (Text.wordsOf text) = .ok (.instruction ⟨label, .run, some name⟩)) :
    GoOn p name body last ⟨m, []⟩ s ⟨n, []⟩ t := by
  have hline : m.currentLine? = some text := by
    rw [h.currentLine? hp, htext]
  have hobey : m.obeyWords (Text.wordsOf text) = .note (.invoking name m.accumulator)
      (.done (m, .call name (child.invoked m.accumulator))) := by
    simp only [Machine.obeyWords_def, hcall, Machine.obey_def, Machine.execute_def,
      Machine.callSubroutine_def, h.declared]
    rfl
  have hperform : s.perform (m.line text) =
      (.ok (m, .call name (child.invoked m.accumulator)),
        s.note (.invoking name m.accumulator)) := by
    rw [Machine.perform_line_off hs.off.1, hobey]
    rfl
  have hstep : Chain.step ⟨m, []⟩ s =
      (.running ⟨child.invoked m.accumulator, [⟨m, name⟩]⟩,
        s.note (.invoking name m.accumulator)) :=
    Chain.step_of_line (c := ⟨m, []⟩) hline hperform
  have hs' := Session.unlogged_alike.noteLeft (.invoking name m.accumulator) hs
  have hplace := h.invoke htext hcall
  cases label with
  | none =>
      have hstay : n.goto (n.pc + (none : Option String).toList.length) = n := by
        cases n
        rfl
      rw [hstay] at hplace
      refine .alone hstep ?_ (.within hs' hplace)
      have hlt : m.pc < m.program.size := by
        rw [Machine.currentLine?, Program.line?] at hline
        exact (List.getElem?_eq_some_iff.1 hline).1
      simp only [aloneRank]
      omega
  | some label =>
      have hinlined : Program.inlineLine name body text = label :: body :=
        Program.inlineLine_of_call hcall
      have hline' : n.currentLine? = some label := by
        rw [h.merged.line?_inline htext (j := 0) (by rw [hinlined]; exact Nat.succ_pos _)
          h.pc_inline, hinlined]
        rfl
      have hanchor : n.obeyWords (Text.wordsOf label) = .done (n, .next) := by
        simp only [Machine.obeyWords_def, Line.decode_label hcall]
      have hperform' : t.perform (n.line label) = (.ok (n, .next), t) := by
        rw [Machine.perform_line_off hs.off.2, hanchor]
        rfl
      have hstep' : Chain.step ⟨n, []⟩ t = (.running ⟨n.advance, []⟩, t) :=
        Chain.step_of_line (c := ⟨n, []⟩) hline' hperform'
      exact .together hstep hstep' (.within hs' hplace)

/-- Outside a call, the two runs go on together, except for the call of the subroutine. -/
theorem follows_outside (hp : p.Inlinable name body) (hs : Session.Unlogged s t)
    (h : Machine.InPlace p name body last k m child n) :
    GoOn p name body last ⟨m, []⟩ s ⟨n, []⟩ t := by
  cases htext : p.lines.tail[k]? with
  | none =>
      have hline : m.currentLine? = none := by
        rw [h.currentLine? hp, htext]
      have hk : k = p.lines.tail.length :=
        Nat.le_antisymm h.le_length (List.getElem?_eq_none_iff.1 htext)
      have hline' : n.currentLine? = none := by
        rw [Machine.currentLine?, Program.line?, h.merged.inlined, h.pc_inline, hk]
        exact Program.line?_place_length
      exact .stop (Chain.step_of_none (c := ⟨m, []⟩) hline s)
        (Chain.step_of_none (c := ⟨n, []⟩) hline' t) (sameEnd_of_inPlace h hs rfl)
  | some text =>
      rcases Program.inlineLine_cases name body text with ⟨label, hcall⟩ | ⟨hcall, hkept⟩
      · exact follows_call hp hs h htext hcall
      · exact follows_kept hp hs h htext hcall hkept

/-- Within the inlined subroutine, its lines do the same in both runs. -/
theorem follows_body (hp : p.Inlinable name body) (hs : Session.Unlogged s t)
    {label : Option String} (h : Machine.InCall p name body last k label m child n) {line : String}
    (hbody : body[child.pc]? = some line) :
    GoOn p name body last ⟨child, [⟨m, name⟩]⟩ s ⟨n, []⟩ t := by
  obtain ⟨hlt, -⟩ := List.getElem?_eq_some_iff.1 hbody
  have hmem : line ∈ body := List.mem_of_getElem? hbody
  obtain ⟨hline, hline'⟩ := h.currentLine? hbody
  have hagree : Dialogue.Agree (Machine.Computed (Line.UsedIn body) child n) (child.line line)
      (n.line line) :=
    Machine.agree_line_of_computes h.accumulator (fun _ hkey => h.merged.find?_child hp hkey)
      (hp.computes line hmem) fun key hkey => ⟨line, hmem, hkey⟩
  obtain ⟨hresult, hs'⟩ := Session.perform_agree Session.unlogged_alike hagree hs
  rcases hperform : s.perform (child.line line) with ⟨result, s'⟩
  rcases hperform' : t.perform (n.line line) with ⟨result', t'⟩
  rw [hperform, hperform'] at hresult hs'
  have hstep := Chain.step_of_line (c := ⟨child, [⟨m, name⟩]⟩) hline hperform
  have hstep' := Chain.step_of_line (c := ⟨n, []⟩) hline' hperform'
  cases hresult with
  | error cause =>
      exact .stop hstep hstep'
        (sameEnd_of_failed h.merged (Session.noteAll_alike Session.unlogged_alike hs' _ _) rfl)
  | ok hcomputed =>
      cases hcomputed with
      | accumulate value =>
          exact .together hstep hstep' (.within hs' ((h.accumulate value).advance hlt))
      | store hkey => exact .together hstep hstep' (.within hs' ((h.store hp hkey).advance hlt))

/-- The first run returns from the inlined subroutine, whose lines the second one has left
already. -/
theorem follows_return (hlast : Line.Returns last) (hs : Session.Unlogged s t)
    {label : Option String} (h : Machine.InCall p name body last k label m child n)
    (hend : child.pc = body.length) :
    GoOn p name body last ⟨child, [⟨m, name⟩]⟩ s ⟨n, []⟩ t := by
  obtain ⟨hline, hplace⟩ := h.returned hend
  have hobey : child.obeyWords (Text.wordsOf last) =
      .done ({ child with awaited := false }, .ret) := by
    rw [Line.Returns] at hlast
    simp only [Machine.obeyWords_def, hlast, Machine.obey_def, Mnemonic.takesOperand,
      Machine.execute_def, Machine.returnToCaller_def, h.awaited, if_true, Bool.false_eq_true,
      if_false]
  have hperform : s.perform (child.line last) =
      (.ok ({ child with awaited := false }, .ret), s) := by
    rw [Machine.perform_line_off hs.off.1, hobey]
    rfl
  have hstep := Chain.step_of_line (c := ⟨child, [⟨m, name⟩]⟩) hline hperform
  refine .alone hstep ?_
    (.outside (Session.noteAll_alike Session.unlogged_alike hs _ []) hplace)
  have hle : k + 1 ≤ p.lines.tail.length := hplace.le_length
  have hsize : m.pc < m.program.size := by
    rw [h.merged.program, h.pc, Program.size]
    rw [List.length_tail] at hle
    omega
  change 2 * (m.program.size - (m.pc + 1)) < 2 * (m.program.size - m.pc) - 1
  omega

/-- Within another subroutine, both runs do the same until it comes to its end. -/
theorem follows_beyond (c : Chain) (hs : Session.Unlogged s t)
    (h : Machine.InPlace p name body last k m child n) {text name' : String}
    (htext : p.lines.tail[k]? = some text) (hkept : Program.inlineLine name body text = [text])
    (hne : name' ≠ name) :
    GoOn p name body last (c.onTopOf [⟨m, name'⟩]) s (c.onTopOf [⟨n, name'⟩]) t := by
  obtain ⟨hprogress, hs'⟩ := Chain.step_alike Session.unlogged_alike c hs
  have hstep := Chain.step_onTopOf c [⟨m, name'⟩] s
  have hstep' := Chain.step_onTopOf c [⟨n, name'⟩] t
  rcases hc : c.step s with ⟨progress, s'⟩
  rcases hc' : c.step t with ⟨progress', t'⟩
  rw [hc, hc'] at hprogress hs'
  obtain rfl : progress = progress' := hprogress
  rw [hc] at hstep
  rw [hc'] at hstep'
  cases progress with
  | running c₁ => exact .together hstep hstep' (.beyond c₁ hs' h htext hkept hne)
  | ended ending callee =>
      have hheld := h.hold hne { callee with awaited := false }
      have hs₁ : ∀ events events', Session.Unlogged (s'.noteAll events) (t'.noteAll events') :=
        Session.noteAll_alike Session.unlogged_alike hs'
      cases ending with
      | returned =>
          exact .together hstep hstep'
            (.outside (hs₁ _ _) ((hheld.accumulate callee.accumulator).advance htext hkept))
      | halted => exact .stop hstep hstep' (sameEnd_of_inPlace hheld (hs₁ _ _) rfl)
      | finished => exact .stop hstep hstep' (sameEnd_of_inPlace hheld (hs₁ _ _) rfl)
      | failed failure => exact .stop hstep hstep' (sameEnd_of_inPlace hheld (hs₁ _ _) rfl)

/-- **The program with the calls inlined simulates the other one.** -/
theorem abreast_simulation (hp : p.Inlinable name body) (hlast : Line.Returns last) :
    Chain.Simulation (Abreast p name body last)
      (SameEnd name : Chain.Answer κ → Chain.Answer κ → Prop) aloneRank := by
  intro c s c' t h
  cases h with
  | start sessions source lines => exact follows_start hp sessions source lines
  | outside sessions place => exact follows_outside hp sessions place
  | @within s t k label m child n sessions place =>
      cases hbody : body[child.pc]? with
      | some line => exact follows_body hp sessions place hbody
      | none =>
          have hend : child.pc = body.length :=
            Nat.le_antisymm place.le_length (List.getElem?_eq_none_iff.1 hbody)
          exact follows_return hlast sessions place hend
  | beyond c sessions place line kept other => exact follows_beyond c sessions place line kept other

/-- **A call of a subroutine is its lines.**  Let a program declare a subroutine on its first line
and nowhere else.  The source text of the subroutine, as the session has it, consists of lines that
only compute and a return, and shares no slot with the program.  Let the program and the one with
the calls inlined run from fresh roots, in the same session without a trace.  One run ends if and
only if the other does.  They then end in the same way, up to the locations of a failure, and leave
the console in the same state: the same was said, and the same input is left.  Unless they failed,
the accumulators are the same.  The second root has the slots of the first one and those of its
subroutine, and all other subroutines are the same. -/
theorem Machine.run_inline (hp : p.Inlinable name body) (hlast : Line.Returns last)
    (hoff : s.tracer.mode = .off) {text : String} (hsource : s.source name = .ok text)
    (hlines : Source.lines text = body ++ [last]) :
    ((∃ fuel answer, (ofProgram p).run fuel s = some answer) ↔
      ∃ fuel answer, (ofProgram (p.inline name body)).run fuel s = some answer) ∧
    ∀ fuel fuel' answer answer', (ofProgram p).run fuel s = some answer →
      (ofProgram (p.inline name body)).run fuel' s = some answer' →
        SameEnd name answer answer' := by
  have hsim : Chain.Simulation (Abreast p name body last)
      (SameEnd name : Chain.Answer κ → Chain.Answer κ → Prop) aloneRank :=
    abreast_simulation hp hlast
  have hstart : Abreast p name body last (Chain.start (ofProgram p)) s
      (Chain.start (ofProgram (p.inline name body))) s :=
    .start (.refl hoff) hsource hlines
  simp only [run_of_off hoff]
  refine ⟨⟨?_, ?_⟩, ?_⟩
  · rintro ⟨fuel, answer, h⟩
    obtain ⟨fuel', answer', h', -⟩ := hsim.forward hstart h
    exact ⟨fuel', answer', h'⟩
  · rintro ⟨fuel', answer', h'⟩
    obtain ⟨fuel, answer, h, -⟩ := hsim.backward hstart h'
    exact ⟨fuel, answer, h⟩
  · intro fuel fuel' answer answer' h h'
    obtain ⟨fuel'', answer'', h'', hend⟩ := hsim.forward hstart h
    rwa [Chain.runFor_unique h' h'']

end Simulation

/-! ### A program with a call in a loop -/

/-- A program that adds up the numbers from three down to nothing, by a subroutine that keeps the
sum. -/
def summing : Program :=
  .ofLines "root" ["INC tally", "LOAD 3", "STORE n", "again RUN tally", "LOAD n", "SUBTRACT 1",
    "STORE n", "JIZERO done", "JUMP again", "done RUN tally", "HALT"]

/-- The lines of the subroutine before its return. -/
def tally : List String := ["ADD total", "STORE total", "OUT"]

theorem inlinable_summing : summing.Inlinable "tally" tally where
  declares := ⟨"INC tally", rfl, by decide +kernel⟩
  once := by
    intro text ht label hd
    -- The word for a declaration stands on no other line.
    have hnone : (summing.lines.tail.all fun text =>
        !(Text.wordsOf text).contains "INC") = true := by decide +kernel
    have htext := List.all_eq_true.1 hnone text ht
    have hwords : "INC" ∈ Text.wordsOf text := by
      rw [← Line.tokens_of_decode hd]
      cases label <;> simp [Line.tokens, Instruction.tokens, Mnemonic.text]
    simp [hwords] at htext
  computes := by
    intro text ht
    simp only [tally, List.mem_cons, List.not_mem_nil, or_false] at ht
    rcases ht with rfl | rfl | rfl
    · exact Or.inr ⟨.add, some "total", rfl, by decide, by decide +kernel⟩
    · exact Or.inr ⟨.store, some "total", rfl, by decide, by decide +kernel⟩
    · exact Or.inr ⟨.output, none, rfl, by decide, by decide +kernel⟩
  apart := by
    have hown : summing.lines.filterMap Line.slotOf? = ["n", "n", "n"] := by decide +kernel
    have hchild : tally.filterMap Line.slotOf? = ["total", "total"] := by decide +kernel
    intro key hkey hkey'
    rw [Line.usedIn_iff_mem, hown] at hkey
    rw [Line.usedIn_iff_mem, hchild] at hkey'
    simp only [List.mem_cons, List.not_mem_nil, or_false, or_self] at hkey hkey'
    subst hkey
    exact absurd hkey' (by decide)

/-- A session that has the source text of the subroutine. -/
def tallySession : Session Buffer :=
  .inMemory [("tally", "ADD total\nSTORE total\nOUT\nRET")] []

/-- The two programs show the same sums, after a warning about the slot of the subroutine. -/
theorem Machine.run_inline_summing :
    ∃ fuel answer answer', (ofProgram summing).run 60 tallySession = some answer ∧
      (ofProgram (summing.inline "tally" tally)).run fuel tallySession = some answer' ∧
      SameEnd "tally" answer answer' ∧ answer.1.isHalted = true ∧
      answer'.2.2.console.outputs.toList =
        [missingSlot "total", .value 3, .value 5, .value 6, .value 6] := by
  have hreturns : Line.Returns "RET" := by
    unfold Line.Returns
    decide +kernel
  obtain ⟨hiff, hsame⟩ := run_inline inlinable_summing hreturns
    (s := tallySession) rfl rfl (by decide +kernel)
  have hrun : ((ofProgram summing).run 60 tallySession).map (fun answer =>
        (answer.1.isHalted, answer.2.2.console.outputs.toList)) =
      some (true, [missingSlot "total", .value 3, .value 5, .value 6, .value 6]) := by
    decide +kernel
  obtain ⟨answer, hanswer, hshown⟩ := Option.map_eq_some_iff.1 hrun
  obtain ⟨hhalted, houtputs⟩ := Prod.ext_iff.1 hshown
  obtain ⟨fuel, answer', hanswer'⟩ := hiff.1 ⟨60, answer, hanswer⟩
  have hend := hsame 60 fuel answer answer' hanswer hanswer'
  exact ⟨fuel, answer, answer', hanswer, hanswer', hend, hhalted, hend.console ▸ houtputs⟩

end AccMachine
