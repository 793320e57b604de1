/-
**Programs that only go forward.**

A program whose jumps all lead to later lines cannot go round in a loop of its own, and if the
sources can be ranked so that a program declares only sources of a lower rank, it cannot call itself
either, however indirectly.  With such sources every run comes to an end: below the root a call
lowers the rank, and within a machine every line brings the program counter forward, also the line
of a call once this is over.  So no line is executed twice before its machine returns.

Main definitions:

* `Program.Forward` — all jumps of a program lead forward;
* `Sources.program?`, `Sources.Layered` — the programs of a table of source texts, and what is
  assumed of them;
* `Machine.Layered` — the tree of a machine is ranked from the top down;
* `Machine.Onward` — what a step of such a machine comes to;
* `Chain.Settles` — a chain comes to an end;
* `Chain.Behind` — a chain whose outermost machine has come past a line.

Main results:

* `Machine.Layered.step` — **a step of the machine goes forward, calls a machine of a lower rank or
  is the last one**;
* `Machine.Layered.settles` — so the machine comes to an end by itself;
* `Chain.Reaches.behind` — and never comes back to a line that it has left;
* `Session.run_forward` — **every run of a root that was loaded from such sources ends**, and in no
  call is a line executed twice.
-/

import AccMachine.Proofs.CallRuns
import AccMachine.Proofs.Deeds
import AccMachine.Proofs.FailureTrail
import AccMachine.Proofs.Parallel
import AccMachine.Proofs.UnreadSlot

set_option relaxedAutoImplicit false
set_option autoImplicit false

namespace AccMachine

/-! ### Programs and sources -/

/-- The label that the instruction on a line of text jumps to, if it is a jump. -/
def Line.jump? (text : String) : Option String :=
  match decode (Text.wordsOf text) with
  | .ok (.instruction i) => if i.mnemonic.jumps then i.operand else none
  | _ => none

/-- Every jump whose label is found leads to a line behind its own. -/
def Program.Forward (p : Program) : Prop :=
  ∀ i, i < p.size → ∀ text ∈ p.line? i, ∀ label ∈ Line.jump? text, ∀ target ∈ p.label? label,
    i < target

instance (p : Program) : Decidable p.Forward :=
  inferInstanceAs (Decidable (∀ i, i < p.size → ∀ text ∈ p.line? i, ∀ label ∈ Line.jump? text,
    ∀ target ∈ p.label? label, i < target))

namespace Sources

/-- The program that is loaded from the source texts under a reference. -/
def program? (sources : Table String) (reference : String) : Option Program :=
  (sources.find? reference).map fun text => .ofLines reference (Source.lines text)

/-- The programs of the sources go forward only, and declare only sources of a lower rank. -/
structure Layered (sources : Table String) (rank : String → Nat) : Prop where
  forward : ∀ reference ∈ sources.keys, ∀ p ∈ program? sources reference, p.Forward
  lower : ∀ reference ∈ sources.keys, ∀ p ∈ program? sources reference, ∀ text ∈ p.lines,
    ∀ name ∈ Line.operandOf? .declare text, name ∈ sources.keys → rank name < rank reference

theorem mem_keys_of_program? {sources : Table String} {reference : String} {p : Program}
    (h : program? sources reference = some p) : reference ∈ sources.keys := by
  obtain ⟨text, htext, -⟩ := Option.map_eq_some_iff.1 h
  refine Decidable.byContradiction fun hkeys => ?_
  rw [(sources.find?_eq_none_iff reference).2 hkeys] at htext
  cases htext

theorem reference_of_program? {sources : Table String} {reference : String} {p : Program}
    (h : program? sources reference = some p) : p.reference = reference := by
  obtain ⟨text, -, rfl⟩ := Option.map_eq_some_iff.1 h
  rfl

end Sources

/-! ### Sessions with source texts -/

namespace Session

variable {κ : Type}

/-- What is loaded from source texts is one of their programs. -/
theorem load_eq_ok {sources : Table String} {s s' : Session κ} (hs : s.shelf = .texts sources)
    {reference : String} {program : Program} (h : s.load reference = (.ok program, s')) :
    Sources.program? sources reference = some program ∧ s'.shelf = .texts sources := by
  unfold load source at h
  simp only [hs] at h
  split at h
  · next hfault =>
      split at hfault
      · cases hfault
      · cases h
  · next text htext =>
      split at htext
      · next hfind =>
          cases htext
          cases h
          exact ⟨by rw [Sources.program?, hfind]; rfl, hs⟩
      · cases htext

theorem shelf_noteAll (s : Session κ) (events : List LogEvent) :
    (s.noteAll events).shelf = s.shelf := by
  induction events generalizing s with
  | nil => rfl
  | cons event events ih => exact ih _

variable [Console κ] {α : Type}

/-- A dialogue leaves the shelf as it is. -/
theorem shelf_perform (s : Session κ) (d : Dialogue α) : (s.perform d).2.shelf = s.shelf := by
  refine perform_keeps (r := fun s s' => s'.shelf = s.shelf)
    ⟨fun _ => rfl, fun h h' => h'.trans h, fun _ _ => rfl, ?_, fun _ => rfl, ?_, fun _ _ => rfl⟩ s d
  · intro s words accumulator
    unfold trace
    split <;> rfl
  · intro s reference
    unfold load
    split <;> rfl

end Session

/-! ### Trees that are ranked -/

namespace Machine

/-- The programs of the machine and of all subroutines below it come from the sources, and every
subroutine has a lower rank than its owner. -/
inductive Layered (sources : Table String) (rank : String → Nat) : Machine → Prop
  | intro {m : Machine}
      (loaded : Sources.program? sources m.program.reference = some m.program)
      (lower : ∀ name child, m.subroutines.find? name = some child →
        rank child.program.reference < rank m.program.reference)
      (below : ∀ name child, m.subroutines.find? name = some child → Layered sources rank child) :
      Layered sources rank m

variable {sources : Table String} {rank : String → Nat} {m n : Machine}

theorem Layered.loaded (h : m.Layered sources rank) :
    Sources.program? sources m.program.reference = some m.program := by
  cases h with
  | intro loaded _ _ => exact loaded

theorem Layered.lower (h : m.Layered sources rank) {name : String} {child : Machine}
    (hc : m.subroutines.find? name = some child) :
    rank child.program.reference < rank m.program.reference := by
  cases h with
  | intro _ lower _ => exact lower name child hc

theorem Layered.of_child (h : m.Layered sources rank) {name : String} {child : Machine}
    (hc : m.subroutines.find? name = some child) : child.Layered sources rank := by
  cases h with
  | intro _ _ below => exact below name child hc

/-- Only the program and the subroutines of a machine matter. -/
theorem Layered.congr (h : m.Layered sources rank) (hp : n.program = m.program)
    (hs : n.subroutines = m.subroutines) : n.Layered sources rank := by
  refine .intro ?_ ?_ ?_
  · rw [hp]
    exact h.loaded
  · intro name child hc
    rw [hp]
    exact h.lower (hs ▸ hc)
  · intro name child hc
    exact h.of_child (hs ▸ hc)

/-- The tree stays ranked when a subroutine of a lower rank is put into it. -/
theorem Layered.hold (h : m.Layered sources rank) {callee : Machine}
    (hc : callee.Layered sources rank)
    (hlower : rank callee.program.reference < rank m.program.reference) (name : String) :
    (m.hold name callee).Layered sources rank := by
  have hfind : ∀ name' child, (m.hold name callee).subroutines.find? name' = some child →
      child = callee ∨ m.subroutines.find? name' = some child := by
    intro name' child hf
    rw [Machine.hold, Table.find?_put] at hf
    split at hf
    · exact Or.inl (Option.some.inj hf).symm
    · exact Or.inr hf
  refine .intro h.loaded ?_ ?_
  · intro name' child hf
    rcases hfind name' child hf with rfl | hf
    · exact hlower
    · exact h.lower hf
  · intro name' child hf
    rcases hfind name' child hf with rfl | hf
    · exact hc
    · exact h.of_child hf

theorem Layered.adopt (h : m.Layered sources rank) {callee : Machine}
    (hc : callee.Layered sources rank)
    (hlower : rank callee.program.reference < rank m.program.reference) (name : String) :
    (m.adopt name callee).Layered sources rank := by
  have hreleased : callee.released.Layered sources rank := hc.congr rfl rfl
  exact h.hold hreleased hlower name

theorem layered_of_empty (hp : Sources.program? sources m.program.reference = some m.program)
    (hs : m.subroutines = Table.empty) : m.Layered sources rank := by
  refine .intro hp ?_ ?_ <;>
    · intro name child hc
      rw [hs, Table.find?_empty] at hc
      cases hc

theorem Layered.forward (h : m.Layered sources rank) (hsources : Sources.Layered sources rank) :
    m.program.Forward :=
  hsources.forward _ (Sources.mem_keys_of_program? h.loaded) _ h.loaded

/-- A line of the machine that declares a source declares one of a lower rank. -/
theorem Layered.declares (h : m.Layered sources rank) (hsources : Sources.Layered sources rank)
    {text name : String} {program : Program} (ht : m.currentLine? = some text)
    (htext : Line.operandOf? .declare text = some name)
    (hprogram : Sources.program? sources name = some program) :
    rank name < rank m.program.reference :=
  hsources.lower _ (Sources.mem_keys_of_program? h.loaded) _ h.loaded text
    (List.mem_of_getElem? ht) name htext (Sources.mem_keys_of_program? hprogram)

/-! ### Lines -/

variable {κ : Type} [Console κ] {s s' : Session κ} {text : String} {m' : Machine} {flow : Flow}

omit [Console κ] in
/-- A line jumps only to the label that stands on it. -/
theorem LineEffect.jump? {target : Nat} (h : m.LineEffect text m' (.jump target)) :
    m' = m ∧ ∃ label, Line.jump? text = some label ∧ m.program.label? label = some target := by
  cases h with
  | @obey i operand _ _ hd ho he =>
      obtain ⟨label, mnemonic, operand?⟩ := i
      cases he with
      | jump _ hm ht =>
          have hjumps : mnemonic.jumps = true := by
            simp only [List.mem_cons, List.not_mem_nil, or_false] at hm
            rcases hm with rfl | rfl | rfl <;> rfl
          refine ⟨rfl, operand, ?_, ht⟩
          rcases ho with ho | ⟨-, hnone, -⟩
          · obtain rfl : operand? = some operand := ho
            simp only [Line.jump?, hd, hjumps, if_true]
          · rw [Mnemonic.takesOperand_of_jumps hjumps] at hnone
            cases hnone

/-- A line that declares a source puts its program in place. -/
theorem perform_declare (hs : s.shelf = .texts sources) {name : String}
    (htext : Line.operandOf? .declare text = some name)
    (h : s.perform (m.line text) = (.ok (m', flow), s')) :
    ∃ program, Sources.program? sources name = some program ∧
      m' = m.hold name (m.subroutine program) := by
  obtain ⟨label, hd⟩ := Line.operandOf?_eq_some_iff.1 htext
  have hobey : m.obeyWords (Text.wordsOf text) = m.declareSubroutine name := by
    simp only [obeyWords_def, hd, obey_def, execute_def]
  simp only [line_def, Session.perform, hobey] at h
  have hshelf : ∀ answer s₁,
      s.trace (Text.wordsOf text) m.accumulator = (answer, s₁) → s₁.shelf = .texts sources := by
    intro answer s₁ htrace
    have hkept := s.shelf_perform (Dialogue.record (Text.wordsOf text) m.accumulator)
    simp only [Dialogue.record, Session.perform, htrace] at hkept
    cases answer <;> exact hkept.trans hs
  split at h
  · cases h
  · next s₁ htrace =>
      simp only [declareSubroutine_def, Dialogue.bind_eq, Dialogue.fetch_bind, Dialogue.log_bind,
        Session.perform] at h
      split at h
      · cases h
      · next program s₂ hload =>
          cases h
          exact ⟨program, (Session.load_eq_ok (hshelf _ _ htrace) hload).1, rfl⟩

/-- A line keeps the tree ranked. -/
theorem Layered.line (h : m.Layered sources rank) (hsources : Sources.Layered sources rank)
    (hs : s.shelf = .texts sources) (ht : m.currentLine? = some text)
    (hp : s.perform (m.line text) = (.ok (m', flow), s')) : m'.Layered sources rank := by
  cases perform_line hp with
  | pass _ => exact h
  | @obey i operand _ _ hd ho he =>
      obtain ⟨label, mnemonic, operand?⟩ := i
      cases he with
      | compute _ _ _ => exact h.congr rfl rfl
      | store => exact h.congr rfl rfl
      | jump _ _ _ => exact h
      | call _ => exact h
      | ret _ => exact h.congr rfl rfl
      | halt => exact h
      | declare _ _ =>
          rcases ho with ho | ⟨-, hnone, -⟩
          · obtain rfl : operand? = some operand := ho
            have htext : Line.operandOf? .declare text = some operand :=
              Line.operandOf?_eq_some_iff.2 ⟨label, hd⟩
            obtain ⟨program, hprogram, hm'⟩ := perform_declare hs htext hp
            rw [hm']
            have hreference : program.reference = operand :=
              Sources.reference_of_program? hprogram
            refine h.hold (layered_of_empty ?_ rfl) ?_ operand
            · change Sources.program? sources program.reference = some program
              rw [hreference, hprogram]
            · change rank program.reference < rank m.program.reference
              rw [hreference]
              exact h.declares hsources ht htext hprogram
          · cases hnone

/-! ### Steps -/

/-- What a step of a ranked machine, by itself, comes to: the machine is on a later line, it has
called one of its subroutines, or it has come to its end. -/
inductive Onward (sources : Table String) (rank : String → Nat) (m : Machine) : Progress → Prop
  | forward {n : Machine} (layered : n.Layered sources rank) (program : n.program = m.program)
      (valid : m.pc < m.program.size) (later : m.pc < n.pc) :
      Onward sources rank m (.running ⟨n, []⟩)
  | call {name : String} {child : Machine} (hc : m.subroutines.find? name = some child) :
      Onward sources rank m (.running ⟨child.invoked m.accumulator, [⟨m, name⟩]⟩)
  | ended (ending : Ending) {n : Machine} (layered : n.Layered sources rank)
      (program : n.program = m.program) : Onward sources rank m (.ended ending n)

/-- **A step of the machine goes forward, calls a machine of a lower rank or is the last one.** -/
theorem Layered.step (h : m.Layered sources rank) (hsources : Sources.Layered sources rank)
    (hs : s.shelf = .texts sources) :
    Onward sources rank m ((Chain.mk m []).step s).1 ∧
      ((Chain.mk m []).step s).2.shelf = .texts sources := by
  cases ht : m.currentLine? with
  | none =>
      rw [Chain.step_of_none (c := ⟨m, []⟩) ht]
      exact ⟨.ended .finished h rfl, (s.shelf_noteAll _).trans hs⟩
  | some text =>
      have hshelf := s.shelf_perform (m.line text)
      have hvalid : m.pc < m.program.size := lt_size_of_currentLine? ht
      rcases hp : s.perform (m.line text) with ⟨cause | ⟨n, flow⟩, s₁⟩ <;>
        rw [hp] at hshelf <;> rw [Chain.step_of_line (c := ⟨m, []⟩) ht hp]
      · exact ⟨.ended _ h rfl, (s₁.shelf_noteAll _).trans (hshelf.trans hs)⟩
      · refine ⟨?_, (s₁.shelf_noteAll _).trans (hshelf.trans hs)⟩
        have he : m.LineEffect text n flow := perform_line hp
        have hn : n.Layered sources rank := h.line hsources hs ht hp
        obtain ⟨hprogram, -, hpc⟩ := he.kept
        cases flow with
        | next =>
            refine .forward (n := n.advance) (hn.congr rfl rfl) hprogram hvalid ?_
            change m.pc < n.pc + 1
            omega
        | jump target =>
            obtain ⟨rfl, label, hlabel, htarget⟩ := he.jump?
            exact .forward (n := n.goto target) (hn.congr rfl rfl) rfl hvalid
              (h.forward hsources _ hvalid _ ht _ hlabel _ htarget)
        | call name callee =>
            obtain ⟨rfl, -, child, hc, rfl⟩ := he.of_call
            exact .call hc
        | ret => exact .ended .returned hn hprogram
        | halt => exact .ended .halted hn hprogram

end Machine

namespace Chain

variable {κ : Type} [Console κ] {sources : Table String} {rank : String → Nat}

/-! ### Coming to an end -/

/-- The chain comes to an end, which leaves a machine with that program and a ranked tree. -/
def Settles (sources : Table String) (rank : String → Nat) (p : Program) (c : Chain)
    (s : Session κ) : Prop :=
  ∃ fuel ending m s', runFor fuel c s = some (ending, m, s') ∧ m.Layered sources rank ∧
    m.program = p ∧ s'.shelf = .texts sources

theorem Settles.of_step {p : Program} {c c₁ : Chain} {s s₁ : Session κ}
    (hs : c.step s = (.running c₁, s₁)) (h : Settles sources rank p c₁ s₁) :
    Settles sources rank p c s := by
  obtain ⟨fuel, ending, m, s', hrun, hm⟩ := h
  exact ⟨fuel + 1, ending, m, s', by rw [runFor_succ_eq, hs]; exact hrun, hm⟩

/-- A call comes to an end if the subroutine does so by itself, and the caller does so whenever it
has come past the line of the call. -/
theorem settles_of_call {m callee : Machine} {name : String} {q : Program} {s : Session κ}
    (hm : m.Layered sources rank) (hlower : rank q.reference < rank m.program.reference)
    (hcallee : Settles sources rank q ⟨callee, []⟩ s)
    (hcaller : ∀ (n : Machine) (s' : Session κ), n.Layered sources rank → n.program = m.program →
      m.pc < n.pc → s'.shelf = .texts sources → Settles sources rank m.program ⟨n, []⟩ s') :
    Settles sources rank m.program ⟨callee, [⟨m, name⟩]⟩ s := by
  obtain ⟨n, ending, left, s', hrun, hleft, rfl, hs'⟩ := hcallee
  obtain ⟨k, -, hk⟩ := runFor_onTopOf hrun [⟨m, name⟩]
  rw [deliver_single] at hk
  have hadopt : (m.adopt name left).Layered sources rank := hm.adopt hleft hlower name
  cases ending with
  | returned =>
      obtain ⟨n', ending', m', s'', hrun', hm'⟩ :=
        hcaller ((m.adopt name left).accumulate left.accumulator).advance
          (s'.note (.completed name (Ending.returned.completion left)))
          (hadopt.congr rfl rfl) rfl (Nat.lt_succ_self m.pc) hs'
      refine ⟨n + n', ending', m', s'', ?_, hm'⟩
      exact (hk n').trans (runFor_mono (Nat.le_add_left n' k) hrun')
  | finished => exact ⟨n + 0, _, _, _, hk 0, hadopt, rfl, hs'⟩
  | halted => exact ⟨n + 0, _, _, _, hk 0, hadopt, rfl, hs'⟩
  | failed failure => exact ⟨n + 0, _, _, _, hk 0, hadopt, rfl, hs'⟩

/-- **A ranked machine comes to its end by itself.**  The induction is on the rank of the machine,
which calls lower, and then on the number of lines that are ahead of it. -/
theorem settles_of_layered (hsources : Sources.Layered sources rank) {m : Machine}
    (hm : m.Layered sources rank) {s : Session κ} (hs : s.shelf = .texts sources) :
    Settles sources rank m.program ⟨m, []⟩ s := by
  induction hrank : rank m.program.reference using Nat.strongRecOn generalizing m s with
  | ind r ihrank =>
      induction hahead : m.program.size - m.pc using Nat.strongRecOn generalizing m s with
      | ind ahead ihahead =>
          obtain ⟨honward, hs₁⟩ := hm.step hsources hs
          rcases hstep : (Chain.mk m []).step s with ⟨progress, s₁⟩
          rw [hstep] at honward hs₁
          cases honward with
          | @forward n hn hprogram hvalid hlater =>
              have hsettles := ihahead (n.program.size - n.pc) (by rw [hprogram]; omega) hn hs₁
                (by rw [hprogram]; exact hrank) rfl
              rw [hprogram] at hsettles
              exact hsettles.of_step hstep
          | @call name child hc =>
              have hlower : rank child.program.reference < rank m.program.reference := hm.lower hc
              have hvalid : m.pc < m.program.size := by
                obtain ⟨text, ht⟩ := (move_of_step hstep).has_line
                exact Machine.lt_size_of_currentLine? ht
              have hcallee : Settles sources rank child.program ⟨child.invoked m.accumulator, []⟩
                  s₁ := by
                have hinvoked : (child.invoked m.accumulator).Layered sources rank :=
                  (hm.of_child hc).congr rfl rfl
                exact ihrank _ (hrank ▸ hlower) hinvoked hs₁ rfl
              refine (settles_of_call hm hlower hcallee ?_).of_step hstep
              intro n s' hn hprogram hlater hs'
              have hsettles := ihahead (n.program.size - n.pc) (by rw [hprogram]; omega) hn hs'
                (by rw [hprogram]; exact hrank) rfl
              rwa [hprogram] at hsettles
          | ended ending hn hprogram =>
              exact ⟨1, ending, _, s₁, by rw [runFor_succ_eq, hstep], hn, hprogram, hs₁⟩

/-! ### Never coming back -/

/-- The outermost machine of the chain has the program, and stands on a line behind the given one;
or it waits on that line, or on one behind it. -/
inductive Behind (p : Program) (i : Nat) : Chain → Prop
  | outside {m : Machine} (hp : m.program = p) (hi : i < m.pc) : Behind p i ⟨m, []⟩
  | inside (c : Chain) {m : Machine} (name : String) (hp : m.program = p) (hi : i ≤ m.pc) :
      Behind p i (c.onTopOf [⟨m, name⟩])

/-- A step of the machine brings it past its line, or makes it wait there. -/
theorem behind_of_step {m : Machine} {c' : Chain} {s s' : Session κ} (hp : m.program.Forward)
    (hs : step ⟨m, []⟩ s = (.running c', s')) : Behind m.program m.pc c' := by
  cases move_of_step hs with
  | @next text n ht he =>
      obtain ⟨hprogram, -, hpc⟩ := he.kept
      exact .outside (m := n.advance) hprogram (Nat.lt_succ_of_le (Nat.le_of_eq hpc.symm))
  | @jump text n target ht he =>
      obtain ⟨rfl, label, hlabel, htarget⟩ := Machine.LineEffect.jump? he
      exact .outside (m := n.goto target) rfl
        (hp _ (Machine.lt_size_of_currentLine? ht) _ ht _ hlabel _ htarget)
  | @call text name child ht hline hc =>
      exact .inside ⟨child.invoked m.accumulator, []⟩ name rfl (Nat.le_refl _)
  | ret ht he hf => cases hf

/-- A chain that has come past a line does not come back. -/
theorem Behind.step {p : Program} {i : Nat} {c c' : Chain} {s s' : Session κ} (h : Behind p i c)
    (hp : p.Forward) (hs : c.step s = (.running c', s')) : Behind p i c' := by
  cases h with
  | @outside m hm hi =>
      subst hm
      cases behind_of_step hp hs with
      | outside hn hpc => exact .outside hn (Nat.lt_trans hi hpc)
      | inside c₁ name hn hpc => exact .inside c₁ name hn (Nat.le_trans (Nat.le_of_lt hi) hpc)
  | @inside c m name hm hi =>
      rw [step_onTopOf] at hs
      rcases hc : c.step s with ⟨c₁ | ⟨ending, callee⟩, s₁⟩ <;> rw [hc] at hs
      · cases hs
        exact .inside c₁ name hm hi
      · dsimp only at hs
        rw [deliver_single] at hs
        cases ending with
        | returned =>
            cases hs
            exact .outside hm (Nat.lt_succ_of_le hi)
        | finished | halted | failed _ => cases hs

theorem Behind.of_outermost {p : Program} {i : Nat} {c : Chain} (h : Behind p i c)
    (hc : c.callers = []) : c.active.program = p ∧ i < c.active.pc := by
  cases h with
  | outside hp hi => exact ⟨hp, hi⟩
  | inside c name _ _ => simp [onTopOf] at hc

/-- **A machine whose program goes forward never comes back to a line that it has left.** -/
theorem Reaches.behind {m : Machine} (hp : m.program.Forward) {c₁ c₂ : Chain}
    {s s₁ s₂ : Session κ} (hs : step ⟨m, []⟩ s = (.running c₁, s₁)) (h : Reaches c₁ s₁ c₂ s₂) :
    Behind m.program m.pc c₂ := by
  induction h with
  | refl => exact behind_of_step hp hs
  | tail _ hstep ih => exact ih.step hp hstep

/-! ### The machines of a run -/

/-- The active machine and its callers have ranked trees, and each has a lower rank than the next
caller. -/
inductive Stacked (sources : Table String) (rank : String → Nat) : Machine → List Frame → Prop
  | outermost {m : Machine} (layered : m.Layered sources rank) : Stacked sources rank m []
  | called {m : Machine} {f : Frame} {callers : List Frame} (layered : m.Layered sources rank)
      (lower : rank m.program.reference < rank f.caller.program.reference)
      (below : Stacked sources rank f.caller callers) : Stacked sources rank m (f :: callers)

theorem Stacked.layered {m : Machine} {callers : List Frame} (h : Stacked sources rank m callers) :
    m.Layered sources rank := by
  cases h with
  | outermost layered => exact layered
  | called layered _ _ => exact layered

theorem Stacked.congr {m n : Machine} {callers : List Frame} (h : Stacked sources rank m callers)
    (hn : n.Layered sources rank) (hp : n.program = m.program) :
    Stacked sources rank n callers := by
  cases h with
  | outermost _ => exact .outermost hn
  | called _ lower below => exact .called hn (by rw [hp]; exact lower) below

omit [Console κ] in
/-- Only a return lets a caller go on. -/
theorem deliver_eq_running {ending : Ending} {m : Machine} {callers : List Frame} {c : Chain}
    (h : (deliver ending m callers).1 = .running c) :
    ∃ f rest, callers = f :: rest ∧ c = ⟨((f.caller.adopt f.callee m).accumulate
      m.accumulator).advance, rest⟩ := by
  cases callers with
  | nil => cases h
  | cons f rest =>
      cases ending with
      | returned =>
          cases h
          exact ⟨f, rest, rfl, rfl⟩
      | halted => cases (deliver_halted m (f :: rest)).symm.trans h
      | failed failure => cases (deliver_failed failure m (f :: rest)).symm.trans h
      | finished => cases (deliver_finished m f rest).symm.trans h

/-- A step keeps the machines of a chain ranked. -/
theorem Stacked.step (hsources : Sources.Layered sources rank) {c c' : Chain} {s s' : Session κ}
    (h : Stacked sources rank c.active c.callers) (hshelf : s.shelf = .texts sources)
    (hs : c.step s = (.running c', s')) :
    Stacked sources rank c'.active c'.callers ∧ s'.shelf = .texts sources := by
  obtain ⟨m, callers⟩ := c
  have hm : m.Layered sources rank := h.layered
  obtain ⟨honward, hs₁⟩ := hm.step hsources hshelf
  have hstep := step_onTopOf ⟨m, []⟩ callers s
  rw [show (onTopOf ⟨m, []⟩ callers).step s = Chain.step ⟨m, callers⟩ s from rfl, hs] at hstep
  rcases halone : Chain.step ⟨m, []⟩ s with ⟨progress, s₁⟩
  rw [halone] at honward hs₁ hstep
  cases honward with
  | @forward n hn hprogram _ _ =>
      cases hstep
      exact ⟨h.congr hn hprogram, hs₁⟩
  | @call name child hc =>
      cases hstep
      have hlower : rank child.program.reference < rank m.program.reference := hm.lower hc
      exact ⟨.called (f := ⟨m, name⟩) ((hm.of_child hc).congr rfl rfl) hlower h, hs₁⟩
  | @ended ending n hn hprogram =>
      obtain ⟨f, rest, rfl, rfl⟩ := deliver_eq_running (congrArg Prod.fst hstep).symm
      cases h with
      | called _ lower below =>
          refine ⟨below.congr ?_ rfl, ?_⟩
          · exact (below.layered.adopt hn (by rw [hprogram]; exact lower) f.callee).congr rfl rfl
          · have hnoted : s' = s₁.noteAll (deliver ending n (f :: rest)).2 :=
              congrArg Prod.snd hstep
            rw [hnoted]
            exact (s₁.shelf_noteAll _).trans hs₁

theorem Reaches.stacked (hsources : Sources.Layered sources rank) {c c' : Chain}
    {s s' : Session κ} (h : Reaches c s c' s') (hc : Stacked sources rank c.active c.callers)
    (hshelf : s.shelf = .texts sources) :
    Stacked sources rank c'.active c'.callers ∧ s'.shelf = .texts sources := by
  induction h with
  | refl => exact ⟨hc, hshelf⟩
  | tail _ hs ih => exact ih.1.step hsources ih.2 hs

end Chain

namespace Session

variable {κ : Type} [Console κ]

/-! ### Whole runs -/

/-- **A forward program over layered sources runs to its end.**  Let the shelf of a session hold
source texts, and let every one of their programs jump forward only and declare only sources of a
lower rank.  Whatever the input is, whatever kind of console the session has, and in every trace
mode, the run of a root that was loaded from these sources ends.  Whenever a machine of the run
takes a step, and stands again without having returned in between, it stands on a later line; so
within one call, and in the root, no line is executed twice. -/
theorem run_forward {sources : Table String} {rank : String → Nat}
    (hsources : Sources.Layered sources rank) {s s₁ : Session κ} (hs : s.shelf = .texts sources)
    {reference : String} {m : Machine} (hm : s.loadMachine reference = (.ok m, s₁)) :
    (∃ fuel answer, m.run fuel s₁ = some answer) ∧
    ∀ c t c₁ t₁ c₂ t₂, Chain.Reaches (Chain.start m) s₁ c t → c.step t = (.running c₁, t₁) →
      Chain.Lasts c.callers.length c₁ t₁ c₂ t₂ → c₂.callers.length = c.callers.length →
      c₂.active.program = c.active.program ∧ c.active.pc < c₂.active.pc := by
  obtain ⟨hloaded, hs₁, hempty⟩ : Sources.program? sources m.program.reference = some m.program ∧
      s₁.shelf = .texts sources ∧ m.subroutines = Table.empty := by
    unfold loadMachine at hm
    rcases hload : s.load reference with ⟨_ | program, s'⟩ <;> rw [hload] at hm <;> cases hm
    obtain ⟨hprogram, hshelf⟩ := load_eq_ok hs hload
    refine ⟨?_, hshelf, rfl⟩
    change Sources.program? sources program.reference = some program
    rw [Sources.reference_of_program? hprogram, hprogram]
  have hlayered : (m.goto 0).Layered sources rank := Machine.layered_of_empty hloaded hempty
  refine ⟨?_, ?_⟩
  · obtain ⟨fuel, ending, m', s', hrun, -⟩ := Chain.settles_of_layered hsources hlayered hs₁
    exact (Machine.run_ends_iff m s₁).2 ⟨fuel, _, hrun⟩
  · intro c t c₁ t₁ c₂ t₂ hreach hstep hlasts hlength
    have hstacked := (hreach.stacked hsources (.outermost hlayered) hs₁).1
    have hforward : c.active.program.Forward := hstacked.layered.forward hsources
    -- By itself, the machine takes the same steps, and comes to a chain without callers.
    have htop : (Chain.onTopOf ⟨c.active, []⟩ c.callers).step t = (.running c₁, t₁) := hstep
    obtain ⟨c₁', rfl, hstep'⟩ := Chain.step_alone htop hlasts.depth_le
    obtain ⟨c₂', rfl, hreach'⟩ := hlasts.alone
    have houtermost : c₂'.callers = [] := by
      simp only [Chain.onTopOf, List.length_append] at hlength
      exact List.length_eq_zero_iff.1 (by omega)
    exact (Chain.Reaches.behind hforward hstep' hreach').of_outermost houtermost

/-- Two sources: the one calls the other and jumps over a line.  Its label stands on two lines, of
which the last one counts. -/
def descent : Table String := .ofList
  [("root", "end INC leaf\nIN\nRUN leaf\nJIZERO end\nOUT\nend HALT"),
    ("leaf", "JINEG out\nINC nowhere\nout RET")]

/-- A session with these sources, and a number for input. -/
def descentSession : Session Buffer where
  shelf := .texts descent
  console := ⟨["-1"], #[]⟩

/-- The run of the root ends, and executes no line twice within a call. -/
theorem run_forward_descent :
    ∃ m s₁, descentSession.loadMachine "root" = (.ok m, s₁) ∧
      (∃ fuel answer, m.run fuel s₁ = some answer) ∧
      ∀ c t c₁ t₁ c₂ t₂, Chain.Reaches (Chain.start m) s₁ c t → c.step t = (.running c₁, t₁) →
        Chain.Lasts c.callers.length c₁ t₁ c₂ t₂ → c₂.callers.length = c.callers.length →
        c₂.active.program = c.active.program ∧ c.active.pc < c₂.active.pc := by
  have hsources : Sources.Layered descent fun reference => if reference = "root" then 1 else 0 :=
    ⟨by decide +kernel, by decide +kernel⟩
  obtain ⟨m, hm⟩ : ∃ m, (descentSession.loadMachine "root").1 = .ok m := ⟨_, rfl⟩
  exact ⟨m, _, Prod.ext hm rfl, run_forward hsources rfl (Prod.ext hm rfl)⟩

end Session

end AccMachine
