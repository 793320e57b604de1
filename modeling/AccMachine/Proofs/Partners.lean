/-
**Two roots that call the same subroutines.**

Two machines may run different programs, or hold different values in some slots, and still have
their subroutines in common.  When both call the same subroutine, with the same accumulator, what
happens below is the same for both until the call is over: the subroutine does not know who waits
for it.  So to compare two such runs, only the lines of the two roots have to be compared.

Main definitions:

* `Machine.Partners` — two machines have all but their programs and some slots in common;
* `Dialogue.MatchingResult` — two results are related values, or failures whose causes correspond;
* `Ending.Matches` — the runs of two machines have come to the same end, each on its own line;
* `Chain.Level` — what a step below two callers comes to;
* `Chain.Paired`, `Chain.SameAnswer` — the chains of the two runs that belong together, and the
  answers in which they end.

Main results:

* `Chain.level_step` — **a step below one caller is the same step below another**;
* `Chain.follows_line` — a line that does the same to both roots keeps the chains paired;
* `Chain.follows_below` — and so does every step below them;
* `Chain.Simulation.ends_together`, `Chain.Simulation.reaches` — the runs end together, and what one
  reaches has a counterpart in the other.
-/

import AccMachine.Proofs.Parallel
import AccMachine.Proofs.Simulation

set_option relaxedAutoImplicit false
set_option autoImplicit false

namespace AccMachine

/-! ### Machines that have much in common -/

namespace Machine

/-- The machine `a` has the program `p` and `b` has `p'`.  They have all else in common, except
perhaps the program counter and slots outside of `K`, and nobody waits for one of them. -/
structure Partners (p p' : Program) (K : String → Prop) (a b : Machine) : Prop where
  program : a.program = p ∧ b.program = p'
  reference : p'.reference = p.reference
  accumulator : b.accumulator = a.accumulator
  slots : ∀ key, K key → b.storage.find? key = a.storage.find? key
  subroutines : ∀ name, b.subroutines.find? name = a.subroutines.find? name
  parent : b.parent = a.parent
  awaited : a.awaited = false ∧ b.awaited = false

namespace Partners

variable {p p' : Program} {K : String → Prop} {a b : Machine}

/-- Roots that have not done anything yet have everything in common but their programs. -/
theorem ofProgram (h : p'.reference = p.reference) :
    Partners p p' K (Machine.ofProgram p) (Machine.ofProgram p') :=
  ⟨⟨rfl, rfl⟩, h, rfl, fun _ _ => rfl, fun _ => rfl, rfl, rfl, rfl⟩

theorem mono {K' : String → Prop} (hK : ∀ key, K' key → K key) (h : Partners p p' K a b) :
    Partners p p' K' a b :=
  { h with slots := fun key hkey => h.slots key (hK key hkey) }

theorem symm (h : Partners p p' K a b) : Partners p' p K b a :=
  ⟨h.program.symm, h.reference.symm, h.accumulator.symm, fun key hkey => (h.slots key hkey).symm,
    fun name => (h.subroutines name).symm, h.parent.symm, h.awaited.symm⟩

theorem goto (h : Partners p p' K a b) (i j : Nat) : Partners p p' K (a.goto i) (b.goto j) :=
  ⟨h.program, h.reference, h.accumulator, h.slots, h.subroutines, h.parent, h.awaited⟩

theorem accumulate (h : Partners p p' K a b) (value : Int64) :
    Partners p p' K (a.accumulate value) (b.accumulate value) :=
  ⟨h.program, h.reference, rfl, h.slots, h.subroutines, h.parent, h.awaited⟩

/-- Once both have stored a slot, they have it in common. -/
theorem store (h : Partners p p' K a b) (key : String) :
    Partners p p' (fun key' => K key' ∨ key = key')
      { a with storage := a.storage.put key a.accumulator }
      { b with storage := b.storage.put key b.accumulator } := by
  refine ⟨h.program, h.reference, h.accumulator, ?_, h.subroutines, h.parent, h.awaited⟩
  intro key' hkey
  simp only [Table.find?_put, h.accumulator]
  by_cases heq : key = key'
  · rw [if_pos heq, if_pos heq]
  · rw [if_neg heq, if_neg heq]
    exact h.slots key' (hkey.resolve_right heq)

theorem put (h : Partners p p' K a b) (name : String) (child : Machine) :
    Partners p p' K { a with subroutines := a.subroutines.put name child }
      { b with subroutines := b.subroutines.put name child } := by
  refine ⟨h.program, h.reference, h.accumulator, h.slots, ?_, h.parent, h.awaited⟩
  intro name'
  simp only [Table.find?_put, h.subroutines name']

theorem adopt (h : Partners p p' K a b) (name : String) (callee : Machine) :
    Partners p p' K (a.adopt name callee) (b.adopt name callee) :=
  h.put name _

/-- What the lines of a program depend on, apart from labels, is in common. -/
theorem common (h : Partners p p' K a b) : Common K (fun _ => True) a b where
  accumulator := h.accumulator
  slots := h.slots
  subroutines := fun name _ => h.subroutines name
  reference := by rw [h.program.1, h.program.2, h.reference]
  awaited := h.awaited

/-- So are the labels, if they correspond. -/
theorem shared {f : Nat → Nat} (h : Partners p p' K a b)
    (hlabels : ∀ label, p'.label? label = (p.label? label).map f) :
    Shared K (fun _ => True) f a b where
  toCommon := h.common
  labels := by
    rw [h.program.1, h.program.2]
    exact hlabels

end Partners

end Machine

/-! ### Runs that come to the same end -/

/-- `MatchingResult ρ R x y`: the results are values related by `R`, or failures, and `ρ` gives the
cause of the second one. -/
inductive Dialogue.MatchingResult {α β : Type} (ρ : Cause → Cause) (R : α → β → Prop) :
    Except Cause α → Except Cause β → Prop
  | ok {a : α} {b : β} (h : R a b) : MatchingResult ρ R (.ok a) (.ok b)
  | error (cause : Cause) : MatchingResult ρ R (.error cause) (.error (ρ cause))

/-- The same failure matches itself, if `ρ` leaves its cause as it is. -/
theorem Dialogue.SameResult.matching {α β : Type} {ρ : Cause → Cause} {R : α → β → Prop}
    {x : Except Cause α} {y : Except Cause β} (h : SameResult R x y)
    (hρ : ∀ cause, x = .error cause → ρ cause = cause) : MatchingResult ρ R x y := by
  cases h with
  | ok h => exact .ok h
  | error cause =>
      have hmatching : MatchingResult ρ R (.error cause) (.error (ρ cause)) := .error cause
      rwa [hρ cause rfl] at hmatching

/-- The runs of two machines have come to the same end.  If they failed, each of the machines stands
on the line of the failure; a failure further in is the same for both, and the cause of one on that
line itself is translated by `ρ`. -/
inductive Ending.Matches (ρ : Cause → Cause) (a b : Machine) : Ending → Ending → Prop
  | finished : Matches ρ a b .finished .finished
  | halted : Matches ρ a b .halted .halted
  | failed (cause : Cause) :
      Matches ρ a b (.failed ⟨[a.here], cause⟩) (.failed ⟨[b.here], ρ cause⟩)
  | within (failure : Failure) (h : failure.locations ≠ []) :
      Matches ρ a b (.failed (failure.within a.here)) (.failed (failure.within b.here))

theorem Ending.Matches.symm {a b : Machine} {ending ending' : Ending}
    (h : Ending.Matches id a b ending ending') : Ending.Matches id b a ending' ending := by
  cases h with
  | finished => exact .finished
  | halted => exact .halted
  | failed cause => exact .failed cause
  | within failure hne => exact .within failure hne

/-- A failure with a single location arose on the line of the machine. -/
theorem Ending.Matches.of_single {ρ : Cause → Cause} {a b : Machine} {location : Location}
    {cause : Cause} {ending' : Ending}
    (h : Ending.Matches ρ a b (.failed ⟨[location], cause⟩) ending') :
    location = a.here ∧ ending' = .failed ⟨[b.here], ρ cause⟩ := by
  generalize hfailed : Ending.failed ⟨[location], cause⟩ = ending at h
  cases h with
  | finished => cases hfailed
  | halted => cases hfailed
  | failed cause =>
      cases hfailed
      exact ⟨rfl, rfl⟩
  | within failure hne =>
      have hlocations : [location] = a.here :: failure.locations :=
        congrArg Failure.locations (Ending.failed.inj hfailed)
      exact absurd (List.cons.inj hlocations).2.symm hne

namespace Chain

theorem outward_locations_ne_nil {failure : Failure} (h : failure.locations ≠ [])
    (callers : List Frame) : (outward failure callers).locations ≠ [] := by
  rw [locations_outward]
  exact List.append_ne_nil_of_right_ne_nil _ h

variable {κ κ' : Type} [Console κ] [Console κ']

/-- A failure in which a step ends has a location. -/
theorem Stop.locations_ne_nil {c : Chain} {s : Session κ} {failure : Failure} {m : Machine}
    (h : c.Stop s (.failed failure) m) : failure.locations ≠ [] := by
  cases h with
  | failed _ _ => exact outward_locations_ne_nil (List.cons_ne_nil _ _) _
  | lost _ _ => exact outward_locations_ne_nil (List.cons_ne_nil _ _) _

/-! ### Steps below two callers -/

/-- `Level r a b name x y`: a step in a call of the subroutine came to `x` for the caller `a` and to
`y` for the caller `b`, with sessions related by `r`, and this is the same: the call goes on, or the
callers take the subroutine back in the same way. -/
inductive Level (r : Session κ → Session κ' → Prop) (a b : Machine) (name : String) :
    Progress × Session κ → Progress × Session κ' → Prop
  | inside (c : Chain) {s : Session κ} {t : Session κ'} (hs : r s t) :
      Level r a b name (.running (c.onTopOf [⟨a, name⟩]), s) (.running (c.onTopOf [⟨b, name⟩]), t)
  | resumed (callee : Machine) {s : Session κ} {t : Session κ'} (hs : r s t) :
      Level r a b name
        (.running ⟨((a.adopt name callee).accumulate callee.accumulator).advance, []⟩, s)
        (.running ⟨((b.adopt name callee).accumulate callee.accumulator).advance, []⟩, t)
  | halted (callee : Machine) {s : Session κ} {t : Session κ'} (hs : r s t) :
      Level r a b name (.ended .halted (a.adopt name callee), s)
        (.ended .halted (b.adopt name callee), t)
  | failed (callee : Machine) (failure : Failure) (h : failure.locations ≠ []) {s : Session κ}
      {t : Session κ'} (hs : r s t) :
      Level r a b name (.ended (.failed (failure.within a.here)) (a.adopt name callee), s)
        (.ended (.failed (failure.within b.here)) (b.adopt name callee), t)
  | lost (callee : Machine) {s : Session κ} {t : Session κ'} (hs : r s t) :
      Level r a b name (.ended (.failed ⟨[a.here], .missingReturn name⟩) (a.adopt name callee), s)
        (.ended (.failed ⟨[b.here], .missingReturn name⟩) (b.adopt name callee), t)

/-- **A step below one caller is the same step below another.** -/
theorem level_step {r : Session κ → Session κ' → Prop} (alike : Session.Alike r) (c : Chain)
    {s : Session κ} {t : Session κ'} (hs : r s t) (a b : Machine) (name : String) :
    Level r a b name ((c.onTopOf [⟨a, name⟩]).step s) ((c.onTopOf [⟨b, name⟩]).step t) := by
  obtain ⟨hprogress, hs'⟩ := step_alike alike c hs
  rw [step_onTopOf, step_onTopOf]
  rcases hc : c.step s with ⟨progress, s'⟩
  rcases hc' : c.step t with ⟨progress', t'⟩
  rw [hc, hc'] at hprogress hs'
  obtain rfl : progress = progress' := hprogress
  cases progress with
  | running c₁ => exact .inside c₁ hs'
  | ended ending callee =>
      have hnoted : ∀ events events', r (s'.noteAll events) (t'.noteAll events') :=
        Session.noteAll_alike alike hs'
      cases ending with
      | finished => exact .lost callee (hnoted _ _)
      | halted => exact .halted callee (hnoted _ _)
      | returned => exact .resumed callee (hnoted _ _)
      | failed failure =>
          exact .failed callee failure (stop_of_step hc).locations_ne_nil (hnoted _ _)

/-! ### Chains of two roots -/

/-- The chains of two runs that belong together.  The roots are partners, and the one stands where
`f` puts the other; above them, both chains are the same. -/
inductive Paired (p p' : Program) (K : String → Prop) (f : Nat → Nat)
    (r : Session κ → Session κ' → Prop) : Chain → Session κ → Chain → Session κ' → Prop
  | outside {a b : Machine} {s : Session κ} {t : Session κ'} (sessions : r s t)
      (machines : a.Partners p p' K b) (pc : b.pc = f a.pc) :
      Paired p p' K f r ⟨a, []⟩ s ⟨b, []⟩ t
  /-- The roots wait on lines that are followed by corresponding lines. -/
  | inside (c : Chain) {a b : Machine} (name : String) {s : Session κ} {t : Session κ'}
      (sessions : r s t) (machines : a.Partners p p' K b) (pc : b.pc = f a.pc)
      (next : f (a.pc + 1) = f a.pc + 1) :
      Paired p p' K f r (c.onTopOf [⟨a, name⟩]) s (c.onTopOf [⟨b, name⟩]) t

omit [Console κ] [Console κ'] in
theorem Paired.mono {p p' : Program} {K K' : String → Prop} {f : Nat → Nat}
    {r r' : Session κ → Session κ' → Prop} (hK : ∀ key, K' key → K key) {c c' : Chain}
    {s : Session κ} {t : Session κ'} (hr : r s t → r' s t) (h : Paired p p' K f r c s c' t) :
    Paired p p' K' f r' c s c' t := by
  cases h with
  | outside hs hm hpc => exact .outside (hr hs) (hm.mono hK) hpc
  | inside c name hs hm hpc hnext => exact .inside c name (hr hs) (hm.mono hK) hpc hnext

/-- The answers of two runs that ended together, on lines that are followed by corresponding lines;
`ρ` translates the causes of failures that arose on these lines. -/
structure SameAnswer (p p' : Program) (K : String → Prop) (f : Nat → Nat) (ρ : Cause → Cause)
    (r : Session κ → Session κ' → Prop) (answer : Answer κ) (answer' : Answer κ') : Prop where
  ending : Ending.Matches ρ answer.2.1 answer'.2.1 answer.1 answer'.1
  machines : answer.2.1.Partners p p' K answer'.2.1
  pc : answer'.2.1.pc = f answer.2.1.pc
  next : f (answer.2.1.pc + 1) = f answer.2.1.pc + 1
  sessions : r answer.2.2 answer'.2.2

variable {p p' : Program} {K : String → Prop} {f : Nat → Nat} {ρ : Cause → Cause}
  {r : Session κ → Session κ' → Prop} {rank : Chain → Nat} {a b : Machine} {s : Session κ}
  {t : Session κ'}

/-- **Every step of a call keeps the chains paired.** -/
theorem follows_below (alike : Session.Alike r) (c : Chain) (name : String) (hs : r s t)
    (h : a.Partners p p' K b) (hpc : b.pc = f a.pc) (hnext : f (a.pc + 1) = f a.pc + 1)
    (hρ : ρ (.missingReturn name) = .missingReturn name) :
    Follows (Paired p p' K f r) (SameAnswer p p' K f ρ r) rank (c.onTopOf [⟨a, name⟩]) s
      (c.onTopOf [⟨b, name⟩]) t := by
  have hlevel := level_step alike c hs a b name
  have hend : ∀ callee, (a.adopt name callee).Partners p p' K (b.adopt name callee) :=
    h.adopt name
  rcases hstep : (c.onTopOf [⟨a, name⟩]).step s with ⟨progress, s'⟩
  rcases hstep' : (c.onTopOf [⟨b, name⟩]).step t with ⟨progress', t'⟩
  rw [hstep, hstep'] at hlevel
  cases hlevel with
  | inside c₁ hs' => exact .together hstep hstep' (.inside c₁ name hs' h hpc hnext)
  | resumed callee hs' =>
      refine .together hstep hstep' (.outside hs' (((hend callee).accumulate _).goto _ _) ?_)
      change b.pc + 1 = f (a.pc + 1)
      rw [hpc, hnext]
  | halted callee hs' => exact .stop hstep hstep' ⟨.halted, hend callee, hpc, hnext, hs'⟩
  | failed callee failure hne hs' =>
      have hmatches : Ending.Matches ρ (a.adopt name callee) (b.adopt name callee)
          (.failed (failure.within a.here)) (.failed (failure.within b.here)) := .within failure hne
      exact .stop hstep hstep' ⟨hmatches, hend callee, hpc, hnext, hs'⟩
  | lost callee hs' =>
      have hmatches : Ending.Matches ρ (a.adopt name callee) (b.adopt name callee)
          (.failed ⟨[a.here], .missingReturn name⟩)
          (.failed ⟨[b.here], ρ (.missingReturn name)⟩) := .failed _
      rw [hρ] at hmatches
      exact .stop hstep hstep' ⟨hmatches, hend callee, hpc, hnext, hs'⟩

/-- **A line that does the same to both roots keeps the chains paired.** -/
theorem follows_line (h : a.Partners p p' K b) (hpc : b.pc = f a.pc)
    (hnext : f (a.pc + 1) = f a.pc + 1) {text text' : String} (ht : a.currentLine? = some text)
    (ht' : b.currentLine? = some text')
    (hresult : Dialogue.MatchingResult ρ (Machine.Concurs K (fun _ => True) f a b)
      (s.perform (a.line text)).1 (t.perform (b.line text')).1)
    (hnoted : ∀ events events', r ((s.perform (a.line text)).2.noteAll events)
      ((t.perform (b.line text')).2.noteAll events')) :
    Follows (Paired p p' K f r) (SameAnswer p p' K f ρ r) rank ⟨a, []⟩ s ⟨b, []⟩ t := by
  rcases hperform : s.perform (a.line text) with ⟨result, s'⟩
  rcases hperform' : t.perform (b.line text') with ⟨result', t'⟩
  rw [hperform, hperform'] at hresult
  simp only [hperform, hperform'] at hnoted
  have hstep := step_of_line (c := ⟨a, []⟩) ht hperform
  have hstep' := step_of_line (c := ⟨b, []⟩) ht' hperform'
  have hadvance : b.pc + 1 = f (a.pc + 1) := by rw [hpc, hnext]
  have hs : r s' t' := hnoted [] []
  cases hresult with
  | error cause => exact .stop hstep hstep' ⟨.failed cause, h, hpc, hnext, hnoted _ _⟩
  | ok hconcurs =>
      cases hconcurs with
      | computed hcomputed =>
          cases hcomputed with
          | accumulate value =>
              exact .together hstep hstep' (.outside hs ((h.accumulate value).goto _ _) hadvance)
          | @store key _ =>
              have hstored := (h.store key).mono fun key' (hkey : K key') => Or.inl hkey
              exact .together hstep hstep' (.outside hs (hstored.goto _ _) hadvance)
      | jump hlabel => exact .together hstep hstep' (.outside hs (h.goto _ _) rfl)
      | declare _ callee =>
          exact .together hstep hstep' (.outside hs ((h.put _ callee).goto _ _) hadvance)
      | call _ callee =>
          exact .together hstep hstep' (.inside ⟨callee, []⟩ _ hs h hpc hnext)
      | halt => exact .stop hstep hstep' ⟨.halted, h, hpc, hnext, hnoted _ _⟩

/-- Roots that have no line left have come to the same end. -/
theorem follows_end (h : a.Partners p p' K b) (hpc : b.pc = f a.pc)
    (hnext : f (a.pc + 1) = f a.pc + 1) (hs : r s t) (ht : a.currentLine? = none)
    (ht' : b.currentLine? = none) :
    Follows (Paired p p' K f r) (SameAnswer p p' K f ρ r) rank ⟨a, []⟩ s ⟨b, []⟩ t :=
  .stop (step_of_none (c := ⟨a, []⟩) ht s) (step_of_none (c := ⟨b, []⟩) ht' t)
    ⟨.finished, h, hpc, hnext, hs⟩

/-! ### Simulations -/

variable {R : Chain → Session κ → Chain → Session κ' → Prop} {Q : Answer κ → Answer κ' → Prop}
  {c c' : Chain}

/-- What the chains and the answers are related by may be changed, in view of the step that the
first chain takes. -/
theorem Follows.imp {R' : Chain → Session κ → Chain → Session κ' → Prop}
    {Q' : Answer κ → Answer κ' → Prop} (h : Follows R Q rank c s c' t)
    (hR : ∀ {c₁ s₁ c₁' t₁}, c.step s = (.running c₁, s₁) → R c₁ s₁ c₁' t₁ → R' c₁ s₁ c₁' t₁)
    (hQ : ∀ {ending m s₁ answer'}, c.step s = (.ended ending m, s₁) → Q (ending, m, s₁) answer' →
      Q' (ending, m, s₁) answer') :
    Follows R' Q' rank c s c' t := by
  cases h with
  | alone hs hr hR₁ => exact .alone hs hr (hR hs hR₁)
  | together hs hs' hR₁ => exact .together hs hs' (hR hs hR₁)
  | stop hs hs' hQ₁ => exact .stop hs hs' (hQ hs hQ₁)

/-- **The runs of two chains that go on in step end together**, with related answers. -/
theorem Simulation.ends_together (sim : Simulation R Q rank) (hR : R c s c' t) :
    ((∃ fuel answer, runFor fuel c s = some answer) ↔
      ∃ fuel answer, runFor fuel c' t = some answer) ∧
    ∀ fuel fuel' answer answer', runFor fuel c s = some answer →
      runFor fuel' c' t = some answer' → Q answer answer' := by
  refine ⟨⟨?_, ?_⟩, ?_⟩
  · rintro ⟨fuel, answer, h⟩
    obtain ⟨fuel', answer', h', -⟩ := sim.forward hR h
    exact ⟨fuel', answer', h'⟩
  · rintro ⟨fuel', answer', h'⟩
    obtain ⟨fuel, answer, h, -⟩ := sim.backward hR h'
    exact ⟨fuel, answer, h⟩
  · intro fuel fuel' answer answer' h h'
    obtain ⟨fuel'', answer'', h'', hQ⟩ := sim.forward hR h
    rwa [runFor_unique h' h'']

/-- What the first run reaches has a counterpart that the second run reaches. -/
theorem Simulation.reaches (sim : Simulation R Q rank) (hR : R c s c' t) {c₁ : Chain}
    {s₁ : Session κ} (h : Reaches c s c₁ s₁) :
    ∃ c₁' t₁, Reaches c' t c₁' t₁ ∧ R c₁ s₁ c₁' t₁ := by
  induction h with
  | refl => exact ⟨c', t, .refl, hR⟩
  | tail _ hs ih =>
      obtain ⟨c₁', t₁, hreach, hR₁⟩ := ih
      cases sim hR₁ with
      | alone hs₁ _ hR₂ =>
          rw [hs] at hs₁
          cases hs₁
          exact ⟨c₁', t₁, hreach, hR₂⟩
      | together hs₁ hs₁' hR₂ =>
          rw [hs] at hs₁
          cases hs₁
          exact ⟨_, _, hreach.tail hs₁', hR₂⟩
      | stop hs₁ _ _ =>
          rw [hs] at hs₁
          cases hs₁

end Chain

end AccMachine
