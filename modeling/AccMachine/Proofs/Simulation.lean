/-
**Two chains that end together.**

To compare the runs of two machines, their chains are related step by step.  The first chain may
take some steps alone, but only so many in a row: a rank goes down with each of them.  Otherwise the
two chains take a step together, and when one of them stops, so does the other.  Then the two runs
end together, and with related answers.

Main definitions:

* `Chain.Follows` — the ways in which two related chains go on;
* `Chain.Simulation` — related chains always go on in one of them.

Main results:

* `Chain.Simulation.forward` — an answer of the first chain is one of the second;
* `Chain.Simulation.backward` — **an answer of the second chain is one of the first**.
-/

import AccMachine.Machine.Run

set_option relaxedAutoImplicit false
set_option autoImplicit false

namespace AccMachine.Chain

variable {κ κ' : Type} [Console κ] [Console κ']

/-- What a chain that ends leaves: its ending, the outermost machine and the session. -/
abbrev Answer (κ : Type) := Ending × Machine × Session κ

/-- The ways in which two chains, each in its session, go on: the first one takes a step alone,
which brings its rank down; both take a step; or both stop with answers related by `Q`.  As long as
they go on, they stay related by `R`. -/
inductive Follows (R : Chain → Session κ → Chain → Session κ' → Prop)
    (Q : Answer κ → Answer κ' → Prop) (rank : Chain → Nat) (c : Chain) (s : Session κ) (c' : Chain)
    (s' : Session κ') : Prop
  | alone {c₁ : Chain} {s₁ : Session κ} (h : c.step s = (.running c₁, s₁)) (hr : rank c₁ < rank c)
      (hR : R c₁ s₁ c' s')
  | together {c₁ c₁' : Chain} {s₁ : Session κ} {s₁' : Session κ'}
      (h : c.step s = (.running c₁, s₁)) (h' : c'.step s' = (.running c₁', s₁'))
      (hR : R c₁ s₁ c₁' s₁')
  | stop {ending ending' : Ending} {m m' : Machine} {s₁ : Session κ} {s₁' : Session κ'}
      (h : c.step s = (.ended ending m, s₁)) (h' : c'.step s' = (.ended ending' m', s₁'))
      (hQ : Q (ending, m, s₁) (ending', m', s₁'))

/-- Related chains go on in one of these ways. -/
def Simulation (R : Chain → Session κ → Chain → Session κ' → Prop)
    (Q : Answer κ → Answer κ' → Prop) (rank : Chain → Nat) : Prop :=
  ∀ {c : Chain} {s : Session κ} {c' : Chain} {s' : Session κ'}, R c s c' s' →
    Follows R Q rank c s c' s'

omit [Console κ'] in
/-- A run has at most one answer. -/
theorem runFor_unique {c : Chain} {s : Session κ} {fuel fuel' : Nat} {answer answer' : Answer κ}
    (h : runFor fuel c s = some answer) (h' : runFor fuel' c s = some answer') :
    answer = answer' := by
  have hmax := runFor_mono (Nat.le_max_left fuel fuel') h
  rw [runFor_mono (Nat.le_max_right fuel fuel') h'] at hmax
  exact (Option.some.inj hmax).symm

variable {R : Chain → Session κ → Chain → Session κ' → Prop} {Q : Answer κ → Answer κ' → Prop}
  {rank : Chain → Nat}

/-- If the first chain ends, then so does the second, with a related answer. -/
theorem Simulation.forward (sim : Simulation R Q rank) {c c' : Chain} {s : Session κ}
    {s' : Session κ'} (hR : R c s c' s') {fuel : Nat} {answer : Answer κ}
    (h : runFor fuel c s = some answer) :
    ∃ fuel' answer', runFor fuel' c' s' = some answer' ∧ Q answer answer' := by
  induction fuel generalizing c s c' s' with
  | zero => cases h
  | succ fuel ih =>
      rw [runFor_succ_eq] at h
      cases sim hR with
      | alone hs _ hR' =>
          rw [hs] at h
          exact ih hR' h
      | together hs hs' hR' =>
          rw [hs] at h
          obtain ⟨fuel', answer', hrun, hQ⟩ := ih hR' h
          exact ⟨fuel' + 1, answer', by rw [runFor_succ_eq, hs']; exact hrun, hQ⟩
      | stop hs hs' hQ =>
          rw [hs] at h
          obtain rfl := Option.some.inj h
          exact ⟨1, _, by rw [runFor_succ_eq, hs'], hQ⟩

/-- **If the second chain ends, then so does the first**, with a related answer. -/
theorem Simulation.backward (sim : Simulation R Q rank) {c c' : Chain} {s : Session κ}
    {s' : Session κ'} (hR : R c s c' s') {fuel' : Nat} {answer' : Answer κ'}
    (h : runFor fuel' c' s' = some answer') :
    ∃ fuel answer, runFor fuel c s = some answer ∧ Q answer answer' := by
  induction fuel' generalizing c s c' s' with
  | zero => cases h
  | succ fuel' ih =>
      -- Before the next common step, the first chain takes as many steps alone as its rank allows.
      induction hrank : rank c using Nat.strongRecOn generalizing c s with
      | ind r ihrank =>
          cases sim hR with
          | alone hs hr hR' =>
              obtain ⟨fuel, answer, hrun, hQ⟩ := ihrank _ (hrank ▸ hr) hR' rfl
              exact ⟨fuel + 1, answer, by rw [runFor_succ_eq, hs]; exact hrun, hQ⟩
          | together hs hs' hR' =>
              rw [runFor_succ_eq, hs'] at h
              obtain ⟨fuel, answer, hrun, hQ⟩ := ih hR' h
              exact ⟨fuel + 1, answer, by rw [runFor_succ_eq, hs]; exact hrun, hQ⟩
          | stop hs hs' hQ =>
              rw [runFor_succ_eq, hs'] at h
              obtain rfl := Option.some.inj h
              exact ⟨1, _, by rw [runFor_succ_eq, hs], hQ⟩

end AccMachine.Chain
