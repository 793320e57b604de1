/-
**Who says what.**

On a console that refuses nothing, a run can be told by what it says, output by output, and by who
says it: the root, or a subroutine that works for it.  Two sessions whose consoles have the same
input left serve machines in the same way, whatever was said there before; what is said from then on
can be compared output by output.

Main definitions:

* `Session.Peers` — two sessions without a trace, with the same files and the same input;
* `Session.Beside` — two sessions in which corresponding outputs were said since some moment;
* `Chain.sayings` — what a chain says in a number of steps, and whether it is the root that says it;
* `Chain.Comes` — a run comes to a chain after a number of steps.

Main results:

* `Session.beside_alike` — machines cannot tell such sessions apart;
* `Chain.sayings_of_runFor` — once a run has ended, nothing more is said.
-/

import AccMachine.Proofs.Agreement
import AccMachine.Proofs.Simulation
import AccMachine.Proofs.Transcript
import Mathlib.Data.List.Forall2

set_option relaxedAutoImplicit false
set_option autoImplicit false

namespace AccMachine

namespace Session

variable {κ ι : Type} [Console κ] {view : Console.Steady κ ι}

/-! ### Sessions side by side -/

/-- Both sessions keep no trace, and they have the same files and the same input left. -/
structure Peers (view : Console.Steady κ ι) (s t : Session κ) : Prop where
  shelf : t.shelf = s.shelf
  files : t.files = s.files
  input : view.input t.console = view.input s.console
  off : s.tracer.mode = .off ∧ t.tracer.mode = .off

/-- The sessions are peers, and since the moments `s₀` and `t₀`, outputs that correspond by `W` were
said in them. -/
structure Beside (view : Console.Steady κ ι) (W : Output → Output → Prop)
    (s₀ t₀ s t : Session κ) : Prop extends Peers view s t where
  said : ∃ said said', view.outputs s.console = view.outputs s₀.console ++ said ∧
    view.outputs t.console = view.outputs t₀.console ++ said' ∧ List.Forall₂ W said said'

variable {W : Output → Output → Prop} {s₀ t₀ s t : Session κ}

theorem Peers.refl (h : s.tracer.mode = .off) : Peers view s s := ⟨rfl, rfl, rfl, h, h⟩

theorem Peers.beside (h : Peers view s t) : Beside view W s t s t where
  toPeers := h
  said := ⟨[], [], (List.append_nil _).symm, (List.append_nil _).symm, .nil⟩

/-- Corresponding outputs may be said. -/
theorem Beside.emit (h : Beside view W s₀ t₀ s t) {o o' : Output} (hW : W o o') :
    Beside view W s₀ t₀ (s.emit o).2 (t.emit o').2 := by
  obtain ⟨said, said', hs, ht, hsaid⟩ := h.said
  refine ⟨⟨h.shelf, h.files, ?_, h.off⟩, said ++ [o], said' ++ [o'], ?_, ?_, ?_⟩
  · simp only [emit_eq, view.input_emit, h.input]
  · simp only [emit_eq, view.outputs_append, hs, List.append_assoc]
  · simp only [emit_eq, view.outputs_append, ht, List.append_assoc]
  · exact List.rel_append hsaid (.cons hW .nil)

/-- **Machines cannot tell such sessions apart**, if every output corresponds to itself. -/
theorem beside_alike (hW : ∀ o, W o o) (s₀ t₀ : Session κ) : Alike (Beside view W s₀ t₀) where
  emit := by
    intro s t output _ h
    refine ⟨?_, h.emit (hW output)⟩
    simp only [emit_eq, view.emit_ok]
  trace := by
    intro s t words accumulator h
    simp only [trace, h.off.1, h.off.2]
    exact ⟨trivial, h⟩
  readLine := by
    intro s t h
    rw [readLine_eq, readLine_eq]
    refine ⟨?_, ⟨h.shelf, h.files, ?_, h.off⟩, ?_⟩
    · rw [view.read_eq, view.read_eq, h.input]
    · simp only [view.input_read, h.input]
    · simpa only [view.outputs_read] using h.said
  source := by
    intro s t reference h
    simp only [Session.source, h.shelf, h.files]
  noteLeft := fun _ h => ⟨⟨h.shelf, h.files, h.input, h.off⟩, h.said⟩
  noteRight := fun _ h => ⟨⟨h.shelf, h.files, h.input, h.off⟩, h.said⟩

end Session

namespace Chain

variable {κ : Type} [Console κ]

/-! ### What a run says -/

/-- The outputs that the console accepts in the next step of a chain, each with the answer to
whether it is the root that says it. -/
def saying (view : Console.Transcript κ) (c : Chain) (s : Session κ) : List (Bool × Output) :=
  ((view.outputs (c.step s).2.console).drop (view.outputs s.console).length).map fun o =>
    (c.callers.isEmpty, o)

/-- The same for as many steps as the chain takes, but no more than `fuel`. -/
def sayings (view : Console.Transcript κ) : Nat → Chain → Session κ → List (Bool × Output)
  | 0, _, _ => []
  | fuel + 1, c, s =>
    c.saying view s ++
      match c.step s with
      | (.running c', s') => sayings view fuel c' s'
      | (.ended _ _, _) => []

variable {view : Console.Transcript κ} {c c₀ c₁ : Chain} {s s₀ s₁ : Session κ}

/-- **Once a run has ended, nothing more is said.** -/
theorem sayings_of_runFor {fuel : Nat} {answer : Answer κ} (h : runFor fuel c s = some answer)
    {fuel' : Nat} (hle : fuel ≤ fuel') : sayings view fuel' c s = sayings view fuel c s := by
  induction fuel generalizing c s fuel' with
  | zero => cases h
  | succ fuel ih =>
      cases fuel' with
      | zero => cases hle
      | succ fuel' =>
          rw [runFor_succ_eq] at h
          rw [sayings, sayings]
          rcases hs : c.step s with ⟨c₁ | ⟨ending, m⟩, s₁⟩
          · rw [hs] at h
            exact congrArg (c.saying view s ++ ·) (ih h (Nat.le_of_succ_le_succ hle))
          · rfl

/-- After `k` steps, a run that began at the chain `c₀` in the session `s₀` comes to the chain `c`
in the session `s`. -/
structure Comes (view : Console.Transcript κ) (c₀ : Chain) (s₀ : Session κ) (k : Nat) (c : Chain)
    (s : Session κ) : Prop where
  runFor : ∀ n, Chain.runFor (k + n) c₀ s₀ = Chain.runFor n c s
  sayings : ∀ n, Chain.sayings view (k + n) c₀ s₀ =
    Chain.sayings view k c₀ s₀ ++ Chain.sayings view n c s

theorem Comes.refl (view : Console.Transcript κ) (c : Chain) (s : Session κ) :
    Comes view c s 0 c s := by
  constructor <;> intro n
  · rw [Nat.zero_add]
  · rw [Nat.zero_add]
    rfl

/-- The next step says what it says. -/
theorem Comes.sayings_succ {k : Nat} (h : Comes view c₀ s₀ k c s) :
    Chain.sayings view (k + 1) c₀ s₀ = Chain.sayings view k c₀ s₀ ++ c.saying view s := by
  rw [h.sayings 1, Chain.sayings]
  split <;> simp [Chain.sayings]

theorem Comes.next {k : Nat} (h : Comes view c₀ s₀ k c s)
    (hs : c.step s = (.running c₁, s₁)) : Comes view c₀ s₀ (k + 1) c₁ s₁ := by
  constructor <;> intro n
  · rw [Nat.add_right_comm, Nat.add_assoc, h.runFor, runFor_succ_eq, hs]
  · rw [h.sayings_succ, Nat.add_right_comm, Nat.add_assoc, h.sayings, Chain.sayings, hs,
      List.append_assoc]

end Chain

end AccMachine
