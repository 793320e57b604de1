/-
**The run of a call.**

A subroutine that is called runs as it would by itself; the callers that wait for it come in only
when it has come to its end.  So a run can be told call by call: what happens below a call is a
whole run of the subroutine, and what it leaves is handed to the caller at once.

Main definitions:

* `Progress.runFor` — going on from where a step has led to;
* `Chain.Lasts` — a part of a run in which there are never fewer callers than a given number.

Main results:

* `Chain.runFor_onTopOf` — **on top of callers, a chain first runs to its end by itself**, and then
  the callers get its ending;
* `Chain.ends_of_onTopOf` — a chain that comes to an end on top of callers does so by itself;
* `Chain.runFor_call` — a run that goes on with a call contains the whole run of the subroutine;
* `Chain.step_alone`, `Chain.Lasts.alone` — as long as the callers of a chain wait, it runs as it
  would by itself;
* `Chain.Reaches.waits`, `Chain.Reaches.madeCall` — **a caller that waits has made its call**, and
  has waited since.
-/

import AccMachine.Proofs.CallChain

set_option relaxedAutoImplicit false
set_option autoImplicit false

namespace AccMachine

variable {κ : Type} [Console κ]

/-- Goes on from where a step has led to: the chain takes at most `fuel` further steps, if it has
not ended. -/
def Progress.runFor (fuel : Nat) (progress : Progress) (s : Session κ) :
    Option (Ending × Machine × Session κ) :=
  match progress with
  | .running c => c.runFor fuel s
  | .ended ending m => some (ending, m, s)

namespace Chain

theorem runFor_succ (fuel : Nat) (c : Chain) (s : Session κ) :
    runFor (fuel + 1) c s = (c.step s).1.runFor fuel (c.step s).2 := by
  rw [runFor_succ_eq]
  rcases c.step s with ⟨_ | _, s'⟩ <;> rfl

/-! ### Runs on top of callers -/

omit [Console κ] in
/-- Every frame takes note of the ending that it gets. -/
theorem deliver_single (ending : Ending) (m : Machine) (f : Frame) :
    deliver ending m [f] =
      ((match f.caller.conclude f.callee m ending with
        | (caller, .resumes) => .running ⟨caller.advance, []⟩
        | (caller, .halts) => .ended .halted caller
        | (caller, .fails failure) => .ended (.failed (failure.within caller.here)) caller),
        [.completed f.callee (ending.completion m)]) := by
  cases ending <;> rfl

omit [Console κ] in
/-- An ending that the callers get takes at least one of them off. -/
theorem length_callers_deliver {ending : Ending} {m : Machine} {callers : List Frame} {c : Chain}
    (h : (deliver ending m callers).1 = .running c) : c.callers.length < callers.length := by
  induction callers generalizing ending m with
  | nil => cases h
  | cons f callers ih =>
      rw [List.length_cons]
      simp only [deliver] at h
      rcases hconclude : f.caller.conclude f.callee m ending with ⟨caller, _ | _ | failure⟩ <;>
        rw [hconclude] at h
      · cases h
        exact Nat.lt_succ_self _
      · exact Nat.lt_succ_of_lt (ih h)
      · exact Nat.lt_succ_of_lt (ih h)

/-- **On top of callers, a chain first runs to its end by itself.**  Then the callers get its
ending, and what is left of the steps is theirs. -/
theorem runFor_onTopOf {n : Nat} {c : Chain} {s s' : Session κ} {ending : Ending} {m : Machine}
    (h : runFor n c s = some (ending, m, s')) (callers : List Frame) :
    ∃ k, k < n ∧ ∀ j, runFor (n + j) (c.onTopOf callers) s =
      (deliver ending m callers).1.runFor (k + j) (s'.noteAll (deliver ending m callers).2) := by
  induction n generalizing c s with
  | zero => cases h
  | succ n ih =>
      rw [runFor_succ] at h
      have hstep := step_onTopOf c callers s
      rcases hs : c.step s with ⟨c₁ | ⟨ending₁, m₁⟩, s₁⟩ <;> rw [hs] at h hstep
      · obtain ⟨k, hk, hrun⟩ := ih h
        refine ⟨k, Nat.lt_succ_of_lt hk, fun j => ?_⟩
        rw [Nat.add_right_comm, runFor_succ, hstep]
        exact hrun j
      · cases h
        refine ⟨n, Nat.lt_succ_self n, fun j => ?_⟩
        rw [Nat.add_right_comm, runFor_succ, hstep]

/-- A chain that comes to an end on top of callers does so by itself. -/
theorem ends_of_onTopOf {fuel : Nat} {c : Chain} {callers : List Frame} {s : Session κ}
    {answer : Ending × Machine × Session κ}
    (h : runFor fuel (c.onTopOf callers) s = some answer) :
    ∃ answer', runFor fuel c s = some answer' := by
  induction fuel generalizing c s with
  | zero => cases h
  | succ fuel ih =>
      rw [runFor_succ, step_onTopOf] at h
      rw [runFor_succ]
      rcases hs : c.step s with ⟨c₁ | ⟨ending, m⟩, s₁⟩ <;> rw [hs] at h
      · exact ih h
      · exact ⟨_, rfl⟩

/-- **A run that goes on with a call contains the whole run of the subroutine**; after it, the
caller goes on with what the subroutine has left. -/
theorem runFor_call {fuel : Nat} {callee : Machine} {f : Frame} {s : Session κ}
    {answer : Ending × Machine × Session κ} (h : runFor fuel ⟨callee, [f]⟩ s = some answer) :
    ∃ ending left s' k, runFor fuel ⟨callee, []⟩ s = some (ending, left, s') ∧ k < fuel ∧
      (deliver ending left [f]).1.runFor k
        (s'.note (.completed f.callee (ending.completion left))) = some answer := by
  have htop : runFor fuel (onTopOf ⟨callee, []⟩ [f]) s = some answer := h
  obtain ⟨⟨ending, left, s'⟩, halone⟩ := ends_of_onTopOf htop
  obtain ⟨k, hk, hrun⟩ := runFor_onTopOf halone [f]
  refine ⟨ending, left, s', k, halone, hk, ?_⟩
  have hrest := hrun 0
  rw [Nat.add_zero, htop, deliver_single] at hrest
  rw [deliver_single]
  exact hrest.symm

/-! ### As long as the callers wait -/

/-- `Lasts depth c s c' s'`: a run that is at `c` comes to `c'`, and on the way there are never
fewer callers than `depth`. -/
inductive Lasts (depth : Nat) (c : Chain) (s : Session κ) : Chain → Session κ → Prop
  | refl (h : depth ≤ c.callers.length) : Lasts depth c s c s
  | tail {c₁ c₂ : Chain} {s₁ s₂ : Session κ} (h : Lasts depth c s c₁ s₁)
      (hs : c₁.step s₁ = (.running c₂, s₂)) (hdepth : depth ≤ c₂.callers.length) :
      Lasts depth c s c₂ s₂

/-- A step after which all callers still wait is one that the chain takes by itself. -/
theorem step_alone {c c' : Chain} {callers : List Frame} {s s' : Session κ}
    (hs : (c.onTopOf callers).step s = (.running c', s'))
    (hdepth : callers.length ≤ c'.callers.length) :
    ∃ c₁, c' = c₁.onTopOf callers ∧ c.step s = (.running c₁, s') := by
  have hstep := step_onTopOf c callers s
  rw [hs] at hstep
  rcases halone : c.step s with ⟨c₁ | ⟨ending, m⟩, s₁⟩ <;> rw [halone] at hstep
  · cases hstep
    exact ⟨c₁, rfl, rfl⟩
  · -- The chain has ended by itself, so one of the callers does not wait any more.
    have hdeliver := (congrArg Prod.fst hstep).symm
    exact absurd (length_callers_deliver hdeliver) (Nat.not_lt.2 hdepth)

/-- **As long as its callers wait, a chain runs as it would by itself.** -/
theorem Lasts.alone {c c' : Chain} {callers : List Frame} {s s' : Session κ}
    (h : Lasts callers.length (c.onTopOf callers) s c' s') :
    ∃ c₁, c' = c₁.onTopOf callers ∧ Reaches c s c₁ s' := by
  induction h with
  | refl => exact ⟨c, rfl, .refl⟩
  | tail _ hs hdepth ih =>
      obtain ⟨c₁, rfl, hreach⟩ := ih
      obtain ⟨c₂, rfl, hstep⟩ := step_alone hs hdepth
      exact ⟨c₂, rfl, hreach.tail hstep⟩

theorem Lasts.depth_le {depth : Nat} {c c' : Chain} {s s' : Session κ}
    (h : Lasts depth c s c' s') : depth ≤ c.callers.length := by
  induction h with
  | refl hdepth => exact hdepth
  | tail _ _ _ ih => exact ih

/-- **A caller that waits in a run that began without callers has made its call in that run, and has
waited since.** -/
theorem Reaches.waits {c c' : Chain} {s s' : Session κ} (h : Reaches c s c' s')
    (hc : c.callers = []) {inner outer : List Frame} {f : Frame}
    (hf : c'.callers = inner ++ f :: outer) :
    ∃ s₀ callee s₁, Reaches c s ⟨f.caller, outer⟩ s₀ ∧
      step ⟨f.caller, outer⟩ s₀ = (.running ((start callee).onTopOf (f :: outer)), s₁) ∧
      Lasts (f :: outer).length ((start callee).onTopOf (f :: outer)) s₁ c' s' := by
  induction h generalizing inner f outer with
  | refl =>
      rw [hc] at hf
      exact absurd hf.symm (List.append_ne_nil_of_right_ne_nil _ (List.cons_ne_nil _ _))
  | @tail c₁ c₂ s₁ s₂ hreach hs ih =>
      have hdepth : (f :: outer).length ≤ c₂.callers.length := by
        rw [hf, List.length_append]
        exact Nat.le_add_left _ _
      -- Unless the step is the call itself, the caller was waiting before.
      have hwaited : ∀ {before : List Frame}, c₁.callers = before ++ f :: outer →
          ∃ s₀ callee s₃, Reaches c s ⟨f.caller, outer⟩ s₀ ∧
            step ⟨f.caller, outer⟩ s₀ = (.running ((start callee).onTopOf (f :: outer)), s₃) ∧
            Lasts (f :: outer).length ((start callee).onTopOf (f :: outer)) s₃ c₂ s₂ := by
        intro before hbefore
        obtain ⟨s₀, callee, s₃, hcaller, hcall, hlasts⟩ := ih hbefore
        exact ⟨s₀, callee, s₃, hcaller, hcall, hlasts.tail hs hdepth⟩
      cases move_of_step hs with
      | next ht he => exact hwaited hf
      | jump ht he => exact hwaited hf
      | @ret text m first callers ht he hcallers =>
          -- The step takes off another frame, further in than `f`.
          obtain rfl : callers = inner ++ f :: outer := hf
          rw [← List.cons_append] at hcallers
          exact hwaited hcallers
      | @call text name child ht hline hchild =>
          cases inner with
          | nil =>
              obtain ⟨active, callers⟩ := c₁
              cases hf
              exact ⟨s₁, child.invoked active.accumulator, s₂, hreach, hs, .refl hdepth⟩
          | cons first inner => exact hwaited (List.cons.inj hf).2

/-- Such a caller has not changed since it made its call. -/
theorem Reaches.madeCall {c c' : Chain} {s s' : Session κ} (h : Reaches c s c' s')
    (hc : c.callers = []) {inner outer : List Frame} {f : Frame}
    (hf : c'.callers = inner ++ f :: outer) : MadeCall c s f outer := by
  obtain ⟨s₀, callee, s₁, hreach, hstep, -⟩ := h.waits hc hf
  exact ⟨s₀, callee.goto 0, s₁, hreach, hstep⟩

end Chain

end AccMachine
