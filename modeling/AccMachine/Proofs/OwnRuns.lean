/-
**The runs of subroutines in the tree that a run leaves.**

A subroutine that is called runs as it would by itself, and what its run leaves is put back in its
place.  Then nothing happens to it, or to the tree below it, until it is called again or its place
is made anew.  So the tree at the end of a run can be told from the history: a machine in it is what
the last run of its own has left, or it was not called in this run, and then it is as it was before,
or as it was declared.

Main definitions:

* `Machine.EndsIn` — the run of a machine comes to an end, before a sheet is written;
* `Deed.called?`, `Deed.Touches` — the subroutine that a deed calls, and the places that it makes
  anew or enters;
* `Chain.LastTouched` — the last moment of a run whose deed touches a machine.

Main results:

* `Chain.Move.at?_apart` — **a step changes only the machines of its chain** and those it touches;
* `Chain.Stop.at?_apart` — nor does the end of a run change any other;
* `Chain.Passes.ownRun` — a subroutine that was called is still running, or it has returned and is
  in its place as its own run has left it;
* `Chain.Passes.at?_untouched`, `Chain.Passes.pc_lastRenewal`, `Chain.Passes.at?_lastCall` — **the
  machines that a run leaves**: one that no deed touches, one that was declared last, and one that
  was called last.
-/

import AccMachine.Proofs.CallRuns
import AccMachine.Proofs.StorageHistory

set_option relaxedAutoImplicit false
set_option autoImplicit false

namespace AccMachine

/-- `m.EndsIn s ending m' s'`: the run of the machine in the session `s` comes to that ending, and
leaves the machine `m'` and the session `s'`, in which no sheet is written yet. -/
def Machine.EndsIn {κ : Type} [Console κ] (m : Machine) (s : Session κ) (ending : Ending)
    (m' : Machine) (s' : Session κ) : Prop :=
  ∃ c s₁, Chain.Reaches (Chain.start m) s c s₁ ∧ c.step s₁ = (.ended ending m', s')

/-! ### The places that a deed touches -/

namespace Deed

/-- The path to the subroutine that was called. -/
def called? (d : Deed) : Option (List String) :=
  (Line.operandOf? .run d.text).map fun name => d.path ++ [name]

/-- The deed makes the machine at the path anew, or removes it, or calls it. -/
def Touches (d : Deed) (path : List String) : Prop := d.Renews path ∨ d.called? = some path

end Deed

namespace Chain

/-- The place of a subroutine that the active machine declares. -/
theorem renews_of_declares {c : Chain} {text name : String} {label : Option String}
    (ht : c.active.currentLine? = some text)
    (hd : Line.decode (Text.wordsOf text) = .ok (.instruction ⟨label, .declare, some name⟩))
    {path : List String} (h : pathOf c.callers ++ [name] <+: path) : c.deed.Renews path := by
  refine ⟨pathOf c.callers ++ [name], ?_, h⟩
  rw [Deed.declared?, deed_text ht, Line.operandOf?_eq_some_iff.2 ⟨label, hd⟩]
  rfl

/-- The place of a subroutine that the active machine calls. -/
theorem called?_eq {c : Chain} {name : String} (h : c.active.CallsAt name) :
    c.deed.called? = some (pathOf c.callers ++ [name]) := by
  obtain ⟨text, label, ht, hd⟩ := h
  rw [Deed.called?, deed_text ht, Line.operandOf?_eq_some_iff.2 ⟨label, hd⟩]
  rfl

/-- Only a line that calls has the deed of a call. -/
theorem callsAt_of_called? {c : Chain} {text : String} (ht : c.active.currentLine? = some text)
    {path : List String} (h : c.deed.called? = some path) :
    ∃ name, c.active.CallsAt name ∧ path = pathOf c.callers ++ [name] := by
  obtain ⟨name, hname, rfl⟩ := Option.map_eq_some_iff.1 h
  rw [deed_text ht] at hname
  obtain ⟨label, hd⟩ := Line.operandOf?_eq_some_iff.1 hname
  exact ⟨name, ⟨text, label, ht, hd⟩, rfl⟩

/-- **A step that calls puts the subroutine on top of its caller.** -/
theorem Move.of_called? {c c' : Chain} (h : c.Move c') {path : List String}
    (hcall : c.deed.called? = some path) :
    ∃ (name : String) (child : Machine), path = pathOf c.callers ++ [name] ∧
      c' = ⟨child.invoked c.active.accumulator, ⟨c.active, name⟩ :: c.callers⟩ := by
  obtain ⟨text, ht⟩ := h.has_line
  obtain ⟨name, ⟨text', label, ht', hd⟩, rfl⟩ := callsAt_of_called? ht hcall
  obtain rfl : text' = text := Option.some.inj (ht'.symm.trans ht)
  cases h with
  | next ht'' he =>
      cases ht''.symm.trans ht
      obtain ⟨operand, -, he⟩ := he.of_instruction hd
      cases he with
      | compute _ _ hm => exact absurd (by decide) hm
  | jump ht'' he =>
      cases ht''.symm.trans ht
      obtain ⟨operand, -, he⟩ := he.of_instruction hd
      cases he with
      | jump _ hm _ => exact absurd hm (by decide)
  | ret ht'' he _ =>
      cases ht''.symm.trans ht
      obtain ⟨operand, -, he⟩ := he.of_instruction hd
      cases he
  | @call text'' name' child ht'' hline hc =>
      obtain ⟨text₁, label₁, ht₁, hd₁⟩ := hline
      obtain rfl : text₁ = text' := Option.some.inj (ht₁.symm.trans ht)
      rw [hd] at hd₁
      cases hd₁
      exact ⟨name, child, rfl, rfl⟩

/-- **A step that declares a subroutine puts a new one in its place.** -/
theorem Move.of_declared? {c c' : Chain} (h : c.Move c') {target : List String}
    (hdeclared : c.deed.declared? = some target) :
    ∃ (name : String) (program : Program), target = pathOf c.callers ++ [name] ∧
      c' = ⟨(c.active.hold name (c.active.subroutine program)).advance, c.callers⟩ := by
  obtain ⟨name, hname, rfl⟩ := Option.map_eq_some_iff.1 hdeclared
  obtain ⟨text, ht⟩ := h.has_line
  rw [deed_text ht] at hname
  obtain ⟨label, hd⟩ := Line.operandOf?_eq_some_iff.1 hname
  cases h with
  | next ht' he =>
      cases ht'.symm.trans ht
      obtain ⟨operand, ho, he⟩ := he.of_instruction hd
      cases he with
      | compute _ _ hm => exact absurd (by decide) hm
      | declare program hp =>
          obtain rfl : name = operand := by
            rcases ho with ho | ⟨ho, -⟩
            · exact Option.some.inj ho
            · cases ho
          exact ⟨name, program, rfl, rfl⟩
  | jump ht' he =>
      cases ht'.symm.trans ht
      obtain ⟨operand, -, he⟩ := he.of_instruction hd
      cases he with
      | jump _ hm _ => exact absurd hm (by decide)
  | ret ht' he _ =>
      cases ht'.symm.trans ht
      obtain ⟨operand, -, he⟩ := he.of_instruction hd
      cases he
  | call ht' hline _ =>
      obtain ⟨text₁, label₁, ht₁, hd₁⟩ := hline
      cases ht₁.symm.trans ht
      rw [hd] at hd₁
      cases hd₁

/-- A machine that is made anew is away from the chain, and stands on its first line. -/
theorem Move.at?_renewed {c c' : Chain} (h : c.Move c') {path : List String}
    (hdeed : c.deed.Renews path) :
    ¬ path <+: pathOf c'.callers ∧
      ∀ n, (whole c'.active c'.callers).at? path = some n → n.pc = 0 := by
  obtain ⟨target, htarget, rest, rfl⟩ := hdeed
  obtain ⟨name, program, rfl, rfl⟩ := h.of_declared? htarget
  rw [List.append_assoc, List.singleton_append]
  constructor
  · intro hbegins
    have hlength : _ ≤ (pathOf c.callers).length := hbegins.length_le
    rw [List.length_append, List.length_cons] at hlength
    omega
  · intro n hn
    rw [at?_whole] at hn
    have hnew : (c.active.subroutine program).at? rest = some n := by
      rw [← hn]
      exact (Machine.at?_hold_self c.active name (c.active.subroutine program) rest).symm
    -- Nothing is declared below the new subroutine.
    cases rest with
    | nil =>
        cases hnew
        rfl
    | cons first rest => cases hnew

/-! ### Away from the chain -/

/-- A machine away from the chain is found below the active machine, or does not depend on it. -/
theorem at?_whole_congr {m n : Machine} {callers : List Frame} {path : List String}
    (hout : ¬ path <+: pathOf callers)
    (h : ∀ first rest, path = pathOf callers ++ first :: rest →
      m.at? (first :: rest) = n.at? (first :: rest)) :
    (whole m callers).at? path = (whole n callers).at? path := by
  induction callers generalizing m n with
  | nil =>
      cases path with
      | nil => exact absurd List.nil_prefix hout
      | cons first rest => exact h first rest rfl
  | cons f callers ih =>
      rw [pathOf_cons] at hout h
      refine ih (m := f.caller.hold f.callee m) (n := f.caller.hold f.callee n)
        (fun hbegins => hout (hbegins.trans (List.prefix_append _ _))) ?_
      rintro first rest rfl
      by_cases hfirst : f.callee = first
      · subst hfirst
        rw [Machine.at?_hold_self, Machine.at?_hold_self]
        cases rest with
        | nil => exact absurd List.prefix_rfl hout
        | cons second rest => exact h second rest (by simp)
      · rw [Machine.at?_hold_of_ne _ hfirst, Machine.at?_hold_of_ne _ hfirst]

/-- A caller that takes its subroutine back has the same machines below as one that holds it. -/
theorem at?_adopt_cons (caller callee : Machine) (name : String) {first : String}
    {rest : List String} (h : first :: rest ≠ [name]) :
    (caller.adopt name callee).at? (first :: rest) =
      (caller.hold name callee).at? (first :: rest) := by
  have hadopt : caller.adopt name callee = caller.hold name callee.released := rfl
  by_cases hfirst : name = first
  · subst hfirst
    have hrest : rest ≠ [] := by
      rintro rfl
      exact h rfl
    rw [hadopt, Machine.at?_hold_self, Machine.at?_hold_self]
    exact Machine.at?_released callee hrest
  · rw [hadopt, Machine.at?_hold_of_ne _ hfirst, Machine.at?_hold_of_ne _ hfirst]

/-- **A step changes only the machines of its chain and those it touches.** -/
theorem Move.at?_apart {c c' : Chain} (h : c.Move c') {path : List String}
    (hout : ¬ path <+: pathOf c.callers) (hdeed : ¬ c.deed.Touches path) :
    ¬ path <+: pathOf c'.callers ∧
      (whole c'.active c'.callers).at? path = (whole c.active c.callers).at? path := by
  cases h with
  | @next text m ht he =>
      refine ⟨hout, at?_whole_congr hout fun first rest hpath => ?_⟩
      have hsubroutines : ∀ {n : Machine}, n.subroutines = c.active.subroutines →
          n.at? (first :: rest) = c.active.at? (first :: rest) :=
        fun hn => Machine.at?_congr hn (List.cons_ne_nil _ _)
      cases he with
      | pass _ => exact hsubroutines rfl
      | @obey i operand _ _ hd ho he =>
          obtain ⟨label, mnemonic, operand?⟩ := i
          cases he with
          | compute _ _ _ => exact hsubroutines rfl
          | store => exact hsubroutines rfl
          | declare program hp =>
              obtain rfl : operand? = some operand := by
                rcases ho with ho | ⟨-, htakes, -⟩
                · exact ho
                · cases htakes
              -- A subroutine of the name `first` would be made anew, so another one is declared.
              have hfirst : operand ≠ first := by
                rintro rfl
                refine hdeed (Or.inl (renews_of_declares ht hd ?_))
                rw [hpath]
                simp
              exact Machine.at?_hold_of_ne _ hfirst _ _
  | @jump text m target ht he =>
      refine ⟨hout, at?_whole_congr hout fun first rest _ => ?_⟩
      refine Machine.at?_congr ?_ (List.cons_ne_nil _ _)
      cases he with
      | @obey i _ _ _ _ _ he =>
          obtain ⟨label, mnemonic, operand?⟩ := i
          cases he with
          | jump _ _ _ => rfl
  | @call text name child ht hline hc =>
      have hne : path ≠ pathOf c.callers ++ [name] := by
        rintro rfl
        exact hdeed (Or.inr (called?_eq hline))
      refine ⟨?_, ?_⟩
      · rw [pathOf_cons, List.prefix_concat_iff, not_or]
        exact ⟨hne, hout⟩
      · refine at?_whole_congr (m := c.active.hold name (child.invoked c.active.accumulator)) hout
          fun first rest hpath => ?_
        by_cases hfirst : name = first
        · subst hfirst
          have hrest : rest ≠ [] := by
            rintro rfl
            exact hne hpath
          rw [Machine.at?_hold_self, Machine.at?_cons hc]
          exact Machine.at?_congr (m := child.invoked _) (n := child) rfl hrest
        · exact Machine.at?_hold_of_ne _ hfirst _ _
  | @ret text m f callers ht he hf =>
      obtain ⟨-, rfl⟩ := he.of_ret
      rw [hf, pathOf_cons, List.prefix_concat_iff, not_or] at hout
      obtain ⟨hne, hout⟩ := hout
      rw [hf]
      refine ⟨hout, at?_whole_congr (n := f.caller.hold f.callee c.active) hout
        fun first rest hpath => ?_⟩
      have hcallee : first :: rest ≠ [f.callee] := fun h => hne (by rw [hpath, h])
      rw [← at?_adopt_cons f.caller c.active f.callee hcallee]
      exact Machine.at?_congr rfl (List.cons_ne_nil _ _)

/-- Away from the chain, it makes no difference whether the callers hold the machines that they
called, or take them back. -/
theorem at?_adoptAll_apart {m : Machine} {callers : List Frame} {path : List String}
    (hout : ¬ path <+: pathOf callers) :
    (adoptAll m callers).at? path = (whole m callers).at? path := by
  induction callers generalizing m with
  | nil => rfl
  | cons f callers ih =>
      rw [pathOf_cons, List.prefix_concat_iff, not_or] at hout
      obtain ⟨hne, hout⟩ := hout
      rw [adoptAll, ih hout]
      refine at?_whole_congr hout fun first rest hpath => ?_
      exact at?_adopt_cons _ _ _ fun h => hne (by rw [hpath, h])

variable {κ : Type} [Console κ]

/-- **The end of a run changes no machine away from its chain.** -/
theorem Stop.at?_apart {c : Chain} {s : Session κ} {ending : Ending} {m : Machine}
    (h : c.Stop s ending m) {path : List String} (hout : ¬ path <+: pathOf c.callers) :
    m.at? path = (whole c.active c.callers).at? path := by
  cases h with
  | failed | halted => exact at?_adoptAll_apart hout
  | returned ht he hf =>
      obtain ⟨-, rfl⟩ := he.of_ret
      rw [hf] at hout ⊢
      have hpath : path ≠ [] := by
        rintro rfl
        exact hout List.nil_prefix
      exact Machine.at?_released c.active hpath
  | finished ht hf =>
      rw [hf]
      rfl
  | lost ht hf =>
      rw [hf] at hout ⊢
      exact at?_adoptAll_apart hout

/-! ### The last moment that touches a machine -/

/-- `LastTouched passed path c s`: of the moments that a run went through, this is the last one
whose deed touches the machine at the path. -/
def LastTouched (passed : List (Chain × Session κ)) (path : List String) (c : Chain)
    (s : Session κ) : Prop :=
  ∃ before after, passed = before ++ (c, s) :: after ∧ c.deed.Touches path ∧
    ∀ d ∈ deedsOf after, ¬ d.Touches path

omit [Console κ] in
/-- Either some moment is the last one that touches the machine, or none does. -/
theorem untouched_or_lastTouched (passed : List (Chain × Session κ)) (path : List String) :
    (∀ d ∈ deedsOf passed, ¬ d.Touches path) ∨ ∃ c s, LastTouched passed path c s := by
  induction passed with
  | nil => exact Or.inl nofun
  | cons moment passed ih =>
      rcases ih with hnone | ⟨c, s, before, after, rfl, htouches, hafter⟩
      · by_cases htouches : moment.1.deed.Touches path
        · exact Or.inr ⟨moment.1, moment.2, [], passed, rfl, htouches, hnone⟩
        · exact Or.inl (List.forall_mem_cons.2 ⟨htouches, hnone⟩)
      · exact Or.inr ⟨c, s, moment :: before, after, rfl, htouches, hafter⟩

/-! ### The machines that a run leaves -/

/-- A run takes a step at every moment of its past. -/
theorem Passes.split {c c' : Chain} {s s' : Session κ} {passed : List (Chain × Session κ)}
    (h : Passes c s passed c' s') {before after : List (Chain × Session κ)} {c₀ : Chain}
    {s₀ : Session κ} (heq : passed = before ++ (c₀, s₀) :: after) :
    ∃ c₁ s₁, c₀.step s₀ = (.running c₁, s₁) ∧ Passes c₁ s₁ after c' s' := by
  induction h generalizing after with
  | refl => exact absurd heq.symm (List.append_ne_nil_of_right_ne_nil _ (List.cons_ne_nil _ _))
  | @tail passed c₁ c₂ s₁ s₂ _ hs ih =>
      rcases List.eq_nil_or_concat after with rfl | ⟨after, last, rfl⟩
      · obtain ⟨rfl, hlast⟩ := List.append_inj' heq rfl
        cases hlast
        exact ⟨c₂, s₂, hs, .refl⟩
      · rw [List.concat_eq_append, ← List.cons_append, ← List.append_assoc] at heq
        obtain ⟨hpassed, hlast⟩ := List.append_inj' heq rfl
        cases hlast
        obtain ⟨c₃, s₃, hstep, hrest⟩ := ih hpassed
        rw [List.concat_eq_append]
        exact ⟨c₃, s₃, hstep, hrest.tail hs⟩

/-- A machine away from the chain that no deed touches stays as it is. -/
theorem Passes.at?_apart {c c' : Chain} {s s' : Session κ} {passed : List (Chain × Session κ)}
    (h : Passes c s passed c' s') {path : List String} (hout : ¬ path <+: pathOf c.callers)
    (hdeeds : ∀ d ∈ deedsOf passed, ¬ d.Touches path) :
    ¬ path <+: pathOf c'.callers ∧
      (whole c'.active c'.callers).at? path = (whole c.active c.callers).at? path := by
  induction h with
  | refl => exact ⟨hout, rfl⟩
  | @tail passed c₁ c₂ s₁ s₂ _ hs ih =>
      rw [deedsOf_concat] at hdeeds
      obtain ⟨hbefore, hat⟩ := ih fun d hd => hdeeds d (List.mem_append_left _ hd)
      obtain ⟨hafter, hat'⟩ := (move_of_step hs).at?_apart hbefore (hdeeds _ (by simp))
      exact ⟨hafter, hat'.trans hat⟩

/-- **A machine that a run does not touch is left as it was.** -/
theorem Passes.at?_untouched {m m' : Machine} {s s₁ s₂ : Session κ} {c : Chain}
    {passed : List (Chain × Session κ)} {ending : Ending}
    (h : Passes (start m) s passed c s₁) (hs : c.step s₁ = (.ended ending m', s₂))
    {path : List String} (hpath : path ≠ [])
    (hdeeds : ∀ d ∈ deedsOf passed, ¬ d.Touches path) : m'.at? path = m.at? path := by
  have hstart : ¬ path <+: pathOf (start m).callers := fun hbegins =>
    hpath (List.prefix_nil.1 hbegins)
  obtain ⟨hout, hat⟩ := h.at?_apart hstart hdeeds
  rw [(stop_of_step hs).at?_apart hout, hat]
  exact Machine.at?_congr (m := m.goto 0) (n := m) rfl hpath

/-- Only a return lets the caller of a subroutine go on; the subroutine is then in its place. -/
theorem at?_of_deliver {ending : Ending} {left : Machine} {callers : List Frame} {c : Chain}
    (h : (deliver ending left callers).1 = .running c) :
    ¬ pathOf callers <+: pathOf c.callers ∧
      (whole c.active c.callers).at? (pathOf callers) = some left.released := by
  cases callers with
  | nil => cases h
  | cons f callers =>
      cases ending with
      | returned =>
          cases h
          refine ⟨fun hbegins => ?_, ?_⟩
          · have hlength := hbegins.length_le
            rw [pathOf_cons, List.length_append, List.length_singleton] at hlength
            exact absurd hlength (Nat.not_succ_le_self _)
          · rw [pathOf_cons, at?_whole]
            exact Machine.at?_hold_self _ _ _ _
      | halted =>
          rw [deliver_halted] at h
          cases h
      | failed failure =>
          rw [deliver_failed] at h
          cases h
      | finished =>
          rw [deliver_finished] at h
          cases h

/-- An ending that goes out to the outermost machine leaves the subroutine in its place. -/
theorem at?_of_deliver_ended {ending ending' : Ending} {left m : Machine} {callers : List Frame}
    (hcallers : callers ≠ []) (h : (deliver ending left callers).1 = .ended ending' m) :
    m.at? (pathOf callers) = some left.released := by
  obtain ⟨f, callers, rfl⟩ := List.exists_cons_of_ne_nil hcallers
  have hall : m = adoptAll left (f :: callers) := by
    cases ending with
    | returned => cases h
    | halted =>
        rw [deliver_halted] at h
        cases h
        rfl
    | failed failure =>
        rw [deliver_failed] at h
        cases h
        rfl
    | finished =>
        rw [deliver_finished] at h
        cases h
        rfl
  rw [hall]
  exact at?_adoptAll_below (at?_adoptAll _ _)

omit [Console κ] in
theorem le_length_onTopOf (c : Chain) (callers : List Frame) :
    callers.length ≤ (c.onTopOf callers).callers.length := by
  rw [onTopOf, List.length_append]
  exact Nat.le_add_left _ _

/-- **A subroutine that was called is still running, or it has returned** and is in its place as
its own run has left it. -/
theorem Passes.ownRun {callee : Machine} {callers : List Frame} {c : Chain} {s s' : Session κ}
    {passed : List (Chain × Session κ)}
    (h : Passes ((start callee).onTopOf callers) s passed c s')
    (hdeeds : ∀ d ∈ deedsOf passed, ¬ d.Touches (pathOf callers)) :
    Lasts callers.length ((start callee).onTopOf callers) s c s' ∨
      ∃ ending left s₁, callee.EndsIn s ending left s₁ ∧
        ¬ pathOf callers <+: pathOf c.callers ∧
        (whole c.active c.callers).at? (pathOf callers) = some left.released := by
  induction h with
  | refl => exact Or.inl (.refl (le_length_onTopOf _ _))
  | @tail passed c₁ c₂ s₁ s₂ _ hs ih =>
      rw [deedsOf_concat] at hdeeds
      rcases ih fun d hd => hdeeds d (List.mem_append_left _ hd) with
        hlasts | ⟨ending, left, s₃, hends, hout, hat⟩
      · obtain ⟨own, rfl, hreach⟩ := hlasts.alone
        have hstep := step_onTopOf own callers s₁
        rw [hs] at hstep
        rcases hown : own.step s₁ with ⟨own' | ⟨ending, left⟩, s₃⟩ <;> rw [hown] at hstep
        · cases hstep
          exact Or.inl (hlasts.tail hs (le_length_onTopOf _ _))
        · have hdeliver := (congrArg Prod.fst hstep).symm
          obtain ⟨hout, hat⟩ := at?_of_deliver hdeliver
          exact Or.inr ⟨ending, left, s₃, ⟨own, s₁, hreach, hown⟩, hout, hat⟩
      · obtain ⟨hout', hat'⟩ := (move_of_step hs).at?_apart hout (hdeeds _ (by simp))
        exact Or.inr ⟨ending, left, s₃, hends, hout', hat'.trans hat⟩

/-- **A subroutine is left as its last run has left it**: if a run touches a machine last with a
call, that call began a run of the machine, which has come to an end, and what it left is in its
place when nobody waits for it any more. -/
theorem Passes.at?_lastCall {c c' : Chain} {m' : Machine} {s s₁ s₂ : Session κ}
    {passed : List (Chain × Session κ)} {ending : Ending}
    (h : Passes c s passed c' s₁) (hs : c'.step s₁ = (.ended ending m', s₂))
    {path : List String} {c₀ : Chain} {s₀ : Session κ} (hlast : LastTouched passed path c₀ s₀)
    (hcall : c₀.deed.called? = some path) :
    ∃ callee callers s₃ ending' left s₄, c₀.step s₀ = (.running ⟨callee, callers⟩, s₃) ∧
      pathOf callers = path ∧ callee.EndsIn s₃ ending' left s₄ ∧
      m'.at? path = some left.released := by
  obtain ⟨before, after, heq, -, hdeeds⟩ := hlast
  obtain ⟨c₁, s₃, hstep, hafter⟩ := h.split heq
  obtain ⟨name, child, rfl, rfl⟩ := (move_of_step hstep).of_called? hcall
  have hcallers : (⟨c₀.active, name⟩ :: c₀.callers : List Frame) ≠ [] := List.cons_ne_nil _ _
  have hpath := pathOf_cons ⟨c₀.active, name⟩ c₀.callers
  rw [← hpath] at hdeeds ⊢
  refine ⟨child.invoked c₀.active.accumulator, ⟨c₀.active, name⟩ :: c₀.callers, s₃, ?_⟩
  have hown : Passes ((start (child.invoked c₀.active.accumulator)).onTopOf
      (⟨c₀.active, name⟩ :: c₀.callers)) s₃ after c' s₁ := hafter
  rcases hown.ownRun hdeeds with hlasts | ⟨ending', left, s₄, hends, hout, hat⟩
  · -- The subroutine runs until the last step, which ends its own run as well.
    obtain ⟨own, rfl, hreach⟩ := hlasts.alone
    have hlast := step_onTopOf own (⟨c₀.active, name⟩ :: c₀.callers) s₁
    rw [hs] at hlast
    rcases hown : own.step s₁ with ⟨own' | ⟨ending', left⟩, s₄⟩ <;> rw [hown] at hlast
    · cases hlast
    · have hdeliver := (congrArg Prod.fst hlast).symm
      exact ⟨ending', left, s₄, hstep, rfl, ⟨own, s₁, hreach, hown⟩,
        at?_of_deliver_ended hcallers hdeliver⟩
  · exact ⟨ending', left, s₄, hstep, rfl, hends, ((stop_of_step hs).at?_apart hout).trans hat⟩

/-- **A subroutine that was declared last stays on its first line**, as nothing has run it. -/
theorem Passes.pc_lastRenewal {c c' : Chain} {m' n : Machine} {s s₁ s₂ : Session κ}
    {passed : List (Chain × Session κ)} {ending : Ending}
    (h : Passes c s passed c' s₁) (hs : c'.step s₁ = (.ended ending m', s₂))
    {path : List String} {c₀ : Chain} {s₀ : Session κ} (hlast : LastTouched passed path c₀ s₀)
    (hrenews : c₀.deed.Renews path) (hn : m'.at? path = some n) : n.pc = 0 := by
  obtain ⟨before, after, heq, -, hdeeds⟩ := hlast
  obtain ⟨c₁, s₃, hstep, hafter⟩ := h.split heq
  obtain ⟨hbegin, hpc⟩ := (move_of_step hstep).at?_renewed hrenews
  obtain ⟨hout, hat⟩ := hafter.at?_apart hbegin hdeeds
  rw [(stop_of_step hs).at?_apart hout, hat] at hn
  exact hpc n hn

end Chain

end AccMachine
