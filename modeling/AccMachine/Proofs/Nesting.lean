/-
**The nesting of calls in a log.**

There are two notes about a call: that a subroutine is invoked, and that it is completed.  In the
log of a run they are brackets.  Which note of a completion belongs to which call is then a matter
of the log alone: between the two there is a log that is nested by itself, and only one note is in
the right place for that.

Main definitions:

* `Completion.Carries` — how a subroutine ended decides how the one around it does;
* `Log.Nested` — every call is closed by a completion of the same name, with whole calls in between;
* `Log.EveryPair` — something holds of every call of a log, with its completion.

Main results:

* `Log.Nested.partner` — every call of a nested log is completed in it;
* `Log.Nested.partner_unique` — and there is only one note that completes it;
* `Log.Nested.loaded_before` — a declaration stands right behind the loading of its program;
* `Log.everyPair_call` — the pairs of a call: itself, those inside, and those behind it.
-/

import AccMachine.Log

set_option relaxedAutoImplicit false
set_option autoImplicit false

namespace AccMachine

/-! ### Endings that carry over -/

/-- `inner.Carries outer`: a subroutine that ended like `inner` lets the one around it end like
`outer`.  A halt halts it; a failure, and so the lack of a return, lets it fail; a return leaves it
free. -/
def Completion.Carries (inner outer : Completion) : Prop :=
  (inner = .halted → outer = .halted) ∧ (inner = .failed ∨ inner = .lost → outer = .failed)

theorem Completion.Carries.trans {a b c : Completion} (h : a.Carries b) (h' : b.Carries c) :
    a.Carries c :=
  ⟨fun ha => h'.1 (h.1 ha), fun ha => h'.2 (Or.inl (h.2 ha))⟩

theorem Completion.returned_carries (value : Int64) (outer : Completion) :
    (Completion.returned value).Carries outer :=
  ⟨nofun, nofun⟩

namespace Log

theorem nil_ne_append_cons {α : Type} (l r : List α) (e : α) : [] ≠ l ++ e :: r :=
  (List.append_ne_nil_of_right_ne_nil l (List.cons_ne_nil e r)).symm

/-- An element of two lists one behind the other is in the first or in the second. -/
theorem append_eq_append_cons {α : Type} {l r before after : List α} {e : α}
    (h : l ++ r = before ++ e :: after) :
    (∃ mid, l = before ++ e :: mid ∧ after = mid ++ r) ∨
      ∃ mid, before = l ++ mid ∧ r = mid ++ e :: after := by
  rcases List.append_eq_append_iff.1 h with ⟨mid, hbefore, hr⟩ | ⟨mid, hl, hrest⟩
  · exact Or.inr ⟨mid, hbefore, hr⟩
  · rcases List.cons_eq_append_iff.1 hrest with ⟨rfl, hr⟩ | ⟨mid', rfl, hafter⟩
    · exact Or.inr ⟨[], by rw [hl, List.append_nil, List.append_nil], hr⟩
    · exact Or.inl ⟨mid', hl, hafter⟩

/-! ### Nested logs -/

/-- `Nested events`: every call is closed by a completion of the same name, with whole calls in
between, and every declaration stands right behind the loading of its program. -/
inductive Nested : List LogEvent → Prop
  | nil : Nested []
  | declared {rest : List LogEvent} (parent name : String) (lines labels : Nat)
      (hrest : Nested rest) : Nested (.loaded name lines labels :: .declared parent name :: rest)
  | call {inner rest : List LogEvent} (name : String) (accumulator : Int64)
      (completion : Completion) (hinner : Nested inner) (hrest : Nested rest) :
      Nested (.invoking name accumulator :: (inner ++ .completed name completion :: rest))

/-- **There is only one note that completes a call**: behind a nested log, the next note of a
completion is the one that the log leaves open. -/
theorem Nested.partner_unique {l₁ l₂ r₁ r₂ : List LogEvent} {n₁ n₂ : String} {c₁ c₂ : Completion}
    (h₁ : Nested l₁) (h₂ : Nested l₂)
    (h : l₁ ++ .completed n₁ c₁ :: r₁ = l₂ ++ .completed n₂ c₂ :: r₂) :
    l₁ = l₂ ∧ LogEvent.completed n₁ c₁ :: r₁ = .completed n₂ c₂ :: r₂ := by
  induction h₁ generalizing l₂ n₁ n₂ c₁ c₂ r₁ r₂ with
  | nil =>
      cases h₂ with
      | nil => exact ⟨rfl, h⟩
      | declared => cases h
      | call => cases h
  | declared parent name lines labels _ ih =>
      cases h₂ with
      | nil => cases h
      | declared _ _ _ _ hrest₂ =>
          simp only [List.cons_append, List.cons.injEq, LogEvent.loaded.injEq,
            LogEvent.declared.injEq] at h
          obtain ⟨⟨rfl, rfl, rfl⟩, ⟨rfl, -⟩, h⟩ := h
          obtain ⟨rfl, hrest⟩ := ih hrest₂ h
          exact ⟨rfl, hrest⟩
      | call => cases h
  | call name accumulator completion _ _ ihinner ihrest =>
      cases h₂ with
      | nil => cases h
      | declared => cases h
      | call _ _ _ hinner₂ hrest₂ =>
          simp only [List.cons_append, List.append_assoc, List.cons.injEq,
            LogEvent.invoking.injEq] at h
          obtain ⟨⟨rfl, rfl⟩, h⟩ := h
          -- First the completions of the two calls are the same, and then what is behind them.
          obtain ⟨rfl, hcompleted⟩ := ihinner hinner₂ h
          simp only [List.cons.injEq, LogEvent.completed.injEq] at hcompleted
          obtain ⟨⟨-, rfl⟩, hbehind⟩ := hcompleted
          obtain ⟨rfl, hrest⟩ := ihrest hrest₂ hbehind
          exact ⟨rfl, hrest⟩

/-- **Every call of a nested log is completed in it.** -/
theorem Nested.partner {events before after : List LogEvent} {name : String} {accumulator : Int64}
    (h : Nested events) (hevents : events = before ++ .invoking name accumulator :: after) :
    ∃ inner completion rest, Nested inner ∧
      after = inner ++ .completed name completion :: rest := by
  induction h generalizing before after with
  | nil => exact absurd hevents (nil_ne_append_cons _ _ _)
  | declared parent name' lines labels _ ih =>
      rcases before with _ | ⟨_, _ | ⟨_, before⟩⟩ <;> cases hevents
      exact ih rfl
  | @call inner rest name' accumulator' completion hinner _ ihinner ihrest =>
      rcases before with _ | ⟨_, before⟩
      · cases hevents
        exact ⟨inner, completion, rest, hinner, rfl⟩
      · rcases append_eq_append_cons (List.cons.inj hevents).2 with
          ⟨mid, hsplit, rfl⟩ | ⟨mid, -, hsplit⟩
        · -- The call is inside of this one, and so is its completion.
          obtain ⟨inner', completion', rest', hinner', rfl⟩ := ihinner hsplit
          exact ⟨inner', completion', rest' ++ .completed name' completion :: rest, hinner',
            List.append_assoc _ _ _⟩
        · rcases mid with _ | ⟨_, mid⟩ <;> cases hsplit
          exact ihrest rfl

/-- **A declaration stands right behind the loading of its program.** -/
theorem Nested.loaded_before {events before after : List LogEvent} {parent name : String}
    (h : Nested events) (hevents : events = before ++ .declared parent name :: after) :
    ∃ earlier lines labels, before = earlier ++ [.loaded name lines labels] := by
  induction h generalizing before after with
  | nil => exact absurd hevents (nil_ne_append_cons _ _ _)
  | declared parent' name' lines labels _ ih =>
      rcases before with _ | ⟨_, _ | ⟨_, before⟩⟩ <;> cases hevents
      · exact ⟨[], lines, labels, rfl⟩
      · obtain ⟨earlier, lines', labels', rfl⟩ := ih rfl
        exact ⟨_ :: _ :: earlier, lines', labels', rfl⟩
  | @call inner rest name' accumulator completion _ _ ihinner ihrest =>
      rcases before with _ | ⟨first, before⟩
      · cases hevents
      · rcases append_eq_append_cons (List.cons.inj hevents).2 with
          ⟨mid, hsplit, -⟩ | ⟨mid, rfl, hsplit⟩
        · obtain ⟨earlier, lines, labels, rfl⟩ := ihinner hsplit
          exact ⟨first :: earlier, lines, labels, rfl⟩
        · rcases mid with _ | ⟨_, mid⟩ <;> cases hsplit
          obtain ⟨earlier, lines, labels, rfl⟩ := ihrest rfl
          exact ⟨first :: (inner ++ .completed name' completion :: earlier), lines, labels, by
            simp only [List.cons_append, List.append_assoc]⟩

/-! ### The pairs of a log -/

variable {P Q : List LogEvent → String → Int64 → List LogEvent → Completion → Prop}

/-- `EveryPair P events`: the property holds of every call with its completion, given what is in the
log before the call, its name and accumulator, what is in between, and the completion. -/
def EveryPair (P : List LogEvent → String → Int64 → List LogEvent → Completion → Prop)
    (events : List LogEvent) : Prop :=
  ∀ before name accumulator inner completion after,
    events =
      before ++ .invoking name accumulator :: (inner ++ .completed name completion :: after) →
    Nested inner → P before name accumulator inner completion

theorem EveryPair.imp {events : List LogEvent} (h : EveryPair P events)
    (himp : ∀ before name accumulator inner completion,
      P before name accumulator inner completion → Q before name accumulator inner completion) :
    EveryPair Q events :=
  fun _ _ _ _ _ _ hevents hinner => himp _ _ _ _ _ (h _ _ _ _ _ _ hevents hinner)

theorem everyPair_nil : EveryPair P [] :=
  fun _ _ _ _ _ _ hevents _ => absurd hevents (nil_ne_append_cons _ _ _)

theorem everyPair_declared {parent name : String} {lines labels : Nat} {rest : List LogEvent}
    (h : EveryPair
      (fun before => P (.loaded name lines labels :: .declared parent name :: before)) rest) :
    EveryPair P (.loaded name lines labels :: .declared parent name :: rest) := by
  intro before name' accumulator inner completion after hevents hinner
  rcases before with _ | ⟨_, _ | ⟨_, before⟩⟩ <;> cases hevents
  exact h _ _ _ _ _ _ rfl hinner

/-- **The pairs of a call** are itself, those inside, and those behind it. -/
theorem everyPair_call {name : String} {accumulator : Int64} {completion : Completion}
    {inner rest : List LogEvent} (hinner : Nested inner)
    (hself : P [] name accumulator inner completion)
    (hinside : EveryPair (fun before => P (.invoking name accumulator :: before)) inner)
    (hbehind : EveryPair (fun before =>
      P (.invoking name accumulator :: (inner ++ .completed name completion :: before))) rest) :
    EveryPair P (.invoking name accumulator :: (inner ++ .completed name completion :: rest)) := by
  intro before name' accumulator' inner' completion' after hevents hinner'
  rcases before with _ | ⟨_, before⟩
  · simp only [List.nil_append, List.cons.injEq, LogEvent.invoking.injEq] at hevents
    obtain ⟨⟨rfl, rfl⟩, hevents⟩ := hevents
    obtain ⟨rfl, hcompleted⟩ := hinner.partner_unique hinner' hevents
    cases hcompleted
    exact hself
  · obtain ⟨rfl, htail⟩ := List.cons.inj hevents
    rcases append_eq_append_cons htail with ⟨mid, hsplit, hafter⟩ | ⟨mid, rfl, hsplit⟩
    · -- The call is inside, so it is completed there, and there is no other completion of it.
      obtain ⟨inner'', completion'', rest', hinner'', rfl⟩ := hinner.partner hsplit
      rw [List.append_assoc] at hafter
      obtain ⟨rfl, hcompleted⟩ := hinner'.partner_unique hinner'' hafter
      cases hcompleted
      exact hinside _ _ _ _ _ _ hsplit hinner'
    · rcases mid with _ | ⟨_, mid⟩ <;> cases hsplit
      exact hbehind _ _ _ _ _ _ rfl hinner'

end Log

end AccMachine
