/-
**Chains of calls, step by step.**

`AccMachine/Machine/Chain.lean` carries a chain of calls forward as a function.  This module takes
the function apart.  A step either moves the chain on — along the program of the active machine,
into a subroutine, or back to the caller — or it stops it, in one of five ways.  What holds of
every chain that a run reaches is then proved once, from the moves.

Main definitions:

* `Chain.Move`, `Chain.Stop` — everything that a step can do;
* `Chain.Reaches` — the chains that a run comes through;
* `Machine.CallsAt` — the machine stands on a line that calls the subroutine of that name;
* `Chain.Fits` — the waiting callers and the active machine fit to one another;
* `Chain.MadeCall`, `Chain.pathOf` — a call that a run made, and the path of the calls of a chain;
* `Session.inMemory` — a session with which a run can be computed.

Main results:

* `Chain.move_of_step`, `Chain.stop_of_step` — **a step is a move or a stop**;
* `Chain.runFor_eq_some_iff` — an answer of a run is the stop of a chain that the run reaches;
* `Chain.Reaches.comparable`, `Chain.Reaches.last` — the chains of a run come one after another;
* `Chain.Move.fits`, `Chain.Reaches.fits` — **the machines of a chain keep fitting**;
* `Chain.Stop.fits` — the machine that is left at the end has a tidy tree;
* `Chain.Reaches.onCalls` — every waiting caller stands on the line of its call;
* `Chain.step_onTopOf` — a chain runs in the same way on top of further callers;
* `Machine.run_eq_some_iff` — an answer of a whole run is the stop of a chain that it reaches.
-/

import AccMachine.Console.Buffer
import AccMachine.Proofs.Tree

set_option relaxedAutoImplicit false
set_option autoImplicit false

namespace AccMachine

/-- The machine stands on a line that calls the subroutine of that name. -/
def Machine.CallsAt (m : Machine) (name : String) : Prop :=
  ∃ text label, m.currentLine? = some text ∧
    Line.decode (Text.wordsOf text) = .ok (.instruction ⟨label, .run, some name⟩)

namespace Chain

/-! ### Endings that go outwards -/

/-- A failure as the outermost of the callers sees it. -/
def outward (failure : Failure) (callers : List Frame) : Failure :=
  callers.foldl (fun failure f => failure.within f.caller.here) failure

@[simp] theorem outward_cons (failure : Failure) (f : Frame) (callers : List Frame) :
    outward failure (f :: callers) = outward (failure.within f.caller.here) callers := rfl

@[simp] theorem cause_outward (failure : Failure) (callers : List Frame) :
    (outward failure callers).cause = failure.cause := by
  induction callers generalizing failure with
  | nil => rfl
  | cons f callers ih =>
      rw [outward_cons, ih]
      rfl

/-- The outermost caller's location comes first. -/
theorem locations_outward (failure : Failure) (callers : List Frame) :
    (outward failure callers).locations
      = (callers.map fun f => f.caller.here).reverse ++ failure.locations := by
  induction callers generalizing failure with
  | nil => rfl
  | cons f callers ih =>
      rw [outward_cons, ih]
      simp [Failure.within]

/-- A failure goes through to the outermost machine. -/
theorem deliver_failed (failure : Failure) (m : Machine) (callers : List Frame) :
    (deliver (.failed failure) m callers).1
      = .ended (.failed (outward failure callers)) (adoptAll m callers) := by
  induction callers generalizing failure m with
  | nil => rfl
  | cons f callers ih =>
      simp only [deliver, Machine.conclude, adoptAll, outward_cons]
      exact ih _ _

/-- A subroutine without a return is a failure of its caller. -/
theorem deliver_finished (m : Machine) (f : Frame) (callers : List Frame) :
    (deliver .finished m (f :: callers)).1
      = .ended (.failed (outward ⟨[f.caller.here], .missingReturn f.callee⟩ callers))
          (adoptAll m (f :: callers)) := by
  simp only [deliver, Machine.conclude, adoptAll]
  exact deliver_failed _ _ _

/-! ### Moves and stops -/

/-- `Move c c'`: a step may take the chain `c` on to `c'`. -/
inductive Move (c : Chain) : Chain → Prop
  | next {text : String} {m : Machine} (ht : c.active.currentLine? = some text)
      (he : c.active.LineEffect text m .next) : Move c ⟨m.advance, c.callers⟩
  | jump {text : String} {m : Machine} {target : Nat} (ht : c.active.currentLine? = some text)
      (he : c.active.LineEffect text m (.jump target)) : Move c ⟨m.goto target, c.callers⟩
  | call {text name : String} {child : Machine} (ht : c.active.currentLine? = some text)
      (hline : c.active.CallsAt name) (hc : c.active.subroutines.find? name = some child) :
      Move c ⟨child.invoked c.active.accumulator, ⟨c.active, name⟩ :: c.callers⟩
  | ret {text : String} {m : Machine} {f : Frame} {callers : List Frame}
      (ht : c.active.currentLine? = some text) (he : c.active.LineEffect text m .ret)
      (hf : c.callers = f :: callers) :
      Move c ⟨((f.caller.adopt f.callee m).accumulate m.accumulator).advance, callers⟩

/-- A chain moves on only along a line of its active machine. -/
theorem Move.has_line {c c' : Chain} (h : c.Move c') :
    ∃ text, c.active.currentLine? = some text := by
  cases h with
  | next ht _ => exact ⟨_, ht⟩
  | jump ht _ => exact ⟨_, ht⟩
  | call ht _ _ => exact ⟨_, ht⟩
  | ret ht _ _ => exact ⟨_, ht⟩

variable {κ : Type} [Console κ]

/-- `Stop c s ending m`: a step may stop the chain `c` in the session `s`; the outermost machine is
then `m` and its run has come to that ending. -/
inductive Stop (c : Chain) (s : Session κ) : Ending → Machine → Prop
  /-- The line failed. -/
  | failed {text : String} {cause : Cause} {s' : Session κ}
      (ht : c.active.currentLine? = some text)
      (hp : s.perform (c.active.line text) = (.error cause, s')) :
      Stop c s (.failed (outward ⟨[c.active.here], cause⟩ c.callers)) (adoptAll c.active c.callers)
  /-- The line halts. -/
  | halted {text : String} {s' : Session κ} (ht : c.active.currentLine? = some text)
      (hp : s.perform (c.active.line text) = (.ok (c.active, .halt), s')) :
      Stop c s .halted (adoptAll c.active c.callers)
  /-- The line returns, but no caller is in the chain. -/
  | returned {text : String} {m : Machine} (ht : c.active.currentLine? = some text)
      (he : c.active.LineEffect text m .ret) (hf : c.callers = []) : Stop c s .returned m
  /-- No line is left in the outermost machine. -/
  | finished (ht : c.active.currentLine? = none) (hf : c.callers = []) :
      Stop c s .finished c.active
  /-- No line is left in a subroutine. -/
  | lost {f : Frame} {callers : List Frame} (ht : c.active.currentLine? = none)
      (hf : c.callers = f :: callers) :
      Stop c s (.failed (outward ⟨[f.caller.here], .missingReturn f.callee⟩ callers))
        (adoptAll c.active (f :: callers))

/-- Where a chain stands after a step: it has moved or stopped. -/
theorem moved_or_stopped (c : Chain) (s : Session κ) :
    (∃ c', (c.step s).1 = .running c' ∧ c.Move c') ∨
      ∃ ending m, (c.step s).1 = .ended ending m ∧ c.Stop s ending m := by
  obtain ⟨active, callers⟩ := c
  cases ht : active.currentLine? with
  | none =>
      rw [step_of_none (c := ⟨active, callers⟩) ht]
      cases callers with
      | nil => exact Or.inr ⟨_, _, rfl, Stop.finished ht rfl⟩
      | cons f callers => exact Or.inr ⟨_, _, deliver_finished _ _ _, Stop.lost ht rfl⟩
  | some text =>
      rcases hp : s.perform (active.line text) with ⟨cause | ⟨m, flow⟩, s'⟩ <;>
        rw [step_of_line (c := ⟨active, callers⟩) ht hp]
      · exact Or.inr ⟨_, _, deliver_failed _ _ _, Stop.failed ht hp⟩
      · have he : active.LineEffect text m flow := Machine.perform_line hp
        cases flow with
        | next => exact Or.inl ⟨_, rfl, Move.next ht he⟩
        | jump target => exact Or.inl ⟨_, rfl, Move.jump ht he⟩
        | call name callee =>
            obtain ⟨rfl, ⟨label, hd⟩, child, hc, rfl⟩ := he.of_call
            exact Or.inl ⟨_, rfl, Move.call ht ⟨text, label, ht, hd⟩ hc⟩
        | ret =>
            cases callers with
            | nil => exact Or.inr ⟨_, _, rfl, Stop.returned ht he rfl⟩
            | cons f callers => exact Or.inl ⟨_, rfl, Move.ret ht he rfl⟩
        | halt =>
            obtain ⟨rfl, -⟩ := he.of_halt
            exact Or.inr ⟨_, _, deliver_halted m callers, Stop.halted ht hp⟩

/-- **A step that goes on is a move.** -/
theorem move_of_step {c c' : Chain} {s s' : Session κ} (h : c.step s = (.running c', s')) :
    c.Move c' := by
  rcases c.moved_or_stopped s with ⟨c₁, hc, hm⟩ | ⟨ending, m, hc, -⟩
  · rw [h] at hc
    cases hc
    exact hm
  · rw [h] at hc
    cases hc

/-- **A step that does not go on is a stop.** -/
theorem stop_of_step {c : Chain} {s s' : Session κ} {ending : Ending} {m : Machine}
    (h : c.step s = (.ended ending m, s')) : c.Stop s ending m := by
  rcases c.moved_or_stopped s with ⟨c₁, hc, -⟩ | ⟨ending', m', hc, hs⟩
  · rw [h] at hc
    cases hc
  · rw [h] at hc
    cases hc
    exact hs

/-! ### The chains of a run -/

/-- `Reaches c s c' s'`: a run that is at the chain `c` in the session `s` comes to the chain `c'`
in the session `s'`. -/
inductive Reaches (c : Chain) (s : Session κ) : Chain → Session κ → Prop
  | refl : Reaches c s c s
  | tail {c₁ c₂ : Chain} {s₁ s₂ : Session κ} (h : Reaches c s c₁ s₁)
      (hs : c₁.step s₁ = (.running c₂, s₂)) : Reaches c s c₂ s₂

theorem Reaches.trans {c c₁ c₂ : Chain} {s s₁ s₂ : Session κ} (h : Reaches c s c₁ s₁)
    (h' : Reaches c₁ s₁ c₂ s₂) : Reaches c s c₂ s₂ := by
  induction h' with
  | refl => exact h
  | tail _ hs ih => exact ih.tail hs

theorem Reaches.head {c c₁ c₂ : Chain} {s s₁ s₂ : Session κ}
    (hs : c.step s = (.running c₁, s₁)) (h : Reaches c₁ s₁ c₂ s₂) : Reaches c s c₂ s₂ :=
  (Reaches.tail .refl hs).trans h

/-- What every move keeps holds of all chains of a run. -/
theorem Reaches.keeps {P : Chain → Prop} (hmove : ∀ c₁ c₂, Move c₁ c₂ → P c₁ → P c₂)
    {c c' : Chain} {s s' : Session κ} (h : Reaches c s c' s') (hc : P c) : P c' := by
  induction h with
  | refl => exact hc
  | tail _ hs ih => exact hmove _ _ (move_of_step hs) ih

/-- A run answers as from any chain that it comes to. -/
theorem Reaches.runFor {c c₁ : Chain} {s s₁ : Session κ} (h : Reaches c s c₁ s₁) (fuel : Nat) :
    ∃ n, runFor n c s = runFor fuel c₁ s₁ := by
  induction h generalizing fuel with
  | refl => exact ⟨fuel, rfl⟩
  | tail _ hs ih =>
      obtain ⟨n, hn⟩ := ih (fuel + 1)
      exact ⟨n, by rw [hn, runFor_succ_eq, hs]⟩

/-- A run that comes to a chain is there already, or takes a step towards it. -/
theorem Reaches.head_cases {c c' : Chain} {s s' : Session κ} (h : Reaches c s c' s') :
    (c' = c ∧ s' = s) ∨
      ∃ c₁ s₁, c.step s = (.running c₁, s₁) ∧ Reaches c₁ s₁ c' s' := by
  induction h with
  | refl => exact Or.inl ⟨rfl, rfl⟩
  | @tail c₁ c₂ s₁ s₂ _ hs ih =>
      rcases ih with ⟨rfl, rfl⟩ | ⟨c₀, s₀, hstep, hreach⟩
      · exact Or.inr ⟨c₂, s₂, hs, .refl⟩
      · exact Or.inr ⟨c₀, s₀, hstep, hreach.tail hs⟩

/-- Of two chains of a run, one comes before the other. -/
theorem Reaches.comparable {c c₁ c₂ : Chain} {s s₁ s₂ : Session κ} (h₁ : Reaches c s c₁ s₁)
    (h₂ : Reaches c s c₂ s₂) : Reaches c₁ s₁ c₂ s₂ ∨ Reaches c₂ s₂ c₁ s₁ := by
  induction h₁ with
  | refl => exact Or.inl h₂
  | @tail c₁ c₁' s₁ s₁' _ hs ih =>
      rcases ih with h | h
      · -- A chain has only one step to take, so the two runs cannot part here.
        rcases h.head_cases with ⟨rfl, rfl⟩ | ⟨c₀, s₀, hstep, hreach⟩
        · exact Or.inr (.tail .refl hs)
        · rw [hs] at hstep
          cases hstep
          exact Or.inl hreach
      · exact Or.inr (h.tail hs)

/-- A chain that stops is the last one of its run. -/
theorem Reaches.last {c c₁ c₂ : Chain} {s s₁ s₂ s' : Session κ} {ending : Ending} {m : Machine}
    (h₁ : Reaches c s c₁ s₁) (hs : c₁.step s₁ = (.ended ending m, s'))
    (h₂ : Reaches c s c₂ s₂) : Reaches c₂ s₂ c₁ s₁ := by
  rcases h₁.comparable h₂ with h | h
  · rcases h.head_cases with ⟨rfl, rfl⟩ | ⟨_, _, hstep, _⟩
    · exact .refl
    · rw [hs] at hstep
      cases hstep
  · exact h

/-- An answer of a run is the stop of a chain that the run reaches. -/
theorem runFor_eq_some_iff {c : Chain} {s s' : Session κ} {ending : Ending} {m : Machine} :
    (∃ fuel, runFor fuel c s = some (ending, m, s')) ↔
      ∃ c₁ s₁, Reaches c s c₁ s₁ ∧ c₁.step s₁ = (.ended ending m, s') := by
  constructor
  · rintro ⟨fuel, h⟩
    induction fuel generalizing c s with
    | zero => cases h
    | succ fuel ih =>
        rw [runFor_succ_eq] at h
        split at h
        · next c₁ s₁ hs =>
            obtain ⟨c₂, s₂, hr, hstep⟩ := ih h
            exact ⟨c₂, s₂, Reaches.head hs hr, hstep⟩
        · next hs =>
            cases h
            exact ⟨c, s, .refl, hs⟩
  · rintro ⟨c₁, s₁, hr, hstep⟩
    obtain ⟨n, hn⟩ := hr.runFor 1
    exact ⟨n, by rw [hn, runFor_succ_eq, hstep]⟩

/-! ### Machines that fit to one another -/

/-- `Fits post m callers`: the active machine `m` and the callers that wait for it fit to one
another.  Each subroutine in the chain is the one that its caller declared, is waited for, and has
a tidy tree; `post` is what the outermost machine keeps. -/
inductive Fits (post : Machine.Post) : Machine → List Frame → Prop
  | outermost {m : Machine} (tidy : m.Tidy) (hp : m.post = post) : Fits post m []
  | called {m : Machine} {f : Frame} {callers : List Frame} (tidy : m.Tidy)
      (declared : m.DeclaredBy f.caller f.callee) (awaited : m.awaited = true)
      (below : Fits post f.caller callers) : Fits post m (f :: callers)

theorem Fits.tidy {post : Machine.Post} {m : Machine} {callers : List Frame}
    (h : Fits post m callers) : m.Tidy := by
  cases h with
  | outermost tidy _ => exact tidy
  | called tidy _ _ _ => exact tidy

/-- A machine may be replaced by one that keeps the same post. -/
theorem Fits.congr {post : Machine.Post} {m n : Machine} {callers : List Frame}
    (h : Fits post m callers) (hn : n.Tidy) (hp : n.post = m.post) : Fits post n callers := by
  cases h with
  | outermost _ hpost => exact Fits.outermost hn (hp.trans hpost)
  | called _ declared awaited below =>
      simp only [Machine.post, Machine.Post.mk.injEq] at hp
      obtain ⟨hparent, hreference, hawaited⟩ := hp
      exact Fits.called hn ⟨hreference.trans declared.reference, hparent.trans declared.parent⟩
        (hawaited.trans awaited) below

/-- The innermost caller fits to the others when it takes the active machine back. -/
theorem Fits.adopted {post : Machine.Post} {m : Machine} {f : Frame} {callers : List Frame}
    (h : Fits post m (f :: callers)) : Fits post (f.caller.adopt f.callee m) callers := by
  cases h with
  | called tidy declared _ below => exact below.congr (below.tidy.adopt tidy declared) rfl

/-- **A move keeps the machines of a chain fitting.** -/
theorem Move.fits {post : Machine.Post} {c c' : Chain} (h : c.Move c')
    (hc : Fits post c.active c.callers) : Fits post c'.active c'.callers := by
  cases h with
  | next ht he => exact hc.congr ((he.tidy hc.tidy).congr rfl rfl) (he.post nofun)
  | jump ht he => exact hc.congr ((he.tidy hc.tidy).congr rfl rfl) (he.post nofun)
  | call ht hline hchild =>
      exact Fits.called ((hc.tidy.of_child hchild).invoked _)
        ((hc.tidy.declared hchild).invoked _) rfl hc
  | ret ht he hf =>
      rw [hf] at hc
      cases hc with
      | called tidy declared awaited below =>
          have hd := declared.of_kept he.kept
          exact below.congr ((below.tidy.adopt (he.tidy tidy) hd).congr rfl rfl) rfl

/-- The chains of a run keep fitting. -/
theorem Reaches.fits {post : Machine.Post} {c c' : Chain} {s s' : Session κ}
    (h : Reaches c s c' s') (hc : Fits post c.active c.callers) :
    Fits post c'.active c'.callers :=
  h.keeps (P := fun c => Fits post c.active c.callers) (fun _ _ hm => hm.fits) hc

theorem Fits.adoptAll {post : Machine.Post} {m : Machine} {callers : List Frame}
    (h : Fits post m callers) :
    (Chain.adoptAll m callers).Tidy ∧ (Chain.adoptAll m callers).post = post := by
  induction callers generalizing m with
  | nil =>
      cases h with
      | outermost tidy hp => exact ⟨tidy, hp⟩
  | cons f callers ih => exact ih h.adopted

/-- **The machine that is left at the end has a tidy tree** and keeps its post, except that nobody
waits for a machine that has returned. -/
theorem Stop.fits {post : Machine.Post} {c : Chain} {s : Session κ} {ending : Ending}
    {m : Machine} (h : c.Stop s ending m) (hc : Fits post c.active c.callers) :
    m.Tidy ∧ m.parent = post.parent ∧ m.program.reference = post.reference ∧
      (post.awaited = false → m.awaited = false ∧ ending ≠ .returned) := by
  have hall := hc.adoptAll
  cases h with
  | failed ht hp =>
      obtain ⟨htidy, rfl⟩ := hall
      exact ⟨htidy, rfl, rfl, fun ha => ⟨ha, nofun⟩⟩
  | halted ht hp =>
      obtain ⟨htidy, rfl⟩ := hall
      exact ⟨htidy, rfl, rfl, fun ha => ⟨ha, nofun⟩⟩
  | returned ht he hf =>
      rw [hf] at hc
      cases hc with
      | outermost tidy hpost =>
          subst hpost
          obtain ⟨ha, rfl⟩ := he.of_ret
          exact ⟨tidy.released, rfl, rfl, fun hn => absurd (ha.symm.trans hn) nofun⟩
  | finished ht hf =>
      rw [hf] at hc
      cases hc with
      | outermost tidy hpost =>
          subst hpost
          exact ⟨tidy, rfl, rfl, fun ha => ⟨ha, nofun⟩⟩
  | lost ht hf =>
      rw [hf] at hall
      obtain ⟨htidy, rfl⟩ := hall
      exact ⟨htidy, rfl, rfl, fun ha => ⟨ha, nofun⟩⟩

/-! ### The lines of the callers -/

/-- Every waiting caller stands on the line of its call. -/
def OnCalls (c : Chain) : Prop := ∀ f ∈ c.callers, f.caller.CallsAt f.callee

theorem Move.onCalls {c c' : Chain} (h : c.Move c') (hc : c.OnCalls) : c'.OnCalls := by
  cases h with
  | next ht he => exact hc
  | jump ht he => exact hc
  | call ht hline hchild =>
      intro f hf
      rcases List.mem_cons.1 hf with rfl | hf
      · exact hline
      · exact hc f hf
  | ret ht he hcallers =>
      intro f hf
      exact hc f (by rw [hcallers]; exact List.mem_cons_of_mem _ hf)

theorem Reaches.onCalls {c c' : Chain} {s s' : Session κ} (h : Reaches c s c' s')
    (hc : c.OnCalls) : c'.OnCalls :=
  h.keeps (fun _ _ hm => hm.onCalls) hc

theorem onCalls_start (m : Machine) : (start m).OnCalls := by
  intro f hf
  cases hf

/-- `MadeCall c s f callers`: a run from the chain `c` came to the caller of the frame, on top of
the other callers, exactly as it is in the frame, and the step from there began the call. -/
def MadeCall (c : Chain) (s : Session κ) (f : Frame) (callers : List Frame) : Prop :=
  ∃ s₁ callee s₂, Reaches c s ⟨f.caller, callers⟩ s₁ ∧
    step ⟨f.caller, callers⟩ s₁ = (.running ⟨callee, f :: callers⟩, s₂)

/-! ### The places of the machines of a chain -/

/-- The names by which the machines below the outermost caller were called, the outermost first. -/
def pathOf (callers : List Frame) : List String := (callers.map Frame.callee).reverse

theorem pathOf_cons (f : Frame) (callers : List Frame) :
    pathOf (f :: callers) = pathOf callers ++ [f.callee] := by
  simp [pathOf]

theorem adoptAll_append (m : Machine) (inner outer : List Frame) :
    adoptAll m (inner ++ outer) = adoptAll (adoptAll m inner) outer := by
  induction inner generalizing m with
  | nil => rfl
  | cons f inner ih => exact ih _

/-- A machine is found below its caller, wherever the caller is found. -/
theorem at?_adoptAll_below {m : Machine} {f : Frame} {callers : List Frame}
    (h : ∃ n, (adoptAll (f.caller.adopt f.callee m) callers).at? (pathOf callers) = some n ∧
      n.released = (f.caller.adopt f.callee m).released) :
    (adoptAll m (f :: callers)).at? (pathOf (f :: callers)) = some m.released := by
  obtain ⟨n, hn, hreleased⟩ := h
  -- The caller is released when it is taken back itself, which changes nothing below it.
  have hsubroutines : n.subroutines = (f.caller.adopt f.callee m).subroutines := by
    change n.released.subroutines = (f.caller.adopt f.callee m).released.subroutines
    rw [hreleased]
  rw [adoptAll, pathOf_cons, Machine.at?_append hn,
    Machine.at?_congr hsubroutines (List.cons_ne_nil _ _)]
  exact Machine.at?_hold_self _ _ _ _

/-- When all callers have taken their callees back, the path of calls leads to the machine that was
active, which nobody waits for any more. -/
theorem at?_adoptAll (m : Machine) (callers : List Frame) :
    ∃ n, (adoptAll m callers).at? (pathOf callers) = some n ∧ n.released = m.released := by
  induction callers generalizing m with
  | nil => exact ⟨m, rfl, rfl⟩
  | cons f callers ih => exact ⟨m.released, at?_adoptAll_below (ih _), rfl⟩

/-! ### Chains on top of further callers -/

/-- The chain with further callers, who wait for its outermost machine. -/
def onTopOf (c : Chain) (callers : List Frame) : Chain := ⟨c.active, c.callers ++ callers⟩

/-- An ending goes outwards through further callers as it would from the outermost machine. -/
theorem deliver_append (ending : Ending) (m : Machine) (callers further : List Frame) :
    deliver ending m (callers ++ further) =
      match deliver ending m callers with
      | (.running c, events) => (.running (c.onTopOf further), events)
      | (.ended ending' m', events) =>
          ((deliver ending' m' further).1, events ++ (deliver ending' m' further).2) := by
  induction callers generalizing ending m with
  | nil => rfl
  | cons f callers ih =>
      simp only [List.cons_append, deliver]
      rcases f.caller.conclude f.callee m ending with ⟨caller, _ | _ | failure⟩
      · rfl
      · dsimp only
        rw [ih]
        rcases deliver .halted caller callers with ⟨_ | _, events⟩ <;> rfl
      · dsimp only
        rw [ih]
        rcases deliver (.failed (failure.within caller.here)) caller callers with
          ⟨_ | _, events⟩ <;> rfl

omit [Console κ] in
theorem noteAll_append (s : Session κ) (events events' : List LogEvent) :
    s.noteAll (events ++ events') = (s.noteAll events).noteAll events' :=
  List.foldl_append

/-- **A chain runs in the same way on top of further callers**, until its outermost machine
ends. -/
theorem step_onTopOf (c : Chain) (callers : List Frame) (s : Session κ) :
    (c.onTopOf callers).step s =
      match c.step s with
      | (.running c', s') => (.running (c'.onTopOf callers), s')
      | (.ended ending m, s') =>
          ((deliver ending m callers).1, s'.noteAll (deliver ending m callers).2) := by
  -- Whatever ends the active machine, its ending first goes through the callers of `c`.
  have hdeliver : ∀ (ending : Ending) (m : Machine) (s : Session κ),
      ((deliver ending m (c.callers ++ callers)).1,
        s.noteAll (deliver ending m (c.callers ++ callers)).2) =
      match ((deliver ending m c.callers).1, s.noteAll (deliver ending m c.callers).2) with
      | (.running c', s') => (.running (c'.onTopOf callers), s')
      | (.ended ending m, s') =>
          ((deliver ending m callers).1, s'.noteAll (deliver ending m callers).2) := by
    intro ending m s
    rw [deliver_append]
    rcases deliver ending m c.callers with ⟨_ | _, events⟩
    · rfl
    · simp only [noteAll_append]
  cases ht : c.active.currentLine? with
  | none =>
      rw [step_of_none ht, step_of_none (c := c.onTopOf callers) ht]
      exact hdeliver _ _ _
  | some text =>
      rcases hp : s.perform (c.active.line text) with ⟨cause | ⟨m, flow⟩, s'⟩ <;>
        rw [step_of_line ht hp, step_of_line (c := c.onTopOf callers) ht hp]
      · exact hdeliver _ _ _
      · cases flow with
        | next => rfl
        | jump target => rfl
        | call name callee => rfl
        | ret => exact hdeliver _ _ _
        | halt => exact hdeliver _ _ _

theorem Reaches.onTopOf {c c' : Chain} {s s' : Session κ} (h : Reaches c s c' s')
    (callers : List Frame) : Reaches (c.onTopOf callers) s (c'.onTopOf callers) s' := by
  induction h with
  | refl => exact .refl
  | tail _ hs ih => exact ih.tail (by rw [step_onTopOf, hs])

end Chain

namespace Machine

variable {κ : Type} [Console κ]

/-! ### Whole runs -/

/-- The post of a root that is not in the middle of a call. -/
theorem Rooted.post {m : Machine} (h : m.Rooted) :
    m.post = ⟨none, m.program.reference, false⟩ := by
  rw [Machine.post, h.parent, h.awaited]

/-- A machine with a tidy tree fits at the beginning of its run. -/
theorem Tidy.fits_start {m : Machine} (h : m.Tidy) :
    Chain.Fits m.post (Chain.start m).active (Chain.start m).callers :=
  .outermost (h.congr rfl rfl) rfl

/-- An answer of a run is the stop of a chain that the run reaches, with the sheet written. -/
theorem run_eq_some_iff {m m' : Machine} {s s' : Session κ} {ending' : Ending} :
    (∃ fuel, m.run fuel s = some (ending', m', s')) ↔
      ∃ c s₁ ending s₂, Chain.Reaches (Chain.start m) s c s₁ ∧
        c.step s₁ = (.ended ending m', s₂) ∧ m'.close s₂ ending = (ending', s') := by
  constructor
  · rintro ⟨fuel, h⟩
    rw [run_def] at h
    split at h
    · cases h
    · next ending m₁ s₂ hr =>
        cases h
        obtain ⟨c, s₁, hreach, hstep⟩ := Chain.runFor_eq_some_iff.1 ⟨fuel, hr⟩
        exact ⟨c, s₁, ending, s₂, hreach, hstep, rfl⟩
  · rintro ⟨c, s₁, ending, s₂, hreach, hstep, hclose⟩
    obtain ⟨fuel, hr⟩ := Chain.runFor_eq_some_iff.2 ⟨c, s₁, hreach, hstep⟩
    exact ⟨fuel, by simp only [run_def, hr, hclose]⟩

omit [Console κ] in
/-- Closing a run changes nothing unless the machine has halted. -/
theorem close_of_ne_halted {m : Machine} {s : Session κ} {ending : Ending}
    (h : ending ≠ .halted) : m.close s ending = (ending, s) := by
  cases ending with
  | halted => exact absurd rfl h
  | _ => rfl

end Machine

/-! ### Sessions in memory -/

/-- A session whose shelf holds the given texts, each under its reference, and which has the given
lines of input. -/
def Session.inMemory (texts : List (String × String)) (input : List String) : Session Buffer where
  shelf := .texts (Table.ofList texts)
  console := ⟨input, #[]⟩

end AccMachine
