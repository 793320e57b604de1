/-
**A call on threads is a synchronous call.**

However the threads of a chain of calls act, the run that they carry out is the sequential one: the
outermost machines wait, and the innermost thread is somewhere in the run of its machine, at a line,
in the middle of one, or past the end with its ending still to be handed outwards.  So when a caller
has joined the thread of its subroutine, it is where it would be had it run the subroutine itself.

Main definitions:

* `Machine.callSync` — the call as a function: run the subroutine, and take its ending as the
  result of the line;
* `Threads.Over`, `Threads.Done` — the run of a machine is over, before and after the sheet is
  written, and its callers have yet to hear of it;
* `Threads.Tracks` — **the threads are in the middle of a sequential run**;
* `Threads.Waits` — a caller waits for threads that are in the middle of its subroutine's run;
* `Threads.Orderly` — what holds of the threads wherever their steps have led them.

Main results:

* `Machine.dispatch_run` — a single call instruction is the synchronous call;
* `Threads.Step.tracks` — every step of the threads keeps to the sequential run;
* `Threads.Waits.join` — a caller that joins comes to the result of the synchronous call;
* `Threads.Reachable.calls_synchronous` — **the whole behaviour of calls on threads**.
-/

import AccMachine.Proofs.ThreadInvariant
import AccMachine.Proofs.TreeInvariant

set_option relaxedAutoImplicit false
set_option autoImplicit false

namespace AccMachine

variable {κ : Type} [Console κ]

namespace Machine

/-! ### The synchronous call -/

/-- A call as a function: the subroutine runs from its first line, for at most `fuel` lines, and the
line of the caller comes to what the ending of that run means for it. -/
def callSync (fuel : Nat) (m : Machine) (s : Session κ) (name : String) (callee : Machine) :
    Option (Except Failure Flow × Machine × Session κ) :=
  match callee.run fuel s with
  | none => none
  | some (ending, callee', s') =>
      some (flowOfCall (m.conclude name callee' ending).2, (m.conclude name callee' ending).1,
        s'.note (.completed name (ending.completion callee')))

/-- A subroutine that was declared is called. -/
theorem perform_run {m child : Machine} {name : String}
    (h : m.subroutines.find? name = some child) (s : Session κ) :
    s.perform (m.execute .run name) =
      (.ok (m, .call name (child.invoked m.accumulator)),
        s.note (.invoking name m.accumulator)) := by
  simp only [execute_def, callSubroutine_def, h]
  rfl

/-- A single call instruction notes that it begins, and is a synchronous call. -/
theorem dispatch_run {m child : Machine} {name : String}
    (h : m.subroutines.find? name = some child) (fuel : Nat) (s : Session κ) :
    m.dispatch fuel s .run name =
      m.callSync fuel (s.note (.invoking name m.accumulator)) name
        (child.invoked m.accumulator) := by
  rcases hrun : (child.invoked m.accumulator).run fuel (s.note (.invoking name m.accumulator)) with
    _ | ⟨ending, callee, s'⟩ <;>
    simp only [dispatch_def, perform_run h, callSync, hrun]

end Machine

namespace Threads

/-! ### The place of a thread in a sequential run -/

section

variable (base : Machine) (s₀ : Session κ)

/-- The run of the machine `m` came to the ending, which goes outwards to the callers next. -/
def Over (frames : List Frame) (ending : Ending) (m : Machine) (s : Session κ) : Prop :=
  ∃ c s₁, Chain.Reaches (Chain.start base) s₀ c s₁ ∧
    c.step s₁ =
      ((Chain.deliver ending m frames).1, s.noteAll (Chain.deliver ending m frames).2)

/-- The run of the machine `m` is over, and the sheet is written if it was for `m` to do so; the
signal of `m` may have been taken in hand since. -/
def Done (frames : List Frame) (ending : Ending) (m : Machine) (s : Session κ) : Prop :=
  ∃ n ending₀ s₁, Over base s₀ frames ending₀ n s₁ ∧ n.released = m.released ∧
    n.close s₁ ending₀ = (ending, s)

/-- The place of a thread in the sequential run of `base`, below the callers in `frames`. -/
def Position (frames : List Frame) (m : Machine) (s : Session κ) : Phase → Prop
  | .starting => Chain.Reaches (Chain.start base) s₀ ⟨m.goto 0, frames⟩ s
  | .fetching => Chain.Reaches (Chain.start base) s₀ ⟨m, frames⟩ s
  | .executing rest => ∃ text s₁, m.currentLine? = some text ∧
      Chain.Reaches (Chain.start base) s₀ ⟨m, frames⟩ s₁ ∧
      s₁.perform (m.line text) = s.perform rest
  | .stepped (.error failure) => Over base s₀ frames (.failed (failure.within m.here)) m s
  | .stepped (.ok .next) => Chain.Reaches (Chain.start base) s₀ ⟨m.advance, frames⟩ s
  | .stepped (.ok (.jump target)) =>
      Chain.Reaches (Chain.start base) s₀ ⟨m.goto target, frames⟩ s
  | .stepped (.ok .ret) => Over base s₀ frames .returned m s
  | .stepped (.ok .halt) => Over base s₀ frames .halted m s
  | .stepped (.ok (.call _ _)) => False
  | .receiving => False
  | .joining _ => False
  | .flushing => Over base s₀ frames .halted m s ∧ m.isRoot = true
  | .ended ending => Done base s₀ frames ending m s
  | .sending _ next => Position frames m s next
  | .leaving next => Position frames m s next
  | .finished ending => Done base s₀ frames ending m s

/-- **The threads are in the middle of the sequential run of `base`**, below the callers in
`frames`. -/
def Tracks (frames : List Frame) : Threads → Session κ → Prop
  | .alone t, s => Position base s₀ frames t.machine s t.phase
  | .calling t name _ callee, s => Tracks (⟨t.machine, name⟩ :: frames) callee s

end

variable {base : Machine} {s₀ : Session κ}

theorem tracks_running (base : Machine) (s₀ : Session κ) :
    Tracks base s₀ [] (running base) s₀ := Chain.Reaches.refl

theorem Over.done {frames : List Frame} {ending : Ending} {m : Machine} {s : Session κ}
    (h : Over base s₀ frames ending m s) (he : ending ≠ .halted) :
    Done base s₀ frames ending m s :=
  ⟨m, ending, s, h, rfl, Machine.close_of_ne_halted he⟩

/-! ### What a thread does by itself -/

/-- The line of the thread was performed to its end. -/
theorem over_of_perform {frames : List Frame} {m : Machine} {s₁ s : Session κ} {text : String}
    (ht : m.currentLine? = some text)
    (hreach : Chain.Reaches (Chain.start base) s₀ ⟨m, frames⟩ s₁)
    {result : Except Cause (Machine × Flow)} (hp : s₁.perform (m.line text) = (result, s)) :
    ∃ c s₁, Chain.Reaches (Chain.start base) s₀ c s₁ ∧
      c.step s₁ = ((Chain.settle ⟨m, frames⟩ result).1,
        s.noteAll (Chain.settle ⟨m, frames⟩ result).2) :=
  ⟨⟨m, frames⟩, s₁, hreach, Chain.step_of_line (c := ⟨m, frames⟩) ht hp⟩

/-- **A thread that works keeps to the sequential run.** -/
theorem position_of_works {t t' : Thread} {s s' : Session κ} {frames : List Frame}
    (h : t.Works s t' s') (ht : Position base s₀ frames t.machine s t.phase) :
    Position base s₀ frames t'.machine s' t'.phase := by
  cases h with
  | start => exact ht
  | @fetch m _ text hline => exact ⟨text, s, hline, ht, rfl⟩
  | @runOut m _ hline =>
      have hover : Over base s₀ frames .finished m s :=
        ⟨⟨m, frames⟩, s, ht, Chain.step_of_none (c := ⟨m, frames⟩) hline s⟩
      exact hover.done nofun
  | turn hturn =>
      obtain ⟨text, s₁, hline, hreach, hp⟩ := ht
      rw [Session.perform_of_turn hturn] at hp
      exact ⟨text, s₁, hline, hreach, hp⟩
  | @refused m _ _ _ cause hturn =>
      obtain ⟨text, s₁, hline, hreach, hp⟩ := ht
      rw [Session.perform_of_turn hturn] at hp
      exact over_of_perform hline hreach hp
  | @done m m' _ flow hf =>
      obtain ⟨text, s₁, hline, hreach, hp⟩ := ht
      obtain ⟨c, s₂, hreach', hstep⟩ := over_of_perform hline hreach hp
      cases flow with
      | next => exact hreach'.tail hstep
      | jump target => exact hreach'.tail hstep
      | call name callee => exact absurd rfl (hf.2 name callee)
      | ret => exact absurd rfl hf.1
      | halt => exact ⟨c, s₂, hreach', hstep⟩
  | ret =>
      obtain ⟨text, s₁, hline, hreach, hp⟩ := ht
      exact over_of_perform hline hreach hp
  | next => exact ht
  | jump => exact ht
  | returned => exact Over.done ht nofun
  | failed => exact Over.done ht nofun
  | @halted m _ hr =>
      refine ⟨m, .halted, s, ht, rfl, ?_⟩
      simp only [Machine.close, hr, Bool.false_eq_true, if_false]
  | haltedRoot hr => exact ⟨ht, hr⟩
  | @flush m _ _ hw =>
      obtain ⟨hover, hr⟩ := ht
      refine ⟨m, .halted, s, hover, rfl, ?_⟩
      simp only [Machine.close, hr, if_true, hw]
  | @flushRefused m _ _ _ hw =>
      obtain ⟨hover, hr⟩ := ht
      refine ⟨m, .halted, s, hover, rfl, ?_⟩
      simp only [Machine.close, hr, if_true, hw]

/-- A thread that is about to report keeps to the sequential run. -/
theorem position_of_reports {t t' : Thread} {s : Session κ} {frames : List Frame}
    (h : t.Reports t') (ht : Position base s₀ frames t.machine s t.phase) :
    Position base s₀ frames t'.machine s t'.phase := by
  cases h with
  | signal _ _ => exact ht
  | silent _ _ => exact ht
  | unawaited _ => exact ht

/-! ### Joining -/

/-- The run of a subroutine that is over goes on in the caller as the line of its call. -/
theorem position_of_done {frames : List Frame} {m n : Machine} {name : String} {ending : Ending}
    {s : Session κ} (hd : n.DeclaredBy m name) (ha : n.awaited = false)
    (h : Done base s₀ (⟨m, name⟩ :: frames) ending n s) :
    Position base s₀ frames (m.resume name n (ending.signal? n)).1
      (s.note (.completed name (Signal.completion (ending.signal? n))))
      (.stepped (m.resume name n (ending.signal? n)).2) := by
  obtain ⟨n', ending', s₁, ⟨c, s₂, hreach, hstep⟩, hreleased, hclose⟩ := h
  have hroot : n'.isRoot = false := by
    change n'.released.isRoot = false
    rw [hreleased]
    exact hd.not_isRoot
  -- A subroutine does not write the sheet, so its run has the ending that goes outwards.
  have hsame : ending' = ending ∧ s₁ = s := by
    cases ending' with
    | halted =>
        simp only [Machine.close, hroot, Bool.false_eq_true, if_false] at hclose
        cases hclose
        exact ⟨rfl, rfl⟩
    | _ =>
        cases hclose
        exact ⟨rfl, rfl⟩
  obtain ⟨rfl, rfl⟩ := hsame
  have hn : n = n'.released := by rw [hreleased, Machine.released_of_awaited ha]
  subst hn
  -- A return is a move of the sequential run, any other ending goes on outwards in the same step.
  cases ending' with
  | finished => exact ⟨c, s₂, hreach, hstep⟩
  | halted => exact ⟨c, s₂, hreach, hstep⟩
  | returned => exact hreach.tail hstep
  | failed failure => exact ⟨c, s₂, hreach, hstep⟩

/-! ### All steps -/

/-- **Every step of the threads keeps to the sequential run.** -/
theorem Step.tracks {i : Nat} {move : Move} {σ σ' : Threads} {s s' : Session κ}
    {frames : List Frame} (h : Step i move σ s σ' s') (hσ : σ.Sound)
    (ht : Tracks base s₀ frames σ s) : Tracks base s₀ frames σ' s' := by
  induction h generalizing frames with
  | @work σ t s s' h =>
      obtain ⟨halone, -⟩ := hσ.eq_alone rfl (not_waiting_of_works h)
      rw [halone] at ht ⊢
      exact position_of_works h ht
  | @report σ t s h =>
      obtain ⟨halone, -⟩ := hσ.eq_alone rfl (not_waiting_of_reports h)
      rw [halone] at ht ⊢
      exact position_of_reports h ht
  | @spawn m m' callee name s =>
      -- The sequential run begins the call in the step in which it performs the line.
      obtain ⟨text, s₁, hline, hreach, hp⟩ := ht
      obtain ⟨c, s₂, hreach', hstep⟩ := over_of_perform hline hreach hp
      have heffect : m.LineEffect text m' (.call name callee) := Machine.perform_line hp
      obtain ⟨_, _, child, _, rfl⟩ := heffect.of_call
      exact hreach'.tail hstep
  | receive _ => exact ht
  | @join m n name ch callee answer ending s hn =>
      cases hσ with
      | calling tidy link declared below =>
          obtain ⟨rfl, -⟩ := below.eq_alone hn id
          cases link with
          | answered ha hq =>
              cases hq
              exact position_of_done declared ha ht
  | @send t n name ch callee signal next s hn hslot =>
      cases hσ with
      | calling tidy link declared below =>
          obtain ⟨rfl, -⟩ := below.eq_alone hn id
          exact ht
  | @leave t n name ch callee next s hn =>
      cases hσ with
      | calling tidy link declared below =>
          obtain ⟨rfl, -⟩ := below.eq_alone hn id
          exact ht
  | deeper h ih =>
      cases hσ with
      | calling tidy link declared below => exact ih below ht

/-- A thread that has finished has carried out the whole run. -/
theorem Done.run {n : Machine} {ending : Ending} {s : Session κ}
    (h : Done base s₀ [] ending n s) :
    ∃ fuel n', n'.released = n.released ∧ base.run fuel s₀ = some (ending, n', s) := by
  obtain ⟨n', ending', s₁, ⟨c, s₂, hreach, hstep⟩, hreleased, hclose⟩ := h
  obtain ⟨fuel, hrun⟩ := Machine.run_eq_some_iff.2 ⟨c, s₂, ending', s₁, hreach, hstep, hclose⟩
  exact ⟨fuel, n', hreleased, hrun⟩

/-! ### From the start of a subroutine's thread to its end -/

/-- The thread at depth `i` waits, with the machine `m`, for the subroutine of that name, and the
threads below it are in the middle of the sequential run of `callee` from the session `s₁`. -/
def Waits (i : Nat) (m : Machine) (name : String) (callee : Machine) (s₁ : Session κ)
    (σ : Threads) (s : Session κ) : Prop :=
  ∃ p ch below, σ.at? i = some (calling ⟨m, p⟩ name ch below) ∧ Tracks callee s₁ [] below s

/-- A caller that starts a thread for a subroutine waits for it. -/
theorem waits_of_spawn {i : Nat} {σ σ' : Threads} {s s' : Session κ}
    (h : Step i .spawn σ s σ' s') (hσ : σ.Sound) :
    ∃ m name child,
      σ.at? i = some (.alone
        ⟨m, .executing (.done (m, .call name (child.invoked m.accumulator)))⟩) ∧
      m.subroutines.find? name = some child ∧ s' = s ∧
      Waits i m name (child.invoked m.accumulator) s σ' s := by
  induction i generalizing σ σ' with
  | zero =>
      cases h with
      | @spawn m m' callee name =>
          cases hσ with
          | alone fit _ =>
              have houtcome : m.Outcome (m', .call name callee) := fit.executing _ rfl
              obtain ⟨rfl, child, hc, rfl⟩ := houtcome.of_call
              exact ⟨m', name, child, rfl, hc, rfl, _, _, _, rfl, Chain.Reaches.refl⟩
  | succ i ih =>
      cases h with
      | deeper h =>
          cases hσ with
          | calling tidy link declared below => exact ih h below

/-- A caller waits until it joins. -/
theorem Waits.step {i j : Nat} {move : Move} {m callee : Machine} {name : String}
    {s₁ s s' : Session κ} {σ σ' : Threads} (hw : Waits i m name callee s₁ σ s)
    (h : Step j move σ s σ' s') (hσ : σ.Sound) (hj : ¬ (j = i ∧ move = .join)) :
    Waits i m name callee s₁ σ' s' := by
  obtain ⟨p, ch, below, hi, htracks⟩ := hw
  induction i generalizing j σ σ' with
  | zero =>
      rw [at?_zero] at hi
      cases hi
      cases hσ with
      | calling tidy link declared sound =>
          cases h with
          | work h => exact absurd link.waiting (not_waiting_of_works h)
          | report h => exact absurd link.waiting (not_waiting_of_reports h)
          | receive _ => exact ⟨_, _, _, rfl, htracks⟩
          | join _ => exact absurd ⟨rfl, rfl⟩ hj
          | send hn hslot =>
              refine ⟨_, _, _, rfl, ?_⟩
              obtain ⟨rfl, -⟩ := sound.eq_alone hn id
              exact htracks
          | leave hn =>
              refine ⟨_, _, _, rfl, ?_⟩
              obtain ⟨rfl, -⟩ := sound.eq_alone hn id
              exact htracks
          | deeper h => exact ⟨_, _, _, rfl, h.tracks sound htracks⟩
  | succ i ih =>
      cases hσ with
      | alone _ _ => cases hi
      | @calling t name' ch' callee' tidy link declared sound =>
          have hi' : callee'.at? i = some (calling ⟨m, p⟩ name ch below) := hi
          -- The thread below has itself called, so it neither finishes nor uses the channel.
          have hwaiting : callee'.head.phase.Waiting := sound.waiting_of_at? hi'
          cases h with
          | work h => exact absurd link.waiting (not_waiting_of_works h)
          | report h => exact absurd link.waiting (not_waiting_of_reports h)
          | receive _ => exact ⟨_, _, _, hi, htracks⟩
          | join hn =>
              rw [hn] at hwaiting
              exact hwaiting.elim
          | send hn _ =>
              rw [hn] at hwaiting
              exact hwaiting.elim
          | leave hn =>
              rw [hn] at hwaiting
              exact hwaiting.elim
          | @deeper k _ _ _ _ _ _ _ _ h =>
              refine ih h sound ?_ hi'
              rintro ⟨rfl, hmove⟩
              exact hj ⟨rfl, hmove⟩

theorem Steps.waits {allowed : Nat → Move → Prop} {i : Nat} {m callee : Machine} {name : String}
    {s₁ s s' : Session κ} {σ σ' : Threads} (h : Steps allowed σ s σ' s')
    (hallowed : ∀ j move, allowed j move → ¬ (j = i ∧ move = .join)) (hσ : σ.Sound)
    (hw : Waits i m name callee s₁ σ s) : σ'.Sound ∧ Waits i m name callee s₁ σ' s' := by
  refine h.keeps (P := fun σ s => σ.Sound ∧ Waits i m name callee s₁ σ s) ?_ ⟨hσ, hw⟩
  rintro j move σ₁ r₁ σ₂ r₂ hs ha ⟨hsound, hwaits⟩
  exact ⟨hs.sound hsound, hwaits.step hs hsound (hallowed _ _ ha)⟩

omit [Console κ] in
/-- Taking a finished subroutine back with its answer is what the end of its run means for the
caller. -/
theorem resume_eq_conclude (m n : Machine) (name : String) (ending : Ending) :
    m.resume name n.released (ending.signal? n.released) =
      ((m.conclude name n ending).1, Machine.flowOfCall (m.conclude name n ending).2) ∧
    Signal.completion (ending.signal? n.released) = ending.completion n := by
  cases ending <;> exact ⟨rfl, rfl⟩

/-- **A caller that joins comes to the result of the synchronous call.** -/
theorem Waits.join {i : Nat} {m callee : Machine} {name : String} {s₁ s s' : Session κ}
    {σ σ' : Threads} (hw : Waits i m name callee s₁ σ s) (h : Step i .join σ s σ' s')
    (hσ : σ.Sound) :
    ∃ fuel result m', m.callSync fuel s₁ name callee = some (result, m', s') ∧
      σ'.at? i = some (.alone ⟨m', .stepped result⟩) := by
  obtain ⟨p, ch, below, hi, htracks⟩ := hw
  induction i generalizing σ σ' with
  | zero =>
      rw [at?_zero] at hi
      cases hi
      cases hσ with
      | calling tidy link declared sound =>
          cases h with
          | @join _ n _ _ _ answer ending _ hn =>
              obtain ⟨rfl, -⟩ := sound.eq_alone hn id
              cases link with
              | answered ha hq =>
                  cases hq
                  -- The thread has taken the signal of its machine in hand, the sequential run
                  -- releases it when the caller takes it back.
                  obtain ⟨fuel, n', hreleased, hrun⟩ := Done.run htracks
                  have hn' : n = n'.released := by
                    rw [hreleased, Machine.released_of_awaited ha]
                  subst hn'
                  obtain ⟨hresume, hcompletion⟩ := resume_eq_conclude m n' name ending
                  refine ⟨fuel, Machine.flowOfCall (m.conclude name n' ending).2,
                    (m.conclude name n' ending).1, ?_, ?_⟩
                  · rw [hcompletion]
                    simp only [Machine.callSync, hrun]
                  · rw [hresume, at?_zero]
  | succ i ih =>
      cases hσ with
      | alone _ _ => cases hi
      | calling tidy link declared sound =>
          cases h with
          | deeper h => exact ih h sound hi

/-! ### The behaviour of calls on threads -/

/-- What holds of the threads of a chain of calls wherever their steps have led them. -/
structure Orderly (σ : Threads) (s : Session κ) : Prop where
  /-- No two threads can act on lines or on the session. -/
  one_at_a_time : ∀ i j move move' σ₁ σ₂ s₁ s₂, Step i move σ s σ₁ s₁ →
    Step j move' σ s σ₂ s₂ → move.touches = true → move'.touches = true → i = j
  /-- All other steps leave the session alone, and the machines but for the signal they hold. -/
  untouched : ∀ i move σ' s', Step i move σ s σ' s' → move.touches = false →
    s' = s ∧ σ'.machines.map Machine.released = σ.machines.map Machine.released
  /-- A caller only listens until the thread of its subroutine has finished. -/
  listens : ∀ i move σ' s' t name ch callee, Step i move σ s σ' s' →
    σ.at? i = some (calling t name ch callee) →
      move = .receive ∨ move = .join ∧ ∃ n ending, callee = .alone ⟨n, .finished ending⟩
  /-- Every call gets one answer, and no signal is sent while the slot is full. -/
  exchange : ∀ i t name ch callee, σ.at? i = some (calling t name ch callee) →
    Exchange t ch callee.head
  /-- A thread has finished, or it or one that it has started can take a step. -/
  progress : ∀ i σ', σ.at? i = some σ' → (∃ n ending, σ' = .alone ⟨n, .finished ending⟩) ∨
    ∃ j move σ'' s', i ≤ j ∧ Step j move σ s σ'' s'
  /-- From the start of a subroutine's thread until it is joined, whatever steps are taken, the
  caller comes to the result of the synchronous call. -/
  synchronous : ∀ i σ₁ s₁ σ₂ s₂ σ₃ s₃, Step i .spawn σ s σ₁ s₁ →
    Steps (fun j move => ¬ (j = i ∧ move = .join)) σ₁ s₁ σ₂ s₂ → Step i .join σ₂ s₂ σ₃ s₃ →
      ∃ m name child fuel result m',
        σ.at? i = some (.alone
          ⟨m, .executing (.done (m, .call name (child.invoked m.accumulator)))⟩) ∧
        m.subroutines.find? name = some child ∧
        m.callSync fuel s name (child.invoked m.accumulator) = some (result, m', s₃) ∧
        σ₃.at? i = some (.alone ⟨m', .stepped result⟩)

theorem Sound.orderly {σ : Threads} (hσ : σ.Sound) (hu : σ.head.Unawaited) (s : Session κ) :
    Orderly σ s where
  one_at_a_time := fun _ _ _ _ _ _ _ _ h h' ht ht' => hσ.one_at_a_time h h' ht ht'
  untouched := fun _ _ _ _ h ht => h.untouched ht
  listens := fun _ _ _ _ _ _ _ _ h hi => h.of_caller hσ hi
  exchange := fun _ _ _ _ _ hi => hσ.exchange hi
  progress := fun _ _ hi => hσ.progress_at hu hi s
  synchronous := by
    intro i σ₁ s₁ σ₂ s₂ σ₃ s₃ hspawn hsteps hjoin
    obtain ⟨m, name, child, hi, hc, rfl, hwaits⟩ := waits_of_spawn hspawn hσ
    obtain ⟨hsound, hwaits'⟩ := hsteps.waits (fun _ _ ha => ha) (hspawn.sound hσ) hwaits
    obtain ⟨fuel, result, m', hcall, hi'⟩ := hwaits'.join hjoin hsound
    exact ⟨m, name, child, fuel, result, m', hi, hc, hcall, hi'⟩

theorem Steps.tracks {allowed : Nat → Move → Prop} {σ σ' : Threads} {s s' : Session κ}
    (h : Steps allowed σ s σ' s') (hσ : σ.Sound) (ht : Tracks base s₀ [] σ s) :
    σ'.Sound ∧ Tracks base s₀ [] σ' s' :=
  h.keeps (P := fun σ s => σ.Sound ∧ Tracks base s₀ [] σ s)
    (fun _ _ _ _ _ _ hs _ ⟨hsound, htracks⟩ => ⟨hs.sound hsound, hs.tracks hsound htracks⟩)
    ⟨hσ, ht⟩

/-- **A run that is carried out on threads, in any order of steps, is the sequential run.** -/
theorem run_of_finished {m n : Machine} (hm : m.Tidy) (ha : m.awaited = false)
    {s : Session κ} {ending : Ending}
    (h : Steps (fun _ _ => True) (running m) s₀ (.alone ⟨n, .finished ending⟩) s) :
    ∃ fuel, m.run fuel s₀ = some (ending, n, s) := by
  have hreachable : Reachable m s₀ (.alone ⟨n, .finished ending⟩) s := .run h
  have hn : n.awaited = false := (hreachable.sound hm ha).2.1
  have hstart : (running m).Sound := (Reachable.sound (.run (.refl (s := s₀))) hm ha).1
  obtain ⟨-, htracks⟩ := h.tracks hstart (tracks_running m s₀)
  obtain ⟨fuel, n', hreleased, hrun⟩ := Done.run htracks
  obtain ⟨-, -, -, hawaited⟩ := Machine.run_tidy hm hrun
  have hn' : n'.released = n.released := hreleased
  rw [Machine.released_of_awaited (hawaited ha).1, Machine.released_of_awaited hn] at hn'
  exact ⟨fuel, hn' ▸ hrun⟩

/-- **Calls on threads are synchronous calls.**  Let threads carry out a run of a machine that
nobody waits for, or a single instruction of it, and let their steps be taken in any order.
Wherever that leads, at most one thread can act on lines and on the session, and a caller only
listens until the thread of its subroutine has finished; every call gets one answer, and no signal
meets a full slot; a thread that has not finished can go on, or one that it has started can; a
caller that joins is where the synchronous call would have taken it; and a run that is finished is
the sequential run. -/
theorem Reachable.calls_synchronous {m : Machine} (hm : m.Tidy) (ha : m.awaited = false)
    {s : Session κ} {σ : Threads} (h : Reachable m s₀ σ s) :
    Orderly σ s ∧ ∀ n ending, σ = .alone ⟨n, .finished ending⟩ →
      Steps (fun _ _ => True) (running m) s₀ σ s → ∃ fuel, m.run fuel s₀ = some (ending, n, s) := by
  obtain ⟨hσ, hu⟩ := h.sound hm ha
  refine ⟨hσ.orderly hu s, ?_⟩
  rintro n ending rfl hsteps
  exact run_of_finished hm ha hsteps

/-! ### A call that returns at once -/

/-- A subroutine that returns at once. -/
def leaf : Machine := { Machine.ofProgram (.ofLines "leaf" ["RET"]) with parent := some "root" }

/-- A root that has declared it. -/
def owner : Machine := ((Machine.ofProgram (.ofLines "root" [])).hold "leaf" leaf).accumulate 7

theorem tidy_owner : owner.Tidy := by
  have hleaf : leaf.DeclaredBy (Machine.ofProgram (.ofLines "root" [])) "leaf" := ⟨rfl, rfl⟩
  have hhold := (Machine.tidy_ofProgram (.ofLines "root" [])).hold
    (Machine.tidy_of_empty (m := leaf) rfl) hleaf rfl
  exact hhold.congr rfl rfl

/-- The subroutine sends its accumulator, the caller gets it before the thread of the subroutine has
left the channel, and comes to the result of the synchronous call when that thread is joined. -/
theorem calls_synchronous_leaf :
    ∃ (σ σ₁ σ₂ σ₃ : Threads) (s s₁ s₂ s₃ : Session Buffer),
      Reachable owner (.inMemory [] []) σ s ∧ Step 0 .spawn σ s σ₁ s₁ ∧
      Steps (fun j move => ¬ (j = 0 ∧ move = .join)) σ₁ s₁ σ₂ s₂ ∧ Step 0 .join σ₂ s₂ σ₃ s₃ ∧
      ∃ (m : Machine) (name : String) (child : Machine) (fuel : Nat) (result : Except Failure Flow)
          (m' : Machine), m.subroutines.find? name = some child ∧
        m.callSync fuel s name (child.invoked m.accumulator) = some (result, m', s₃) ∧
        σ₃.at? 0 = some (.alone ⟨m', .stepped result⟩) := by
  have hreach : Reachable owner (.inMemory [] []) _ _ :=
    .dispatch .run "leaf" (Steps.refl.tail (.work (.turn rfl)) trivial)
  have h₀ : Steps (fun j move => ¬ (j = 0 ∧ move = .join))
      (calling ⟨owner, .receiving⟩ "leaf" {} (.alone ⟨leaf.invoked 7, .starting⟩))
      (Session.note (.inMemory [] []) (.invoking "leaf" 7)) _ _ := .refl
  have h₁ := (h₀.tail (.deeper (.work .start)) (by decide)).tail (.deeper (.work (.fetch rfl)))
    (by decide)
  have h₂ := (h₁.tail (.deeper (.work (.turn rfl))) (by decide)).tail (.deeper (.work .ret))
    (by decide)
  have h₃ := (h₂.tail (.send rfl rfl) (by decide)).tail (.receive rfl) (by decide)
  have h₄ := (h₃.tail (.leave rfl) (by decide)).tail (.deeper (.work .returned)) (by decide)
  have h₅ := h₄.tail (.deeper (.report (.unawaited rfl))) (by decide)
  have horderly := (Reachable.calls_synchronous tidy_owner rfl hreach).1
  obtain ⟨m, name, child, fuel, result, m', _, hc, hcall, hend⟩ :=
    horderly.synchronous 0 _ _ _ _ _ _ .spawn h₅ (.join rfl)
  exact ⟨_, _, _, _, _, _, _, _, hreach, .spawn, h₅, .join rfl, m, name, child, fuel, result, m',
    hc, hcall, hend⟩

end Threads

end AccMachine
