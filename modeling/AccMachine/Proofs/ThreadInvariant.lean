/-
**Threads that call one another never get in each other's way.**

In every order in which the threads of a chain of calls may act, all calls of the chain stay in
positions of the handshake.  So a caller does nothing but listen until the thread of its subroutine
has finished, no two threads ever act on lines or on the session, every call gets exactly one
answer, and no thread that has not finished is left without a step to take, its own or one of a
thread that it has started.

Main definitions:

* `Threads.Sound` — **the invariant**: all calls of a chain are in positions of the handshake;
* `Threads.Exchange` — what a call has sent and answered while its caller waits.

Main results:

* `Threads.Step.sound`, `Threads.Reachable.sound` — every step keeps the invariant;
* `Threads.Sound.one_at_a_time` — **no two threads can act on lines or on the session**;
* `Threads.Step.of_caller` — a caller listens until the thread of its subroutine has finished;
* `Threads.Sound.exchange` — a call gets one answer, and there is room for its signal;
* `Threads.Sound.progress_at` — threads that have not finished can go on.
-/

import AccMachine.Proofs.Handshake

set_option relaxedAutoImplicit false
set_option autoImplicit false

namespace AccMachine

namespace Threads

/-! ### The invariant -/

/-- **All calls of a chain are in positions of the handshake**, every subroutine fits to the caller
that declared it, and every thread is fit. -/
inductive Sound : Threads → Prop
  | alone {t : Thread} (fit : t.Fit) (waiting : ¬ t.phase.Waiting) : Sound (alone t)
  | calling {t : Thread} {name : String} {ch : Channel} {callee : Threads}
      (tidy : t.machine.Tidy) (link : Link t.phase ch callee.head)
      (declared : callee.head.machine.DeclaredBy t.machine name) (below : Sound callee) :
      Sound (calling t name ch callee)

/-- A thread that does not wait has called nobody. -/
theorem Sound.eq_alone {σ : Threads} {t : Thread} (h : σ.Sound) (ht : σ.head = t)
    (hw : ¬ t.phase.Waiting) : σ = Threads.alone t ∧ t.Fit := by
  subst ht
  cases h with
  | alone fit _ => exact ⟨rfl, fit⟩
  | calling _ link _ _ => exact absurd link.waiting hw

variable {κ : Type} [Console κ]

theorem not_waiting_of_works {t t' : Thread} {s s' : Session κ} (h : t.Works s t' s') :
    ¬ t.phase.Waiting := by
  cases h <;> exact id

theorem not_waiting_of_reports {t t' : Thread} (h : t.Reports t') : ¬ t.phase.Waiting := by
  cases h <;> exact id

/-- A step of the outermost thread takes it onward, and so do the steps of the others, which leave
it alone. -/
theorem Step.onward {i : Nat} {move : Move} {σ σ' : Threads} {s s' : Session κ}
    (h : Step i move σ s σ' s') (hσ : σ.Sound) : σ.head.Onward σ'.head := by
  cases h with
  | work h =>
      rw [head_withHead]
      exact h.onward (hσ.eq_alone rfl (not_waiting_of_works h)).2
  | report h =>
      rw [head_withHead]
      exact h.onward
  | @spawn m m' callee name =>
      cases hσ with
      | alone fit _ =>
          have houtcome : m.Outcome (m', .call name callee) := fit.executing _ rfl
          obtain ⟨rfl, _⟩ := houtcome.of_call
          exact .of_working trivial trivial rfl rfl rfl
  | receive _ => exact .of_working trivial trivial rfl rfl rfl
  | @join m n name _ _ answer _ _ _ =>
      obtain ⟨hprogram, hparent, hawaited⟩ := m.resume_kept name n answer
      refine .of_working trivial ?_ hprogram hparent hawaited
      rcases answer with _ | _ | _ | _ <;> trivial
  | send _ _ => exact .refl _
  | leave _ => exact .refl _
  | deeper _ => exact .refl _

/-- **Every step keeps the invariant.** -/
theorem Step.sound {i : Nat} {move : Move} {σ σ' : Threads} {s s' : Session κ}
    (h : Step i move σ s σ' s') (hσ : σ.Sound) : σ'.Sound := by
  induction h with
  | @work σ t s s' h =>
      obtain ⟨halone, hfit⟩ := hσ.eq_alone rfl (not_waiting_of_works h)
      rw [halone]
      exact .alone (h.fit hfit).1 (h.fit hfit).2
  | @report σ t s h =>
      obtain ⟨halone, hfit⟩ := hσ.eq_alone rfl (not_waiting_of_reports h)
      rw [halone]
      exact .alone (h.fit hfit).1 (h.fit hfit).2
  | @spawn m m' callee name s =>
      cases hσ with
      | alone fit _ =>
          have houtcome : m.Outcome (m', .call name callee) := fit.executing _ rfl
          obtain ⟨rfl, child, hc, rfl⟩ := houtcome.of_call
          refine .calling fit.tidy (.working rfl trivial) ((fit.tidy.declared hc).invoked _) ?_
          exact .alone (Thread.fit_of_tidy ((fit.tidy.of_child hc).invoked _) nofun nofun) id
  | @receive m name ch callee answer s ha =>
      cases hσ with
      | calling tidy link declared below => exact .calling tidy (link.receive ha) declared below
  | @join m n name ch callee answer ending s hn =>
      cases hσ with
      | calling tidy link declared below =>
          have hfit := (below.eq_alone hn id).2
          rw [hn] at link declared
          have hawaited : n.awaited = false := by
            cases link with
            | answered ha _ => exact ha
          -- The caller alone is left, with a tidy tree since nobody waits for the subroutine.
          refine .alone (Thread.fit_of_tidy ?_ nofun ?_) id
          · exact Machine.resume_tidy tidy hfit.tidy declared hawaited answer
          · rcases answer with _ | _ | _ | _ <;> exact nofun
  | @send t n name ch callee signal next s hn hslot =>
      cases hσ with
      | calling tidy link declared below =>
          obtain ⟨rfl, hfit⟩ := below.eq_alone hn id
          exact .calling tidy link.send declared
            (.alone (Thread.fit_of_tidy hfit.tidy nofun nofun) id)
  | @leave t n name ch callee next s hn =>
      cases hσ with
      | calling tidy link declared below =>
          obtain ⟨rfl, hfit⟩ := below.eq_alone hn id
          obtain ⟨ending, hclosed⟩ := link.closed_of_leaving
          refine .calling tidy link.leave declared (.alone ?_ ?_)
          · cases hclosed <;> exact Thread.fit_of_tidy hfit.tidy nofun nofun
          · cases hclosed <;> exact id
  | deeper h ih =>
      cases hσ with
      | calling tidy link declared below =>
          -- The thread of the subroutine moves onward, so the position of its call stays one.
          have honward := h.onward below
          refine .calling tidy (honward.link _ _ link) ?_ (ih below)
          exact ⟨by rw [honward.program]; exact declared.reference,
            by rw [honward.parent]; exact declared.parent⟩

theorem Sound.at? {σ σ' : Threads} {i : Nat} (h : σ.Sound) (hi : σ.at? i = some σ') :
    σ'.Sound := by
  induction i generalizing σ with
  | zero =>
      rw [at?_zero] at hi
      cases hi
      exact h
  | succ i ih =>
      cases h with
      | alone _ _ => cases hi
      | calling _ _ _ below => exact ih below hi

/-- The outermost thread waits if any thread below it, or it itself, has called. -/
theorem Sound.waiting_of_at? {σ callee : Threads} {i : Nat} {t : Thread} {name : String}
    {ch : Channel} (h : σ.Sound) (hi : σ.at? i = some (Threads.calling t name ch callee)) :
    σ.head.phase.Waiting := by
  cases h with
  | calling _ link _ _ => exact link.waiting
  | alone _ _ =>
      cases i with
      | zero =>
          rw [at?_zero] at hi
          cases hi
      | succ i => cases hi

/-! ### One at a time -/

/-- A thread that has finished takes no step. -/
theorem not_step_of_finished {i : Nat} {move : Move} {n : Machine} {ending : Ending}
    {σ' : Threads} {s s' : Session κ} :
    ¬ Step i move (.alone ⟨n, .finished ending⟩) s σ' s' := by
  intro h
  cases h with
  | work h => cases h
  | report h => cases h

/-- A caller can only listen or take its finished subroutine back; the other steps are those of the
threads below it. -/
theorem Step.of_calling {i : Nat} {move : Move} {t : Thread} {name : String} {ch : Channel}
    {callee σ' : Threads} {s s' : Session κ} (h : Step i move (calling t name ch callee) s σ' s')
    (hσ : (calling t name ch callee).Sound) :
    (i = 0 ∧ move = .receive) ∨
      (i = 0 ∧ move = .join ∧ ∃ n ending, callee = .alone ⟨n, .finished ending⟩) ∨
      (i = 1 ∧ move.touches = false ∧ ¬ callee.head.phase.Waiting) ∨
      ∃ j callee', i = j + 1 ∧ Step j move callee s callee' s' := by
  have hwaiting : t.phase.Waiting := by
    cases hσ with
    | calling _ link _ _ => exact link.waiting
  cases h with
  | work h => exact absurd hwaiting (not_waiting_of_works h)
  | report h => exact absurd hwaiting (not_waiting_of_reports h)
  | receive _ => exact Or.inl ⟨rfl, rfl⟩
  | @join m n _ _ _ answer ending _ hn =>
      cases hσ with
      | calling _ _ _ below =>
          exact Or.inr (Or.inl ⟨rfl, rfl, n, ending, (below.eq_alone hn id).1⟩)
  | send hn _ => exact Or.inr (Or.inr (Or.inl ⟨rfl, rfl, by rw [hn]; exact id⟩))
  | leave hn => exact Or.inr (Or.inr (Or.inl ⟨rfl, rfl, by rw [hn]; exact id⟩))
  | deeper h => exact Or.inr (Or.inr (Or.inr ⟨_, _, rfl, h⟩))

/-- **No two threads can act on lines, on the session or on each other's machines.** -/
theorem Sound.one_at_a_time {σ : Threads} (hσ : σ.Sound) {i j : Nat} {move move' : Move}
    {σ₁ σ₂ : Threads} {s s₁ s₂ : Session κ} (h : Step i move σ s σ₁ s₁)
    (h' : Step j move' σ s σ₂ s₂) (ht : move.touches = true) (ht' : move'.touches = true) :
    i = j := by
  induction hσ generalizing i j σ₁ σ₂ with
  | @alone t fit waiting =>
      -- There is only one thread.
      have hzero : ∀ {k : Nat} {mv : Move} {τ : Threads} {r : Session κ},
          Step k mv (.alone t) s τ r → k = 0 := by
        intro k mv τ r hstep
        cases hstep <;> rfl
      rw [hzero h, hzero h']
  | @calling t name ch callee tidy link declared below ih =>
      have hσ : (Threads.calling t name ch callee).Sound := .calling tidy link declared below
      rcases h.of_calling hσ with ⟨_, rfl⟩ | ⟨rfl, _, n, ending, rfl⟩ | ⟨_, hn, _⟩ |
        ⟨i, c₁, rfl, hi⟩
      · cases ht
      · -- The caller joins, so the thread of its subroutine has finished.
        rcases h'.of_calling hσ with ⟨_, rfl⟩ | ⟨rfl, _⟩ | ⟨_, hn, _⟩ | ⟨j, c₂, rfl, hj⟩
        · cases ht'
        · rfl
        · rw [hn] at ht'
          cases ht'
        · exact absurd hj not_step_of_finished
      · rw [hn] at ht
        cases ht
      · -- The step is one below the caller, and so must be the other.
        rcases h'.of_calling hσ with ⟨_, rfl⟩ | ⟨_, _, n, ending, rfl⟩ | ⟨_, hn, _⟩ |
          ⟨j, c₂, rfl, hj⟩
        · cases ht'
        · exact absurd hi not_step_of_finished
        · rw [hn] at ht'
          cases ht'
        · rw [ih hi hj]

omit [Console κ] in
theorem machines_released_withHead (σ : Threads) {t : Thread}
    (h : t.machine.released = σ.head.machine.released) :
    (σ.withHead t).machines.map Machine.released = σ.machines.map Machine.released := by
  cases σ with
  | alone t₀ => exact congrArg (fun m => [m]) h
  | calling t₀ name ch callee =>
      exact congrArg (fun m => m :: callee.machines.map Machine.released) h

omit [Console κ] in
theorem released_of_reports {t t' : Thread} (h : t.Reports t') :
    t'.machine.released = t.machine.released := by
  cases h <;> rfl

/-- A step that touches nothing leaves the session and the machines as they are; a thread may only
take the signal of its machine in hand. -/
theorem Step.untouched {i : Nat} {move : Move} {σ σ' : Threads} {s s' : Session κ}
    (h : Step i move σ s σ' s') (ht : move.touches = false) :
    s' = s ∧ σ'.machines.map Machine.released = σ.machines.map Machine.released := by
  induction h with
  | work _ => cases ht
  | @report σ t s h => exact ⟨rfl, machines_released_withHead σ (released_of_reports h)⟩
  | spawn => cases ht
  | receive _ => exact ⟨rfl, rfl⟩
  | join _ => cases ht
  | @send t n name ch callee signal next s hn _ =>
      exact ⟨rfl, congrArg (fun ms => t.machine.released :: ms)
        (machines_released_withHead callee (by rw [hn]))⟩
  | @leave t n name ch callee next s hn =>
      exact ⟨rfl, congrArg (fun ms => t.machine.released :: ms)
        (machines_released_withHead callee (by rw [hn]))⟩
  | @deeper i move t name ch callee callee' s s' _ ih =>
      obtain ⟨rfl, hmachines⟩ := ih ht
      exact ⟨rfl, congrArg (fun ms => t.machine.released :: ms) hmachines⟩

/-- A caller does nothing but listen until the thread of its subroutine has finished. -/
theorem Step.of_caller {i : Nat} {move : Move} {σ σ' callee : Threads} {t : Thread}
    {name : String} {ch : Channel} {s s' : Session κ} (h : Step i move σ s σ' s')
    (hσ : σ.Sound) (hi : σ.at? i = some (calling t name ch callee)) :
    move = .receive ∨ move = .join ∧ ∃ n ending, callee = .alone ⟨n, .finished ending⟩ := by
  induction i generalizing σ σ' with
  | zero =>
      rw [at?_zero] at hi
      cases hi
      rcases h.of_calling hσ with ⟨_, hm⟩ | ⟨_, hm, hcallee⟩ | ⟨hzero, _⟩ | ⟨_, _, hzero, _⟩
      · exact Or.inl hm
      · exact Or.inr ⟨hm, hcallee⟩
      · cases hzero
      · cases hzero
  | succ i ih =>
      cases hσ with
      | alone _ _ => cases hi
      | @calling t₀ name₀ ch₀ callee₀ tidy link declared below =>
          have hi' : callee₀.at? i = some (calling t name ch callee) := hi
          rcases h.of_calling (.calling tidy link declared below) with
            ⟨hzero, _⟩ | ⟨hzero, _⟩ | ⟨hone, _, hnot⟩ | ⟨j, callee', hj, hstep⟩
          · cases hzero
          · cases hzero
          · -- A thread that sends or leaves has called nobody.
            exact absurd (below.waiting_of_at? hi') hnot
          · cases hj
            exact ih hstep below hi'

/-! ### Going on -/

/-- A thread that neither waits nor needs its channel nor has finished can take a step. -/
theorem step_of_busy {t : Thread} (fit : t.Fit) (hw : ¬ t.phase.Waiting)
    (hp : ¬ t.phase.Passive) (s : Session κ) :
    ∃ i move σ' s', Step i move (.alone t) s σ' s' := by
  obtain ⟨m, p⟩ := t
  cases p with
  | starting => exact ⟨_, _, _, _, .work .start⟩
  | fetching =>
      cases ht : m.currentLine? with
      | none => exact ⟨_, _, _, _, .work (.runOut ht)⟩
      | some text => exact ⟨_, _, _, _, .work (.fetch ht)⟩
  | executing rest =>
      rcases s.done_or_turn rest with ⟨⟨m', flow⟩, rfl⟩ | ⟨_, _, hturn⟩ | ⟨_, _, hturn⟩
      · cases flow with
        | call name callee => exact ⟨_, _, _, _, .spawn⟩
        | ret => exact ⟨_, _, _, _, .work .ret⟩
        | next => exact ⟨_, _, _, _, .work (.done ⟨nofun, nofun⟩)⟩
        | jump target => exact ⟨_, _, _, _, .work (.done ⟨nofun, nofun⟩)⟩
        | halt => exact ⟨_, _, _, _, .work (.done ⟨nofun, nofun⟩)⟩
      · exact ⟨_, _, _, _, .work (.refused hturn)⟩
      · exact ⟨_, _, _, _, .work (.turn hturn)⟩
  | stepped result =>
      rcases result with failure | flow
      · exact ⟨_, _, _, _, .work .failed⟩
      · cases flow with
        | next => exact ⟨_, _, _, _, .work .next⟩
        | jump target => exact ⟨_, _, _, _, .work .jump⟩
        | call name callee => exact absurd rfl (fit.stepped name callee)
        | ret => exact ⟨_, _, _, _, .work .returned⟩
        | halt =>
            cases hr : m.isRoot with
            | false => exact ⟨_, _, _, _, .work (.halted hr)⟩
            | true => exact ⟨_, _, _, _, .work (.haltedRoot hr)⟩
  | receiving => exact absurd trivial hw
  | joining answer => exact absurd trivial hw
  | flushing =>
      rcases hs : s.writeSheet with ⟨fault | _, s'⟩
      · exact ⟨_, _, _, _, .work (.flushRefused hs)⟩
      · exact ⟨_, _, _, _, .work (.flush hs)⟩
  | ended ending =>
      cases ha : m.awaited with
      | false => exact ⟨_, _, _, _, .report (.unawaited ha)⟩
      | true =>
          cases hs : ending.report? with
          | none => exact ⟨_, _, _, _, .report (.silent ha hs)⟩
          | some signal => exact ⟨_, _, _, _, .report (.signal ha hs)⟩
  | sending signal next => exact absurd trivial hp
  | leaving next => exact absurd trivial hp
  | finished ending => exact absurd trivial hp

/-- A caller and a thread that sends, leaves or has finished can take a step together. -/
theorem step_of_passive {t : Thread} {ch : Channel} {n : Machine} {p : Phase}
    (link : Link t.phase ch ⟨n, p⟩) (hp : p.Passive) (name : String) (s : Session κ) :
    ∃ i move σ' s', Step i move (calling t name ch (.alone ⟨n, p⟩)) s σ' s' ∧
      (i = 1 ∨ ∃ ending, p = .finished ending) := by
  cases p with
  | sending signal next => exact ⟨1, _, _, _, .send rfl link.slot_of_sending, Or.inl rfl⟩
  | leaving next => exact ⟨1, _, _, _, .leave rfl, Or.inl rfl⟩
  | finished ending =>
      obtain ⟨m, q⟩ := t
      cases link with
      | working _ hq => exact hq.elim
      | left _ _ => exact ⟨0, _, _, _, .receive (Channel.answer?_left _ _), Or.inr ⟨_, rfl⟩⟩
      | answered _ _ => exact ⟨0, _, _, _, .join rfl, Or.inr ⟨_, rfl⟩⟩
  | _ => exact hp.elim

/-- The threads of a chain can go on, unless the only thread needs its channel or has finished. -/
theorem Sound.progress {σ : Threads} (h : σ.Sound) (s : Session κ) :
    (∃ n p, σ = .alone ⟨n, p⟩ ∧ p.Passive) ∨ ∃ i move σ' s', Step i move σ s σ' s' := by
  induction h with
  | @alone t fit waiting =>
      by_cases hp : t.phase.Passive
      · exact Or.inl ⟨t.machine, t.phase, rfl, hp⟩
      · exact Or.inr (step_of_busy fit waiting hp s)
  | @calling _ name _ _ tidy link declared below ih =>
      -- If the subroutine cannot go on by itself, the caller and it can do so together.
      rcases ih with ⟨n, p, rfl, hp⟩ | ⟨i, move, callee', s', hstep⟩
      · obtain ⟨i, move, σ', s', hstep, _⟩ := step_of_passive link hp name s
        exact Or.inr ⟨i, move, σ', s', hstep⟩
      · exact Or.inr ⟨i + 1, move, _, s', .deeper hstep⟩

/-- A subroutine's thread that has not finished can go on, or one that it has started can. -/
theorem Sound.progress_below {t : Thread} {name : String} {ch : Channel} {callee σ : Threads}
    {i : Nat} (h : (Threads.calling t name ch callee).Sound) (hi : callee.at? i = some σ)
    (s : Session κ) :
    (∃ n ending, σ = .alone ⟨n, .finished ending⟩) ∨
      ∃ j move σ' s', i + 1 ≤ j ∧ Step j move (Threads.calling t name ch callee) s σ' s' := by
  induction i generalizing t name ch callee with
  | zero =>
      rw [at?_zero] at hi
      cases hi
      cases h with
      | calling tidy link declared below =>
          rcases below.progress s with ⟨n, p, rfl, hp⟩ | ⟨j, move, callee', s', hstep⟩
          · obtain ⟨j, move, σ', s', hstep, rfl | ⟨ending, rfl⟩⟩ :=
              step_of_passive link hp name s
            · exact Or.inr ⟨1, move, σ', s', Nat.le_refl 1, hstep⟩
            · exact Or.inl ⟨n, ending, rfl⟩
          · exact Or.inr ⟨j + 1, move, _, s', Nat.succ_le_succ (Nat.zero_le j), .deeper hstep⟩
  | succ i ih =>
      cases h with
      | calling tidy link declared below =>
          cases callee with
          | alone t' => cases hi
          | calling t' name' ch' callee' =>
              have hi' : callee'.at? i = some σ := hi
              rcases ih below hi' with hfinished | ⟨j, move, σ', s', hj, hstep⟩
              · exact Or.inl hfinished
              · exact Or.inr ⟨j + 1, move, _, s', Nat.succ_le_succ hj, .deeper hstep⟩

/-- **A thread that has not finished can go on, or one that it has started can**, if nobody waits
for the outermost one. -/
theorem Sound.progress_at {σ σ' : Threads} (h : σ.Sound) (hu : σ.head.Unawaited) {i : Nat}
    (hi : σ.at? i = some σ') (s : Session κ) :
    (∃ n ending, σ' = .alone ⟨n, .finished ending⟩) ∨
      ∃ j move σ'' s', i ≤ j ∧ Step j move σ s σ'' s' := by
  cases i with
  | zero =>
      rw [at?_zero] at hi
      cases hi
      rcases h.progress s with ⟨n, p, rfl, hp⟩ | ⟨j, move, σ'', s', hstep⟩
      · obtain ⟨_, hworking | ⟨ending, _, hfinished⟩⟩ := hu
        · exact absurd hp (Phase.not_passive_of_working hworking)
        · obtain rfl : p = .finished ending := hfinished
          exact Or.inl ⟨n, ending, rfl⟩
      · exact Or.inr ⟨j, move, σ'', s', Nat.zero_le j, hstep⟩
  | succ i =>
      cases σ with
      | alone t => cases hi
      | calling t name ch callee => exact h.progress_below hi s

/-! ### What callers may rely on -/

/-- What holds of every call while its caller waits: the caller has had one answer or none, and had
it if it listens no longer; the subroutine has sent one signal or none; and there is room for a
signal that is about to be sent. -/
structure Exchange (t : Thread) (ch : Channel) (callee : Thread) : Prop where
  sent : ch.sent ≤ 1
  answers : t.phase = .receiving ∧ ch.answers = 0 ∨
    ∃ answer, t.phase = .joining answer ∧ ch.answers = 1 ∧ ch.slot = none ∧
      ch.sent = signalCount answer ∧ (answer = none → ch.connected = false)
  room : ∀ signal next, callee.phase = .sending signal next →
    ch.slot = none ∧ ch.sent = 0 ∧ ch.connected = true

theorem signalCount_le (answer : Option Signal) : signalCount answer ≤ 1 := by
  cases answer with
  | none => exact Nat.zero_le 1
  | some signal => exact Nat.le_refl 1

theorem exchange_of_link {t callee : Thread} {ch : Channel} (h : Link t.phase ch callee) :
    Exchange t ch callee := by
  obtain ⟨m, p⟩ := t
  cases h with
  | working _ hq =>
      refine ⟨Nat.zero_le 1, Or.inl ⟨rfl, rfl⟩, ?_⟩
      exact fun _ _ _ => ⟨rfl, rfl, rfl⟩
  | sending _ _ _ => exact ⟨Nat.zero_le 1, Or.inl ⟨rfl, rfl⟩, fun _ _ _ => ⟨rfl, rfl, rfl⟩⟩
  | silent _ _ _ => exact ⟨Nat.zero_le 1, Or.inl ⟨rfl, rfl⟩, fun _ _ _ => ⟨rfl, rfl, rfl⟩⟩
  | sent _ _ _ => exact ⟨Nat.le_refl 1, Or.inl ⟨rfl, rfl⟩, nofun⟩
  | heard _ _ _ => exact ⟨Nat.le_refl 1, Or.inr ⟨_, rfl, rfl, rfl, rfl, nofun⟩, nofun⟩
  | left _ hq =>
      refine ⟨signalCount_le _, Or.inl ⟨rfl, rfl⟩, ?_⟩
      cases hq <;> exact nofun
  | answered _ hq =>
      refine ⟨signalCount_le _, Or.inr ⟨_, rfl, rfl, rfl, rfl, fun _ => rfl⟩, ?_⟩
      cases hq <;> exact nofun

omit [Console κ] in
theorem Sound.exchange {σ callee : Threads} {i : Nat} {t : Thread} {name : String}
    {ch : Channel} (h : σ.Sound) (hi : σ.at? i = some (Threads.calling t name ch callee)) :
    Exchange t ch callee.head := by
  cases h.at? hi with
  | calling _ link _ _ => exact exchange_of_link link

/-! ### Reachable threads -/

theorem Steps.sound {allowed : Nat → Move → Prop} {σ σ' : Threads} {s s' : Session κ}
    (h : Steps allowed σ s σ' s') (hσ : σ.Sound) (hu : σ.head.Unawaited) :
    σ'.Sound ∧ σ'.head.Unawaited :=
  h.keeps (P := fun σ _ => σ.Sound ∧ σ.head.Unawaited)
    (fun _ _ _ _ _ _ hs _ ⟨hσ, hu⟩ => ⟨hs.sound hσ, (hs.onward hσ).unawaited hu⟩) ⟨hσ, hu⟩

/-- **Whatever the order of the steps, all calls of a chain are in positions of the handshake**, and
nobody waits for the outermost thread. -/
theorem Reachable.sound {m : Machine} {s₀ s : Session κ} {σ : Threads} (h : Reachable m s₀ σ s)
    (hm : m.Tidy) (ha : m.awaited = false) : σ.Sound ∧ σ.head.Unawaited := by
  cases h with
  | run h =>
      refine h.sound (.alone ?_ id) ⟨ha, Or.inl trivial⟩
      exact Thread.fit_of_tidy hm nofun nofun
  | dispatch mnemonic operand h =>
      refine h.sound (.alone ⟨hm, ?_, nofun⟩ id) ⟨ha, Or.inl trivial⟩
      intro rest hrest
      cases hrest
      exact m.execute_outcome mnemonic operand

end Threads

end AccMachine
