/-
**The tree of a root, at rest and in the middle of a run.**

Whoever owns a root may run it, execute single instructions on it, and change its accumulator, its
program counter, its storage and its session.  Whatever comes of that, the tree of the root is
sound: every subroutine fits to its owner and every label leads to a line.  Between two operations
nobody waits for any machine of the tree.  In the middle of a run the callers wait for exactly the
machines that lie on the path of calls; there the tree is the one in which every caller holds the
machine that it called.

Main definitions:

* `Machine.Operation`, `Machine.Obtained` — one operation on a root, and the roots that operations
  lead to;
* `Machine.Sound` — the tree is sound, and exactly the machines on a path are awaited;
* `Chain.whole` — the tree in the middle of a run;
* `Machine.Moment` — the chains that an operation comes through.

Main results:

* `Machine.Operation.rooted` — an operation leaves a root that nobody waits for, with a tidy tree;
* `Chain.Fits.whole_sound` — **the tree in the middle of a run is sound**;
* `Machine.Obtained.tree_sound` — **the tree of a root is sound at every moment**, so its runs do
  not return, and a return inside a call does not fail.
-/

import AccMachine.Proofs.CallChain

set_option relaxedAutoImplicit false
set_option autoImplicit false

namespace AccMachine

/-! ### Sound trees -/

/-- The tree below a root is sound, and its machines that are awaited are exactly those on the
path. -/
structure Machine.Sound (m : Machine) (path : List String) : Prop where
  parent : m.parent = none
  linked : ∀ p owner, m.at? p = some owner → ∀ name child,
    owner.subroutines.find? name = some child → child.DeclaredBy owner name
  labels : ∀ p n, m.at? p = some n → ∀ label i, n.program.label? label = some i →
    i < n.program.size
  awaited : ∀ p n, m.at? p = some n → (n.awaited = true ↔ p ≠ [] ∧ p <+: path)

namespace Chain

/-! ### The tree in the middle of a run -/

/-- The outermost caller, with every caller holding the machine that it called. -/
def whole (m : Machine) : List Frame → Machine
  | [] => m
  | f :: callers => whole (f.caller.hold f.callee m) callers

theorem whole_append (m : Machine) (inner outer : List Frame) :
    whole m (inner ++ outer) = whole (whole m inner) outer := by
  induction inner generalizing m with
  | nil => rfl
  | cons f inner ih => exact ih _

/-- The path of calls leads to the active machine. -/
theorem at?_whole (m : Machine) (callers : List Frame) (p : List String) :
    (whole m callers).at? (pathOf callers ++ p) = m.at? p := by
  induction callers generalizing m p with
  | nil => rfl
  | cons f callers ih =>
      rw [whole, pathOf_cons, List.append_assoc, ih]
      exact Machine.at?_hold_self _ _ _ _

/-- Below the machine every subroutine fits to its owner, and exactly those on the path are
awaited. -/
structure Threaded (m : Machine) (path : List String) : Prop where
  linked : ∀ p owner, m.at? p = some owner → ∀ name child,
    owner.subroutines.find? name = some child → child.DeclaredBy owner name
  awaited : ∀ p n, m.at? p = some n → p ≠ [] → (n.awaited = true ↔ p <+: path)

theorem threaded_of_tidy {m : Machine} (h : m.Tidy) : Threaded m [] := by
  refine ⟨fun p owner ho name child hc => (h.of_at? ho hc).1, ?_⟩
  intro p n hn hp
  obtain ⟨name, p, rfl⟩ := List.exists_cons_of_ne_nil hp
  rw [h.awaited_at? hn]
  simp

/-- A caller that holds an awaited subroutine puts the path one call further out. -/
theorem Threaded.hold {m caller : Machine} {name : String} {path : List String}
    (h : Threaded m path) (hcaller : caller.Tidy) (hd : m.DeclaredBy caller name)
    (ha : m.awaited = true) : Threaded (caller.hold name m) (name :: path) := by
  constructor
  · intro p owner ho name' child hc
    cases p with
    | nil =>
        cases ho
        rw [Machine.hold, Table.find?_put] at hc
        split at hc
        · next hname =>
            cases hc
            exact ⟨hd.reference.trans hname, hd.parent⟩
        · have hchild := hcaller.declared hc
          exact ⟨hchild.reference, hchild.parent⟩
    | cons first p =>
        -- The path leads into the subroutine that is held, or past it.
        by_cases hfirst : name = first
        · subst hfirst
          rw [Machine.at?_hold_self] at ho
          exact h.linked p owner ho name' child hc
        · rw [Machine.at?_hold_of_ne _ hfirst] at ho
          exact (hcaller.of_at? ho hc).1
  · intro p n hn hp
    obtain ⟨first, p, rfl⟩ := List.exists_cons_of_ne_nil hp
    rw [List.cons_prefix_cons]
    by_cases hfirst : name = first
    · subst hfirst
      rw [Machine.at?_hold_self] at hn
      cases p with
      | nil =>
          cases hn
          simp [ha]
      | cons second p =>
          rw [h.awaited _ n hn (List.cons_ne_nil _ _)]
          simp
    · rw [Machine.at?_hold_of_ne _ hfirst] at hn
      rw [hcaller.awaited_at? hn]
      simp [Ne.symm hfirst]

/-- The whole tree keeps the path that is threaded below the active machine, and its top is the
outermost machine. -/
theorem Fits.threaded_whole {post : Machine.Post} {n m : Machine} {callers : List Frame}
    {path : List String} (hfits : Fits post n callers) (hpost : m.post = n.post)
    (h : Threaded m path) :
    Threaded (whole m callers) (pathOf callers ++ path) ∧
      (whole m callers).post = post := by
  induction hfits generalizing m path with
  | outermost tidy hp => exact ⟨h, hpost.trans hp⟩
  | @called n f callers tidy declared awaited below ih =>
      simp only [Machine.post, Machine.Post.mk.injEq] at hpost
      obtain ⟨hparent, hreference, hawaited⟩ := hpost
      have hd : m.DeclaredBy f.caller f.callee :=
        ⟨hreference.trans declared.reference, hparent.trans declared.parent⟩
      -- From the place of the caller, the path has the name of the subroutine in front.
      rw [whole, pathOf_cons, List.append_assoc]
      exact ih (m := f.caller.hold f.callee m) rfl
        (h.hold below.tidy hd (hawaited.trans awaited))

/-- **The tree in the middle of a run is sound**, and the machines that are awaited in it are those
on the path of calls. -/
theorem Fits.whole_sound {reference : String} {c : Chain}
    (h : Fits ⟨none, reference, false⟩ c.active c.callers) :
    (whole c.active c.callers).Sound (pathOf c.callers) := by
  obtain ⟨hthreaded, hpost⟩ := h.threaded_whole rfl (threaded_of_tidy h.tidy)
  simp only [Machine.post, Machine.Post.mk.injEq] at hpost
  obtain ⟨hparent, -, hawaited⟩ := hpost
  rw [List.append_nil] at hthreaded
  refine ⟨hparent, hthreaded.linked, fun _ _ _ _ _ hi => Program.label?_lt hi, ?_⟩
  intro p n hn
  by_cases hp : p = []
  · subst hp
    cases hn
    simp [hawaited]
  · rw [hthreaded.awaited p n hn hp]
    simp [hp]

end Chain

namespace Machine

theorem Rooted.sound {m : Machine} (h : m.Rooted) : m.Sound [] :=
  Chain.Fits.whole_sound (c := ⟨m, []⟩) (.outermost h.tidy h.post)

section

variable {κ : Type} [Console κ]

/-! ### Operations on a root -/

/-- `Operation m s m' s'`: an operation takes the root `m` in the session `s` to `m'` and `s'`.  The
session may change in any way, as when a text is added to its shelf. -/
inductive Operation (m : Machine) (s : Session κ) : Machine → Session κ → Prop
  | run {fuel : Nat} {ending : Ending} {m' : Machine} {s' : Session κ}
      (h : m.run fuel s = some (ending, m', s')) : Operation m s m' s'
  | dispatch {fuel : Nat} {mnemonic : Mnemonic} {operand : String}
      {result : Except Failure Flow} {m' : Machine} {s' : Session κ}
      (h : m.dispatch fuel s mnemonic operand = some (result, m', s')) : Operation m s m' s'
  | accumulate (value : Int64) : Operation m s (m.accumulate value) s
  | goto (i : Nat) : Operation m s (m.goto i) s
  | store (storage : Table Int64) : Operation m s { m with storage := storage } s
  | session (s' : Session κ) : Operation m s m s'

/-- The roots that operations lead to from a fresh or a loaded one, with their sessions. -/
inductive Obtained : Machine → Session κ → Prop
  | fresh (program : Program) (s : Session κ) : Obtained (ofProgram program) s
  | loaded {s s' : Session κ} {reference : String} {m : Machine}
      (h : s.loadMachine reference = (.ok m, s')) : Obtained m s'
  | operation {m m' : Machine} {s s' : Session κ} (h : Obtained m s)
      (ho : Operation m s m' s') : Obtained m' s'

/-- The chains that a run of the machine, or a single call by it, comes through. -/
inductive Moment (m : Machine) (s : Session κ) : Chain → Prop
  | run {c : Chain} {s' : Session κ} (h : Chain.Reaches (Chain.start m) s c s') : Moment m s c
  | dispatch {name : String} {child : Machine} {c : Chain} {s' : Session κ}
      (hc : m.subroutines.find? name = some child)
      (h : Chain.Reaches (Chain.start (child.invoked m.accumulator))
        (s.note (.invoking name m.accumulator)) c s') :
      Moment m s (c.onTopOf [⟨m, name⟩])

/-- At every moment the machines of the chain fit to one another. -/
theorem Moment.fits {m : Machine} {s : Session κ} {c : Chain} (h : Moment m s c) (hm : m.Tidy) :
    Chain.Fits m.post c.active c.callers := by
  cases h with
  | run h => exact h.fits hm.fits_start
  | @dispatch name child c s' hc h =>
      have hcall : Chain.Fits m.post (child.invoked m.accumulator) [⟨m, name⟩] :=
        .called ((hm.of_child hc).invoked _) ((hm.declared hc).invoked _) rfl (.outermost hm rfl)
      exact (h.onTopOf [⟨m, name⟩]).fits hcall

/-! ### What operations keep -/

/-- A run leaves the machine with a tidy tree, where it was; if nobody waited for it, it does not
return. -/
theorem run_tidy {m m' : Machine} (hm : m.Tidy) {fuel : Nat} {s s' : Session κ} {ending : Ending}
    (h : m.run fuel s = some (ending, m', s')) :
    m'.Tidy ∧ m'.parent = m.parent ∧ m'.program.reference = m.program.reference ∧
      (m.awaited = false → m'.awaited = false ∧ ending ≠ .returned) := by
  obtain ⟨c, s₁, ending', s₂, hreach, hstep, hclose⟩ := run_eq_some_iff.1 ⟨fuel, h⟩
  obtain ⟨htidy, hparent, hreference, hawaited⟩ :=
    (Chain.stop_of_step hstep).fits (hreach.fits hm.fits_start)
  refine ⟨htidy, hparent, hreference, fun ha => ⟨(hawaited ha).1, ?_⟩⟩
  -- Writing the sheet may turn a halt into a failure, but nothing into a return.
  intro hreturned
  have hne := (hawaited ha).2
  cases ending' with
  | halted =>
      simp only [close] at hclose
      split at hclose
      · split at hclose <;> cases hclose <;> cases hreturned
      · cases hclose
        cases hreturned
  | returned => exact hne rfl
  | finished | failed _ =>
      cases hclose
      cases hreturned

/-- A caller that takes its subroutine back after a run keeps a tidy tree. -/
theorem conclude_tidy {caller callee : Machine} {name : String} (h : caller.Tidy)
    (hc : callee.Tidy) (hd : callee.DeclaredBy caller name) (ending : Ending) :
    (caller.conclude name callee ending).1.Tidy ∧
      (caller.conclude name callee ending).1.post = caller.post := by
  cases ending <;> exact ⟨(h.adopt hc hd).congr rfl rfl, rfl⟩

/-- A single instruction keeps a root a root with a tidy tree. -/
theorem dispatch_rooted {m m' : Machine} (hm : m.Rooted) {fuel : Nat} {s s' : Session κ}
    {mnemonic : Mnemonic} {operand : String} {result : Except Failure Flow}
    (h : m.dispatch fuel s mnemonic operand = some (result, m', s')) : m'.Rooted := by
  rw [dispatch_def] at h
  split at h
  · cases h
    exact hm
  · next m₁ name callee s₁ hp =>
      have heffect : Effect m operand mnemonic m₁ (.call name callee) :=
        Session.perform_yields (m.execute_yields mnemonic operand) hp
      cases heffect with
      | @call child hc =>
          split at h
          · cases h
          · next ending callee' s₂ hr =>
              cases h
              obtain ⟨htidy, hparent, hreference, -⟩ :=
                run_tidy ((hm.tidy.of_child hc).invoked _) hr
              have hchild := hm.tidy.declared hc
              have hd : callee'.DeclaredBy m operand :=
                ⟨hreference.trans hchild.reference, hparent.trans hchild.parent⟩
              obtain ⟨hkept, hpost⟩ := conclude_tidy hm.tidy htidy hd ending
              simp only [Machine.post, Post.mk.injEq] at hpost
              exact ⟨hkept, hpost.1.trans hm.parent, hpost.2.2.trans hm.awaited⟩
  · next m₁ flow s₁ hcall hp =>
      cases h
      have heffect : Effect m operand mnemonic m' flow :=
        Session.perform_yields (m.execute_yields mnemonic operand) hp
      have hflow : flow ≠ .ret := by
        rintro rfl
        cases heffect with
        | ret ha =>
            rw [hm.awaited] at ha
            cases ha
      exact ⟨heffect.tidy hm.tidy, heffect.kept.2.1.trans hm.parent,
        (heffect.awaited hflow).trans hm.awaited⟩

/-- **An operation leaves a root that nobody waits for**, with a tidy tree. -/
theorem Operation.rooted {m m' : Machine} {s s' : Session κ} (h : Operation m s m' s')
    (hm : m.Rooted) : m'.Rooted := by
  cases h with
  | run h =>
      obtain ⟨htidy, hparent, -, hawaited⟩ := run_tidy hm.tidy h
      exact ⟨htidy, hparent.trans hm.parent, (hawaited hm.awaited).1⟩
  | dispatch h => exact dispatch_rooted hm h
  | accumulate value => exact ⟨hm.tidy.congr rfl rfl, hm.parent, hm.awaited⟩
  | goto i => exact ⟨hm.tidy.congr rfl rfl, hm.parent, hm.awaited⟩
  | store storage => exact ⟨hm.tidy.congr rfl rfl, hm.parent, hm.awaited⟩
  | session s' => exact hm

/-- Every root that operations lead to has a tidy tree, and nobody waits for it. -/
theorem Obtained.rooted {m : Machine} {s : Session κ} (h : Obtained m s) : m.Rooted := by
  induction h with
  | fresh program s => exact rooted_ofProgram program
  | loaded h =>
      unfold Session.loadMachine at h
      split at h
      · cases h
      · cases h
        exact rooted_ofProgram _
  | operation _ ho ih => exact ho.rooted ih

/-! ### Returns -/

/-- A return on a root that nobody waits for is refused, and changes nothing. -/
theorem dispatch_ret {m : Machine} (h : m.awaited = false) (fuel : Nat) (s : Session κ)
    (operand : String) :
    m.dispatch fuel s .ret operand = some (.error ⟨[], .returnOutsideSubroutine⟩, m, s) := by
  simp only [dispatch_def, execute_def, returnToCaller_def, h, Bool.false_eq_true, if_false,
    Session.perform]

/-- A return of a machine that is waited for succeeds. -/
theorem perform_ret {m : Machine} (h : m.awaited = true) (s : Session κ) (operand : String) :
    s.perform (m.execute .ret operand) = (.ok (m.released, .ret), s) := by
  simp only [execute_def, returnToCaller_def, h, if_true, Session.perform, released]

/-! ### The invariant -/

/-- **The tree of a root is sound at every moment.**  It is sound between operations, when no
machine of it is awaited, and at every moment of a run or a call, when exactly the machines on the
path of calls below the root are.  So a run of the root never returns, a return dispatched on it is
refused, and a return inside a call succeeds. -/
theorem Obtained.tree_sound {m : Machine} {s : Session κ} (h : Obtained m s) :
    m.Sound [] ∧
      (∀ c, Moment m s c → (Chain.whole c.active c.callers).Sound (Chain.pathOf c.callers) ∧
        (Chain.whole c.active c.callers).at? (Chain.pathOf c.callers) = some c.active ∧
        (c.callers ≠ [] → ∀ (s' : Session κ) (operand : String),
          s'.perform (c.active.execute .ret operand) = (.ok (c.active.released, .ret), s'))) ∧
      (∀ fuel m' s', m.run fuel s ≠ some (.returned, m', s')) ∧
      ∀ fuel operand, m.dispatch fuel s .ret operand =
        some (.error ⟨[], .returnOutsideSubroutine⟩, m, s) := by
  have hm := h.rooted
  refine ⟨hm.sound, ?_, ?_, fun fuel operand => dispatch_ret hm.awaited fuel s operand⟩
  · intro c hmoment
    have hfits := hmoment.fits hm.tidy
    refine ⟨?_, ?_, ?_⟩
    · rw [hm.post] at hfits
      exact hfits.whole_sound
    · have hat := Chain.at?_whole c.active c.callers []
      rwa [List.append_nil] at hat
    · intro hcallers s' operand
      obtain ⟨f, callers, hf⟩ := List.exists_cons_of_ne_nil hcallers
      rw [hf] at hfits
      cases hfits with
      | called _ _ awaited _ => exact perform_ret awaited s' operand
  · intro fuel m' s' hrun
    exact ((run_tidy hm.tidy hrun).2.2.2 hm.awaited).2 rfl

end

/-- The tree of a root whose subroutine ran out of lines is sound after the run, and the root does
not return. -/
theorem Obtained.tree_sound_lost :
    ∃ (m : Machine) (s : Session Buffer), Obtained m s ∧
      (m.at? ["leaf"]).map Machine.accumulator = some 1 ∧ m.Sound [] ∧
      m.dispatch 0 s .ret "" = some (.error ⟨[], .returnOutsideSubroutine⟩, m, s) := by
  have hrun : (((ofProgram (.ofLines "root" ["INC leaf", "RUN leaf"])).run 8
      (.inMemory [("leaf", "ADD 1")] [])).bind
        fun answer => (answer.2.1.at? ["leaf"]).map Machine.accumulator) = some 1 := by
    decide +kernel
  obtain ⟨⟨ending, m', s'⟩, h, hleaf⟩ := Option.bind_eq_some_iff.1 hrun
  have hobtained : Obtained m' s' := (Obtained.fresh _ _).operation (.run h)
  obtain ⟨hsound, -, -, hret⟩ := Obtained.tree_sound hobtained
  exact ⟨m', s', hobtained, hleaf, hsound, hret 0 ""⟩

end Machine

end AccMachine
