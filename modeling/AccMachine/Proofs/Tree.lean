/-
**The tree below a machine.**

A machine owns the subroutines it declared, these own theirs, and so on.  A path of names leads
from a machine to one of the machines in its tree.  The tree of a machine that is not in the
middle of a call is tidy: every subroutine bears the name it is known by as the reference of its
program, it names the program of its owner as its parent, and nobody waits for it.

Main definitions:

* `Machine.at?` — the machine that a path leads to;
* `Machine.DeclaredBy` — a subroutine fits to its owner and its name;
* `Machine.Tidy`, `Machine.Rooted` — a tidy tree, and a tidy tree whose top is a root;
* `Machine.hold`, `Machine.released` — a machine with a subroutine put back in its place, and a
  machine that nobody waits for.

Main results:

* `Machine.Tidy.of_at?` — **every machine in a tidy tree fits to its owner**;
* `Machine.Tidy.hold`, `Machine.LineEffect.tidy` — what keeps a tree tidy.
-/

import AccMachine.Proofs.LineEffect

set_option relaxedAutoImplicit false
set_option autoImplicit false

namespace AccMachine

namespace Machine

/-! ### Paths -/

/-- The machine that a path of names leads to. -/
def at? (m : Machine) : List String → Option Machine
  | [] => some m
  | name :: path =>
      match m.subroutines.find? name with
      | none => none
      | some child => child.at? path

@[simp] theorem at?_nil (m : Machine) : m.at? [] = some m := rfl

theorem at?_cons {m child : Machine} {name : String} (h : m.subroutines.find? name = some child)
    (path : List String) : m.at? (name :: path) = child.at? path := by
  simp only [at?, h]

/-- Below the top, only the subroutines of a machine matter. -/
theorem at?_congr {m n : Machine} (h : m.subroutines = n.subroutines) {path : List String}
    (hp : path ≠ []) : m.at? path = n.at? path := by
  cases path with
  | nil => exact absurd rfl hp
  | cons name path => simp only [at?, h]

theorem at?_append {m n : Machine} {path : List String} (h : m.at? path = some n)
    (path' : List String) : m.at? (path ++ path') = n.at? path' := by
  induction path generalizing m with
  | nil =>
      cases h
      rfl
  | cons name path ih =>
      simp only [at?, List.cons_append] at h ⊢
      split at h
      · cases h
      · exact ih h

/-! ### Tidy trees -/

/-- The machine fits to the owner that knows it by that name. -/
structure DeclaredBy (m owner : Machine) (name : String) : Prop where
  reference : m.program.reference = name
  parent : m.parent = some owner.program.reference

/-- Below the machine, every subroutine fits to its owner, and nobody waits for any of them. -/
inductive Tidy : Machine → Prop
  | intro {m : Machine}
      (declared : ∀ name child, m.subroutines.find? name = some child → child.DeclaredBy m name)
      (settled : ∀ name child, m.subroutines.find? name = some child → child.awaited = false)
      (below : ∀ name child, m.subroutines.find? name = some child → Tidy child) : Tidy m

/-- A root that is not in the middle of a call. -/
structure Rooted (m : Machine) : Prop where
  tidy : m.Tidy
  parent : m.parent = none
  awaited : m.awaited = false

theorem Tidy.declared {m child : Machine} {name : String} (h : m.Tidy)
    (hc : m.subroutines.find? name = some child) : child.DeclaredBy m name := by
  cases h with
  | intro declared _ _ => exact declared name child hc

theorem Tidy.settled {m child : Machine} {name : String} (h : m.Tidy)
    (hc : m.subroutines.find? name = some child) : child.awaited = false := by
  cases h with
  | intro _ settled _ => exact settled name child hc

theorem Tidy.of_child {m child : Machine} {name : String} (h : m.Tidy)
    (hc : m.subroutines.find? name = some child) : child.Tidy := by
  cases h with
  | intro _ _ below => exact below name child hc

/-- Whether a tree is tidy does not depend on the state of the machine at its top. -/
theorem Tidy.congr {m n : Machine} (h : m.Tidy) (hs : n.subroutines = m.subroutines)
    (hr : n.program.reference = m.program.reference) : n.Tidy := by
  refine Tidy.intro ?_ ?_ ?_
  · intro name child hc
    rw [hs] at hc
    have hd := h.declared hc
    exact ⟨hd.reference, by rw [hd.parent, hr]⟩
  · intro name child hc
    exact h.settled (hs ▸ hc)
  · intro name child hc
    exact h.of_child (hs ▸ hc)

/-- A machine in a tidy tree has a tidy tree. -/
theorem Tidy.at? {m n : Machine} {path : List String} (h : m.Tidy) (hn : m.at? path = some n) :
    n.Tidy := by
  induction path generalizing m with
  | nil =>
      cases hn
      exact h
  | cons name path ih =>
      simp only [Machine.at?] at hn
      split at hn
      · cases hn
      · next child hc => exact ih (h.of_child hc) hn

/-- **Every machine in a tidy tree fits to its owner**, and nobody waits for it. -/
theorem Tidy.of_at? {m owner child : Machine} {path : List String} {name : String} (h : m.Tidy)
    (ho : m.at? path = some owner) (hc : owner.subroutines.find? name = some child) :
    child.DeclaredBy owner name ∧ child.awaited = false :=
  ⟨(h.at? ho).declared hc, (h.at? ho).settled hc⟩

/-- Nobody waits for a machine below the top of a tidy tree. -/
theorem Tidy.awaited_at? {m n : Machine} {name : String} {path : List String} (h : m.Tidy)
    (hn : m.at? (name :: path) = some n) : n.awaited = false := by
  induction path generalizing m name with
  | nil =>
      simp only [Machine.at?] at hn
      split at hn
      · cases hn
      · next child hc =>
          cases hn
          exact h.settled hc
  | cons name' path ih =>
      rw [Machine.at?] at hn
      split at hn
      · cases hn
      · next child hc => exact ih (h.of_child hc) hn

theorem tidy_of_empty {m : Machine} (h : m.subroutines = Table.empty) : m.Tidy := by
  refine Tidy.intro ?_ ?_ ?_ <;>
    · intro name child hc
      rw [h, Table.find?_empty] at hc
      cases hc

theorem tidy_ofProgram (program : Program) : (ofProgram program).Tidy := tidy_of_empty rfl

theorem rooted_ofProgram (program : Program) : (ofProgram program).Rooted :=
  ⟨tidy_ofProgram program, rfl, rfl⟩

/-! ### Putting a subroutine in its place -/

/-- The machine with a subroutine put in its place, whether or not anybody waits for it. -/
def hold (m : Machine) (name : String) (callee : Machine) : Machine :=
  { m with subroutines := m.subroutines.put name callee }

/-- The machine when nobody waits for it. -/
def released (m : Machine) : Machine := { m with awaited := false }

theorem released_of_awaited {m : Machine} (h : m.awaited = false) : m.released = m := by
  cases m
  cases h
  rfl

/-- Below the top it makes no difference whether anybody waits for a machine. -/
theorem at?_released (m : Machine) {path : List String} (hp : path ≠ []) :
    m.released.at? path = m.at? path := by
  have hsubroutines : m.released.subroutines = m.subroutines := rfl
  exact at?_congr hsubroutines hp

theorem Tidy.released {m : Machine} (h : m.Tidy) : m.released.Tidy := h.congr rfl rfl

theorem Tidy.invoked {m : Machine} (h : m.Tidy) (accumulator : Int64) :
    (m.invoked accumulator).Tidy := h.congr rfl rfl

theorem at?_hold_self (m : Machine) (name : String) (callee : Machine) (path : List String) :
    (m.hold name callee).at? (name :: path) = callee.at? path :=
  at?_cons (Table.find?_put_self _ _ _) path

theorem at?_hold_of_ne (m : Machine) {name name' : String} (h : name ≠ name') (callee : Machine)
    (path : List String) : (m.hold name callee).at? (name' :: path) = m.at? (name' :: path) := by
  simp only [Machine.at?, hold, Table.find?_put_of_ne _ h]

/-- A tree stays tidy when a tidy subroutine that fits is put in its place. -/
theorem Tidy.hold {m callee : Machine} {name : String} (h : m.Tidy) (hc : callee.Tidy)
    (hd : callee.DeclaredBy m name) (ha : callee.awaited = false) : (m.hold name callee).Tidy := by
  -- A subroutine that is found afterwards is the new one, or was there before.
  have hfind : ∀ name' child, (m.hold name callee).subroutines.find? name' = some child →
      (name = name' ∧ child = callee) ∨ m.subroutines.find? name' = some child := by
    intro name' child hf
    rw [Machine.hold, Table.find?_put] at hf
    split at hf
    · next hn => exact Or.inl ⟨hn, (Option.some.inj hf).symm⟩
    · exact Or.inr hf
  refine Tidy.intro ?_ ?_ ?_
  · intro name' child hf
    rcases hfind name' child hf with ⟨rfl, rfl⟩ | hf
    · exact ⟨hd.reference, hd.parent⟩
    · exact ⟨(h.declared hf).reference, (h.declared hf).parent⟩
  · intro name' child hf
    rcases hfind name' child hf with ⟨rfl, rfl⟩ | hf
    · exact ha
    · exact h.settled hf
  · intro name' child hf
    rcases hfind name' child hf with ⟨rfl, rfl⟩ | hf
    · exact hc
    · exact h.of_child hf

theorem Tidy.adopt {m callee : Machine} {name : String} (h : m.Tidy) (hc : callee.Tidy)
    (hd : callee.DeclaredBy m name) : (m.adopt name callee).Tidy :=
  h.hold hc.released ⟨hd.reference, hd.parent⟩ rfl

theorem subroutine_declaredBy (m : Machine) {program : Program} {name : String}
    (h : program.reference = name) : (m.subroutine program).DeclaredBy m name := ⟨h, rfl⟩

theorem DeclaredBy.invoked {m owner : Machine} {name : String} (h : m.DeclaredBy owner name)
    (accumulator : Int64) : (m.invoked accumulator).DeclaredBy owner name :=
  ⟨h.reference, h.parent⟩

theorem DeclaredBy.not_isRoot {m owner : Machine} {name : String} (h : m.DeclaredBy owner name) :
    m.isRoot = false := by
  rw [isRoot, h.parent]
  rfl

theorem DeclaredBy.of_kept {m m' owner : Machine} {name : String} (h : m.DeclaredBy owner name)
    (hk : m'.program = m.program ∧ m'.parent = m.parent ∧ m'.pc = m.pc) :
    m'.DeclaredBy owner name :=
  ⟨by rw [hk.1]; exact h.reference, by rw [hk.2.1]; exact h.parent⟩

/-! ### What a machine keeps while it runs -/

/-- Where a machine stands in the tree above it, and whether somebody there waits for it. -/
structure Post where
  parent : Option String
  reference : String
  awaited : Bool

/-- The post of a machine. -/
def post (m : Machine) : Post := ⟨m.parent, m.program.reference, m.awaited⟩

/-- A line that does not return keeps the post of the machine. -/
theorem LineEffect.post {m m' : Machine} {text : String} {flow : Flow}
    (h : LineEffect m text m' flow) (hf : flow ≠ .ret) : m'.post = m.post := by
  obtain ⟨hprogram, hparent, -⟩ := h.kept
  simp only [Machine.post, hprogram, hparent, h.awaited hf]

/-! ### Lines keep the tree tidy -/

theorem Effect.tidy {m m' : Machine} {operand : String} {mnemonic : Mnemonic} {flow : Flow}
    (h : Effect m operand mnemonic m' flow) (hm : m.Tidy) : m'.Tidy := by
  cases h with
  | compute _ value _ => exact hm.congr rfl rfl
  | store => exact hm.congr rfl rfl
  | jump _ _ _ => exact hm
  | declare program hp =>
      exact hm.hold (tidy_of_empty rfl) (m.subroutine_declaredBy hp) rfl
  | call _ => exact hm
  | ret _ => exact hm.released
  | halt => exact hm

theorem LineEffect.tidy {m m' : Machine} {text : String} {flow : Flow}
    (h : LineEffect m text m' flow) (hm : m.Tidy) : m'.Tidy := by
  cases h with
  | pass _ => exact hm
  | obey _ _ he => exact he.tidy hm

end Machine

end AccMachine
