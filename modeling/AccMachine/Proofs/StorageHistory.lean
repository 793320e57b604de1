/-
**Storage is what was stored.**

Every machine has a storage of its own.  An entry of it is the accumulator that this machine had
when it last stored the slot, or the entry that was there before the run; a machine that was
declared during the run began without entries.  Nothing else writes to a storage: neither another
instruction, nor the run of a caller or of a subroutine, nor a line that fails.  A declaration makes
the tree below its place anew, and that is the only way in which storages come and go.

Main definitions:

* `Machine.storageAt?`, `Machine.entryAt?` — the storage of the machine at a path, and an entry;
* `Machine.SameStores` — two trees have the same storages in the same places;
* `Deed.leaves` — what a deed leaves of the storage at a path;
* `Deed.Renews`, `sinceMade`, `entryAfter` — what the deeds of a run say about an entry.

Main results:

* `Chain.Move.leaves` — **a step changes the storages as its deed says**;
* `Chain.Stop.sameStores` — a step that ends the run changes no storage;
* `Chain.Passes.entryAt?_whole` — **an entry is what the history tells**;
* `Machine.run_storage` — **the storages of a run, at every moment and at its end**.
-/

import AccMachine.Proofs.Deeds
import AccMachine.Proofs.FailureTrail
import AccMachine.Proofs.Sayings
import Mathlib.Data.List.DropRight

set_option relaxedAutoImplicit false
set_option autoImplicit false

namespace AccMachine

/-! ### The storages of a tree -/

namespace Machine

/-- The storage of the machine that a path leads to. -/
def storageAt? (m : Machine) (path : List String) : Option (Table Int64) :=
  (m.at? path).map storage

/-- The entry of a slot in the machine that a path leads to. -/
def entryAt? (m : Machine) (path : List String) (key : String) : Option Int64 :=
  (m.storageAt? path).bind fun storage => storage.find? key

theorem storageAt?_of_at? {m n : Machine} {path : List String} (h : m.at? path = some n) :
    m.storageAt? path = some n.storage := by
  rw [storageAt?, h, Option.map_some]

theorem entryAt?_of_at? {m n : Machine} {path : List String} (h : m.at? path = some n)
    (key : String) : m.entryAt? path key = n.storage.find? key := by
  rw [entryAt?, storageAt?_of_at? h, Option.bind_some]

/-- The trees below two machines have the same storages in the same places. -/
def SameStores (m n : Machine) : Prop := ∀ path, m.storageAt? path = n.storageAt? path

theorem SameStores.trans {m n k : Machine} (h : m.SameStores n) (h' : n.SameStores k) :
    m.SameStores k :=
  fun path => (h path).trans (h' path)

/-- Only the storage of a machine and its subroutines matter. -/
theorem SameStores.of_eq {m n : Machine} (hs : m.storage = n.storage)
    (hc : m.subroutines = n.subroutines) : m.SameStores n := by
  intro path
  cases path with
  | nil => exact congrArg some hs
  | cons name path => rw [storageAt?, storageAt?, at?_congr hc (List.cons_ne_nil _ _)]

/-- A machine may hold either of two subroutines whose trees have the same storages. -/
theorem SameStores.hold {m n : Machine} (h : m.SameStores n) (caller : Machine) (name : String) :
    (caller.hold name m).SameStores (caller.hold name n) := by
  intro path
  cases path with
  | nil => rfl
  | cons first path =>
      by_cases hfirst : name = first
      · subst hfirst
        simpa only [storageAt?, at?_hold_self] using h path
      · simp only [storageAt?, at?_hold_of_ne _ hfirst]

/-- To hold a subroutine with the same storages as the one that was there changes no storage. -/
theorem sameStores_hold {m child child' : Machine} {name : String}
    (hc : m.subroutines.find? name = some child) (h : child'.SameStores child) :
    (m.hold name child').SameStores m := by
  intro path
  cases path with
  | nil => rfl
  | cons first path =>
      by_cases hfirst : name = first
      · subst hfirst
        simpa only [storageAt?, at?_hold_self, at?_cons hc] using h path
      · simp only [storageAt?, at?_hold_of_ne _ hfirst]

end Machine

namespace Chain

theorem sameStores_whole {m n : Machine} (h : m.SameStores n) (callers : List Frame) :
    (whole m callers).SameStores (whole n callers) := by
  induction callers generalizing m n with
  | nil => exact h
  | cons f callers ih => exact ih (h.hold f.caller f.callee)

/-- When all callers take their callees back, no storage changes. -/
theorem sameStores_adoptAll (m : Machine) (callers : List Frame) :
    (adoptAll m callers).SameStores (whole m callers) := by
  induction callers generalizing m with
  | nil => exact fun _ => rfl
  | cons f callers ih =>
      have hreleased : m.released.SameStores m := .of_eq rfl rfl
      exact (ih _).trans (sameStores_whole (hreleased.hold f.caller f.callee) callers)

/-- The path of calls leads to the active machine. -/
theorem at?_whole_active (m : Machine) (callers : List Frame) :
    (whole m callers).at? (pathOf callers) = some m := by
  have hat := at?_whole m callers []
  rwa [List.append_nil] at hat

/-- Away from the path of calls, storages do not depend on the active machine. -/
theorem storageAt?_whole_apart (m n : Machine) {callers : List Frame} {path : List String}
    (h : ¬ pathOf callers <+: path) :
    (whole m callers).storageAt? path = (whole n callers).storageAt? path := by
  induction callers generalizing m n with
  | nil => exact absurd List.nil_prefix h
  | cons f callers ih =>
      by_cases hprefix : pathOf callers <+: path
      · obtain ⟨rest, rfl⟩ := hprefix
        simp only [whole, Machine.storageAt?, at?_whole]
        -- The path leads to the caller, and from there past its callee.
        cases rest with
        | nil => rfl
        | cons first rest =>
            have hfirst : f.callee ≠ first := by
              rintro rfl
              rw [pathOf_cons] at h
              exact h ⟨rest, by simp⟩
            simp only [Machine.at?_hold_of_ne _ hfirst]
      · exact ih _ _ hprefix

end Chain

/-! ### What a deed leaves -/

/-- What a deed leaves of the storage at a path: a declaration puts a machine without entries in its
place and removes what was below, and a machine that stores gives the slot its accumulator. -/
def Deed.leaves (d : Deed) (path : List String) (before : Option (Table Int64)) :
    Option (Table Int64) :=
  match d.declared?, d.stored? with
  | some target, _ =>
      if path = target then some Table.empty else if target <+: path then none else before
  | none, some key =>
      if path = d.path then before.map fun storage => storage.put key d.accumulator else before
  | none, none => before

theorem Deed.leaves_of_none {d : Deed} (hd : d.declared? = none) (hs : d.stored? = none)
    (path : List String) (before : Option (Table Int64)) : d.leaves path before = before := by
  simp only [leaves, hd, hs]

namespace Chain

variable {c : Chain} {text : String}

/-- A line without an instruction neither stores nor declares. -/
theorem deed_of_pass (ht : c.active.currentLine? = some text)
    (hd : Line.decode (Text.wordsOf text) = .ok .blank ∨
      ∃ label, Line.decode (Text.wordsOf text) = .ok (.anchor label)) :
    c.deed.declared? = none ∧ c.deed.stored? = none := by
  rw [Deed.declared?, Deed.stored?, deed_text ht, Line.operandOf?_of_pass hd,
    Line.operandOf?_of_pass hd]
  exact ⟨rfl, rfl⟩

/-- Only two instructions store or declare. -/
theorem deed_of_instruction {i : Instruction} (ht : c.active.currentLine? = some text)
    (hd : Line.decode (Text.wordsOf text) = .ok (.instruction i)) (hs : i.mnemonic ≠ .store)
    (hc : i.mnemonic ≠ .declare) : c.deed.declared? = none ∧ c.deed.stored? = none := by
  rw [Deed.declared?, Deed.stored?, deed_text ht, Line.operandOf?_of_instruction hd,
    Line.operandOf?_of_instruction hd, if_neg hs, if_neg hc]
  exact ⟨rfl, rfl⟩

/-- A line that does not go on to the next one neither stores nor declares. -/
theorem deed_of_flow {m : Machine} {flow : Flow} (ht : c.active.currentLine? = some text)
    (he : c.active.LineEffect text m flow) (hf : flow ≠ .next) :
    c.deed.declared? = none ∧ c.deed.stored? = none := by
  cases he with
  | pass hd => exact absurd rfl hf
  | @obey i operand _ _ hd ho he =>
      refine deed_of_instruction ht hd ?_ ?_
      · rintro hm
        rw [hm] at he
        cases he with
        | compute | store => exact hf rfl
        | jump _ hjump => exact absurd hjump (by decide)
      · rintro hm
        rw [hm] at he
        cases he with
        | compute | declare => exact hf rfl
        | jump _ hjump => exact absurd hjump (by decide)

/-- A deed that neither stores nor declares leaves all storages, if the active machine kept those of
its tree. -/
theorem leaves_of_sameStores (hd : c.deed.declared? = none ∧ c.deed.stored? = none) {m : Machine}
    {callers : List Frame} (h : (whole m callers).SameStores (whole c.active c.callers))
    (path : List String) :
    (whole m callers).storageAt? path =
      c.deed.leaves path ((whole c.active c.callers).storageAt? path) := by
  rw [h path, Deed.leaves_of_none hd.1 hd.2]

/-- A machine that stores changes the entry in its own storage. -/
theorem leaves_of_store {key : String} (hd : c.deed.declared? = none)
    (hs : c.deed.stored? = some key) {m : Machine}
    (hstorage : m.storage = c.active.storage.put key c.active.accumulator)
    (hsubroutines : m.subroutines = c.active.subroutines) (path : List String) :
    (whole m c.callers).storageAt? path =
      c.deed.leaves path ((whole c.active c.callers).storageAt? path) := by
  simp only [Deed.leaves, hd, hs]
  by_cases hprefix : pathOf c.callers <+: path
  · obtain ⟨rest, rfl⟩ := hprefix
    cases rest with
    | nil =>
        rw [List.append_nil, Machine.storageAt?_of_at? (at?_whole_active m _),
          Machine.storageAt?_of_at? (at?_whole_active c.active _), hstorage]
        exact (if_pos rfl).symm
    | cons name rest =>
        have hne : pathOf c.callers ++ name :: rest ≠ c.deed.path := by
          change pathOf c.callers ++ name :: rest ≠ pathOf c.callers
          simp
        rw [if_neg hne, Machine.storageAt?, Machine.storageAt?, at?_whole, at?_whole,
          Machine.at?_congr hsubroutines (List.cons_ne_nil _ _)]
  · have hne : path ≠ c.deed.path := by
      rintro rfl
      exact hprefix List.prefix_rfl
    rw [if_neg hne]
    exact storageAt?_whole_apart _ _ hprefix

/-- A machine that declares a fresh subroutine makes the tree below its place anew. -/
theorem leaves_of_declare {name : String}
    (hd : c.deed.declared? = some (pathOf c.callers ++ [name])) {m n : Machine}
    (hstorage : m.storage = c.active.storage)
    (hsubroutines : m.subroutines = c.active.subroutines.put name n)
    (hfresh : n.storage = Table.empty ∧ n.subroutines = Table.empty) (path : List String) :
    (whole m c.callers).storageAt? path =
      c.deed.leaves path ((whole c.active c.callers).storageAt? path) := by
  have hheld : m.SameStores (c.active.hold name n) := .of_eq hstorage hsubroutines
  rw [sameStores_whole hheld c.callers path]
  simp only [Deed.leaves, hd]
  by_cases hprefix : pathOf c.callers <+: path
  · obtain ⟨rest, rfl⟩ := hprefix
    simp only [Machine.storageAt?, at?_whole, List.append_cancel_left_eq,
      List.prefix_append_right_inj]
    cases rest with
    | nil => simp [Machine.hold]
    | cons first rest =>
        by_cases hfirst : name = first
        · subst hfirst
          rw [Machine.at?_hold_self]
          cases rest with
          | nil => simp [hfresh.1]
          | cons second rest => simp [Machine.at?, hfresh.2]
        · simp [Machine.at?_hold_of_ne _ hfirst, Ne.symm hfirst, hfirst]
  · have hne : path ≠ pathOf c.callers ++ [name] := by
      rintro rfl
      exact hprefix (List.prefix_append _ _)
    have hbeyond : ¬ pathOf c.callers ++ [name] <+: path :=
      fun h => hprefix ((List.prefix_append _ _).trans h)
    rw [if_neg hne, if_neg hbeyond]
    exact storageAt?_whole_apart _ _ hprefix

/-- **A step changes the storages as its deed says**, and in no other way. -/
theorem Move.leaves {c' : Chain} (h : c.Move c') (path : List String) :
    (whole c'.active c'.callers).storageAt? path =
      c.deed.leaves path ((whole c.active c.callers).storageAt? path) := by
  cases h with
  | @next text m ht he =>
      have hadvance : m.advance.SameStores m := .of_eq rfl rfl
      rw [sameStores_whole hadvance c.callers path]
      cases he with
      | pass hd => exact leaves_of_sameStores (deed_of_pass ht hd) (fun _ => rfl) path
      | @obey i operand _ _ hd ho he =>
          obtain ⟨label, mnemonic, operand?⟩ := i
          cases he with
          | compute _ value hm =>
              have hdeed := deed_of_instruction ht hd (by rintro rfl; simp at hm)
                (by rintro rfl; simp at hm)
              have hsame : (c.active.accumulate value).SameStores c.active := .of_eq rfl rfl
              exact leaves_of_sameStores hdeed (sameStores_whole hsame c.callers) path
          | store =>
              obtain rfl : operand? = some operand := by
                rcases ho with ho | ⟨-, ht, -⟩
                · exact ho
                · cases ht
              have hdeclared : c.deed.declared? = none := by
                rw [Deed.declared?, deed_text ht, Line.operandOf?_of_instruction hd]
                rfl
              have hstored : c.deed.stored? = some operand := by
                rw [Deed.stored?, deed_text ht, Line.operandOf?_of_instruction hd]
                rfl
              exact leaves_of_store (m := { c.active with storage := _ }) hdeclared hstored rfl rfl
                path
          | declare program hp =>
              obtain rfl : operand? = some operand := by
                rcases ho with ho | ⟨-, ht, -⟩
                · exact ho
                · cases ht
              have hdeclared : c.deed.declared? = some (pathOf c.callers ++ [operand]) := by
                rw [Deed.declared?, deed_text ht, Line.operandOf?_of_instruction hd]
                rfl
              exact leaves_of_declare (m := { c.active with subroutines := _ })
                (n := c.active.subroutine program) hdeclared rfl rfl ⟨rfl, rfl⟩ path
  | @jump text m target ht he =>
      have hsame : (m.goto target).SameStores c.active := by
        cases he with
        | @obey i _ _ _ _ _ he =>
            obtain ⟨label, mnemonic, operand?⟩ := i
            cases he with
            | jump => exact .of_eq rfl rfl
      exact leaves_of_sameStores (deed_of_flow ht he nofun) (sameStores_whole hsame c.callers) path
  | @call text name child ht hline hc =>
      obtain ⟨text', label, ht', hd⟩ := hline
      have hinvoked : (child.invoked c.active.accumulator).SameStores child := .of_eq rfl rfl
      exact leaves_of_sameStores (deed_of_instruction ht' hd nofun nofun)
        (sameStores_whole (Machine.sameStores_hold hc hinvoked) c.callers) path
  | @ret text m f callers ht he hf =>
      have hreleased : ({ m with awaited := false } : Machine).SameStores c.active := by
        obtain ⟨-, rfl⟩ := he.of_ret
        exact .of_eq rfl rfl
      have hcaller : (((f.caller.adopt f.callee m).accumulate m.accumulator).advance).SameStores
          (f.caller.hold f.callee { m with awaited := false }) := .of_eq rfl rfl
      have hwhole : (whole ((f.caller.adopt f.callee m).accumulate m.accumulator).advance
          callers).SameStores (whole c.active c.callers) := by
        rw [hf]
        exact sameStores_whole (hcaller.trans (hreleased.hold f.caller f.callee)) callers
      exact leaves_of_sameStores (deed_of_flow ht he nofun) hwhole path

variable {κ : Type} [Console κ]

/-- A step that ends the run changes no storage. -/
theorem Stop.sameStores {s : Session κ} {ending : Ending} {m : Machine} (h : c.Stop s ending m) :
    m.SameStores (whole c.active c.callers) := by
  cases h with
  | failed | halted => exact sameStores_adoptAll _ _
  | returned ht he hf =>
      obtain ⟨-, rfl⟩ := he.of_ret
      rw [hf]
      exact .of_eq rfl rfl
  | finished ht hf =>
      rw [hf]
      exact fun _ => rfl
  | lost ht hf =>
      rw [hf]
      exact sameStores_adoptAll _ _

end Chain

/-! ### What the history tells -/

/-- The deed makes the machine at the path anew, or removes it: a subroutine was declared there or
on the way. -/
def Deed.Renews (d : Deed) (path : List String) : Prop :=
  ∃ target, d.declared? = some target ∧ target <+: path

instance (d : Deed) (path : List String) : Decidable (d.Renews path) :=
  decidable_of_iff (∃ target ∈ d.declared?, target <+: path) Iff.rfl

/-- The value that the deed stored in the slot of the machine at the path. -/
def Deed.storedIn? (path : List String) (key : String) (d : Deed) : Option Int64 :=
  if path = d.path ∧ d.stored? = some key then some d.accumulator else none

/-- The deeds since the machine at the path was made: all that come after the last one that made it
anew. -/
def sinceMade (path : List String) (deeds : List Deed) : List Deed :=
  deeds.rtakeWhile fun d => !decide (d.Renews path)

/-- The entry of a slot in the machine at the path, as the deeds tell: what was last stored there
since the machine was made; otherwise there is none if the machine was made by one of the deeds, and
the entry is as before if it was not. -/
def entryAfter (path : List String) (key : String) (deeds : List Deed) (before : Option Int64) :
    Option Int64 :=
  ((sinceMade path deeds).filterMap (Deed.storedIn? path key)).getLast?.or
    (if ∃ d ∈ deeds, d.Renews path then none else before)

/-- What one deed more makes of an entry. -/
theorem entryAfter_concat (path : List String) (key : String) (deeds : List Deed) (d : Deed)
    (before : Option Int64) :
    entryAfter path key (deeds ++ [d]) before =
      if d.Renews path then none
      else (d.storedIn? path key).or (entryAfter path key deeds before) := by
  by_cases hd : d.Renews path
  · have hany : ∃ e ∈ deeds ++ [d], e.Renews path := ⟨d, by simp, hd⟩
    simp [entryAfter, sinceMade, hd]
  · have hany : (∃ e ∈ deeds ++ [d], e.Renews path) ↔ ∃ e ∈ deeds, e.Renews path := by
      simp [or_and_right, exists_or, hd]
    have hsince : sinceMade path (deeds ++ [d]) = sinceMade path deeds ++ [d] := by
      simp [sinceMade, hd]
    rw [entryAfter, entryAfter, hsince, if_neg hd, List.filterMap_append]
    simp only [hany]
    cases hs : d.storedIn? path key with
    | none => simp [hs]
    | some value => simp [hs]

/-- A line that declares stores nothing. -/
theorem Deed.stored?_of_declared? {d : Deed} {target : List String}
    (h : d.declared? = some target) : d.stored? = none := by
  obtain ⟨name, hname, -⟩ := Option.map_eq_some_iff.1 h
  obtain ⟨label, hd⟩ := Line.operandOf?_eq_some_iff.1 hname
  rw [stored?, Line.operandOf?_of_instruction hd]
  rfl

/-- What one deed makes of an entry. -/
theorem Deed.bind_leaves (d : Deed) (path : List String) (key : String)
    {before : Option (Table Int64)} (h : path = d.path → before ≠ none) :
    (d.leaves path before).bind (fun storage => storage.find? key) =
      if d.Renews path then none
      else (d.storedIn? path key).or (before.bind fun storage => storage.find? key) := by
  cases hd : d.declared? with
  | some target =>
      have hstored : d.storedIn? path key = none := by
        simp [storedIn?, stored?_of_declared? hd]
      by_cases hprefix : target <+: path
      · rw [if_pos ⟨target, hd, hprefix⟩]
        simp only [leaves, hd, if_pos hprefix]
        split <;> rfl
      · have hrenews : ¬ d.Renews path := by
          rintro ⟨target', ht, hprefix'⟩
          rw [hd] at ht
          cases ht
          exact hprefix hprefix'
        have hne : path ≠ target := by
          rintro rfl
          exact hprefix List.prefix_rfl
        rw [if_neg hrenews, hstored, Option.none_or]
        simp only [leaves, hd, if_neg hne, if_neg hprefix]
  | none =>
      have hrenews : ¬ d.Renews path := by
        rintro ⟨target, ht, -⟩
        rw [hd] at ht
        cases ht
      rw [if_neg hrenews]
      cases hs : d.stored? with
      | none => simp only [leaves, hd, hs, storedIn?, reduceCtorEq, and_false, if_false,
          Option.none_or]
      | some key' =>
          simp only [leaves, hd, hs, storedIn?, Option.some.injEq]
          by_cases hpath : path = d.path
          · obtain ⟨storage, rfl⟩ := Option.ne_none_iff_exists'.1 (h hpath)
            by_cases hkey : key' = key <;> simp [hpath, hkey, Table.find?_put]
          · simp [hpath]

namespace Chain

/-- What a step makes of an entry. -/
theorem Move.entryAt? {c c' : Chain} (h : c.Move c') (path : List String) (key : String) :
    (whole c'.active c'.callers).entryAt? path key =
      if c.deed.Renews path then none
      else (c.deed.storedIn? path key).or ((whole c.active c.callers).entryAt? path key) := by
  rw [Machine.entryAt?, Machine.entryAt?, h.leaves path]
  refine Deed.bind_leaves c.deed path key ?_
  rintro rfl
  have hactive : (whole c.active c.callers).storageAt? c.deed.path = some c.active.storage :=
    Machine.storageAt?_of_at? (at?_whole_active c.active c.callers)
  simp [hactive]

variable {κ : Type} [Console κ]

/-- **An entry is what the history tells.** -/
theorem Passes.entryAt?_whole {m : Machine} {s s₁ : Session κ} {c : Chain}
    {passed : List (Chain × Session κ)} (h : Passes (start m) s passed c s₁) (path : List String)
    (key : String) :
    (whole c.active c.callers).entryAt? path key =
      entryAfter path key (deedsOf passed) (m.entryAt? path key) := by
  induction h with
  | refl =>
      have hsame : (m.goto 0).SameStores m := .of_eq rfl rfl
      have hentry : (m.goto 0).entryAt? path key = m.entryAt? path key := by
        rw [Machine.entryAt?, Machine.entryAt?, hsame path]
      simpa [entryAfter, sinceMade, deedsOf, start, whole] using hentry
  | tail hpassed hs ih =>
      rw [(move_of_step hs).entryAt? path key, ih, deedsOf_concat, entryAfter_concat]

end Chain

namespace Machine

variable {κ : Type} [Console κ]

/-! ### The storages of a run -/

/-- **The storages of a run, at every moment and at its end.**

A run comes to a chain, and went through certain moments before.  An entry of a machine that is then
in the tree is what the deeds at those moments tell: the accumulator that the machine had when it
last stored the slot, and if it did not, nothing in case it was declared in this run, or else the
entry from before the run.  The active machine finds these entries and no other.  If the next step
goes on, it changes the storages as its deed says and in no other way: one that declares puts a
machine without entries in its place, one that stores changes the machine that stores and no other.
If the next step ends the run, it changes no storage.

So the entries that a run leaves, however it ends, are those that all its deeds tell.  And when a
machine is about to warn about a slot, it has no entry for it. -/
theorem run_storage (m : Machine) (s : Session κ) :
    (∀ passed c s₁, Chain.Passes (Chain.start m) s passed c s₁ →
      (∀ path n, (Chain.whole c.active c.callers).at? path = some n → ∀ key,
        n.storage.find? key = entryAfter path key (deedsOf passed) (m.entryAt? path key)) ∧
      (∀ key, c.active.storage.find? key =
        entryAfter c.deed.path key (deedsOf passed) (m.entryAt? c.deed.path key)) ∧
      (∀ c₂ s₂, c.step s₁ = (.running c₂, s₂) → ∀ path,
        (Chain.whole c₂.active c₂.callers).storageAt? path =
          c.deed.leaves path ((Chain.whole c.active c.callers).storageAt? path)) ∧
      ∀ ending m' s₂, c.step s₁ = (.ended ending m', s₂) →
        m'.SameStores (Chain.whole c.active c.callers)) ∧
    (∀ fuel ending m' s', m.run fuel s = some (ending, m', s') →
      ∃ passed c s₁ ending' s₂, Chain.Passes (Chain.start m) s passed c s₁ ∧
        c.step s₁ = (.ended ending' m', s₂) ∧ m'.close s₂ ending' = (ending, s') ∧
        ∀ path n, m'.at? path = some n → ∀ key,
          n.storage.find? key = entryAfter path key (deedsOf passed) (m.entryAt? path key)) ∧
    ∀ asked c s₁ d key, Chain.Asks (Chain.start m) s asked c s₁ (some d) →
      s₁.request? d = some (.emit (missingSlot key)) →
      c.active.storage.find? key = none ∧
        ∃ passed s₀, Chain.Passes (Chain.start m) s passed c s₀ ∧
          entryAfter c.deed.path key (deedsOf passed) (m.entryAt? c.deed.path key) = none := by
  have hentry : ∀ {passed c s₁}, Chain.Passes (Chain.start m) s passed c s₁ → ∀ path n,
      (Chain.whole c.active c.callers).at? path = some n → ∀ key,
        n.storage.find? key = entryAfter path key (deedsOf passed) (m.entryAt? path key) := by
    intro passed c s₁ hpasses path n hn key
    rw [← hpasses.entryAt?_whole path key, entryAt?_of_at? hn]
  have hactive : ∀ {passed c s₁}, Chain.Passes (Chain.start m) s passed c s₁ → ∀ key,
      c.active.storage.find? key =
        entryAfter c.deed.path key (deedsOf passed) (m.entryAt? c.deed.path key) :=
    fun hpasses => hentry hpasses _ _ (Chain.at?_whole_active _ _)
  refine ⟨?_, ?_, ?_⟩
  · intro passed c s₁ hpasses
    refine ⟨hentry hpasses, hactive hpasses, ?_, ?_⟩
    · exact fun c₂ s₂ hs path => (Chain.move_of_step hs).leaves path
    · exact fun ending m' s₂ hs => (Chain.stop_of_step hs).sameStores
  · intro fuel ending m' s' hrun
    obtain ⟨c, s₁, ending', s₂, hreach, hstep, hclose⟩ := run_eq_some_iff.1 ⟨fuel, hrun⟩
    obtain ⟨passed, hpasses⟩ := hreach.passes
    refine ⟨passed, c, s₁, ending', s₂, hpasses, hstep, hclose, ?_⟩
    intro path n hn key
    have hsame : m'.storageAt? path = (Chain.whole c.active c.callers).storageAt? path :=
      (Chain.stop_of_step hstep).sameStores path
    rw [← hpasses.entryAt?_whole path key, ← entryAt?_of_at? hn, entryAt?, entryAt?, hsame]
  · intro asked c s₁ d key hasks hrequest
    obtain ⟨text, -, htells⟩ := hasks.lineSays rfl hrequest
    obtain ⟨s₀, -, hreach, -⟩ := hasks.perform
    obtain ⟨passed, hpasses⟩ := hreach.passes
    have hnone := htells.missingSlot
    exact ⟨hnone, passed, s₀, hpasses, by rw [← hactive hpasses key, hnone]⟩

/-- A root that stores a slot and calls a subroutine twice, which adds up its accumulators in a slot
of the same name, until a declaration fails. -/
def hoarder : Machine :=
  ofProgram (.ofLines "root" ["LOAD 1", "STORE x", "INC leaf", "RUN leaf", "RUN leaf", "INC gone"])

/-- The run fails, and both machines have the entries that its deeds tell. -/
theorem run_storage_hoarder :
    ∃ failure m' s' leaf passed c s₁,
      hoarder.run 20 (.inMemory [("leaf", "ADD x\nSTORE x\nRET")] []) =
        some (.failed failure, m', s') ∧
      Chain.Passes (Chain.start hoarder) (.inMemory [("leaf", "ADD x\nSTORE x\nRET")] []) passed
        c s₁ ∧
      m'.at? ["leaf"] = some leaf ∧ m'.storage.find? "x" = some 1 ∧
      leaf.storage.find? "x" = some 2 ∧ entryAfter [] "x" (deedsOf passed) none = some 1 ∧
      entryAfter ["leaf"] "x" (deedsOf passed) none = some 2 := by
  have hrun : ((hoarder.run 20 (.inMemory [("leaf", "ADD x\nSTORE x\nRET")] [])).bind fun answer =>
      answer.1.failure?.bind fun _ => (answer.2.1.at? ["leaf"]).map fun leaf =>
        (answer.2.1.storage.find? "x", leaf.storage.find? "x")) = some (some 1, some 2) := by
    decide +kernel
  obtain ⟨⟨ending, m', s'⟩, h, hanswer⟩ := Option.bind_eq_some_iff.1 hrun
  obtain ⟨failure, hfailure, hleaf⟩ := Option.bind_eq_some_iff.1 hanswer
  obtain ⟨leaf, hat, hentries⟩ := Option.map_eq_some_iff.1 hleaf
  obtain ⟨hroot, hchild⟩ := Prod.mk.inj hentries
  obtain rfl := Ending.eq_of_failure? hfailure
  obtain ⟨-, hend, -⟩ := run_storage hoarder (.inMemory [("leaf", "ADD x\nSTORE x\nRET")] [])
  obtain ⟨passed, c, s₁, _, _, hpasses, -, -, htold⟩ := hend 20 _ m' s' h
  exact ⟨failure, m', s', leaf, passed, c, s₁, h, hpasses, hat, hroot, hchild,
    (htold [] m' rfl "x").symm.trans hroot, (htold ["leaf"] leaf hat "x").symm.trans hchild⟩

end Machine

end AccMachine
