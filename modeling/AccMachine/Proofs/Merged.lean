/-
**A machine with the storage of its subroutine.**

When a program has the lines of a subroutine in place of its calls, one machine does the work of
two: it has the storage of the calling machine together with that of the subroutine.  As long as
the two share no slot, each of them finds its own slots there, and each can store one of them
without the other being disturbed.

Main definitions:

* `Machine.Merged` — a machine has the storage of another one and of its subroutine;
* `Machine.InPlace`, `Machine.InCall` — and it stands where the line of the other one, or of its
  subroutine, has gone.

Main results:

* `Machine.Merged.find?_own`, `Machine.Merged.find?_child` — every slot is found in the storage of
  the merged machine;
* `Machine.InPlace.shared` — **the lines of the program see no difference between the machines**;
* `Machine.InPlace.advance`, `Machine.InPlace.goto`, `Machine.InPlace.invoke` — the machines go on
  side by side outside a call, and into one;
* `Machine.InCall.advance`, `Machine.InCall.returned` — within a call, and out of it.
-/

import AccMachine.Proofs.InlinedProgram

set_option relaxedAutoImplicit false
set_option autoImplicit false

namespace AccMachine

namespace Machine

variable {p : Program} {name : String} {body : List String} {last : String} {m child n : Machine}

/-! ### Machines that have taken a subroutine in -/

/-- `Merged p name body last m child n`: the machine `m` executes the program and `n` the one with
the calls inlined.  The storage of `n` is that of `m` together with that of `child`, the subroutine
with the inlined lines; all other subroutines are the same. -/
structure Merged (p : Program) (name : String) (body : List String) (last : String)
    (m child n : Machine) : Prop where
  program : m.program = p
  inlined : n.program = p.inline name body
  lines : child.program.lines = body ++ [last]
  storage : ∀ key, n.storage.find? key = (m.storage.find? key).or (child.storage.find? key)
  ownSlots : ∀ key, (m.storage.find? key).isSome → Line.UsedIn p.lines key
  childSlots : ∀ key, (child.storage.find? key).isSome → Line.UsedIn body key
  others : ∀ name', name' ≠ name → n.subroutines.find? name' = m.subroutines.find? name'
  awaited : m.awaited = false ∧ n.awaited = false

/-- Only the program, the storage, the subroutines and the waiting callers matter. -/
theorem Merged.congr {m' child' n' : Machine} (h : Merged p name body last m child n)
    (hm : m'.program = m.program ∧ m'.storage = m.storage ∧ m'.subroutines = m.subroutines ∧
      m'.awaited = m.awaited)
    (hchild : child'.program = child.program ∧ child'.storage = child.storage)
    (hn : n'.program = n.program ∧ n'.storage = n.storage ∧ n'.subroutines = n.subroutines ∧
      n'.awaited = n.awaited) : Merged p name body last m' child' n' := by
  obtain ⟨hprogram, hstorage, hsubroutines, hawaited⟩ := hm
  obtain ⟨hchildProgram, hchildStorage⟩ := hchild
  obtain ⟨hprogram', hstorage', hsubroutines', hawaited'⟩ := hn
  constructor
  · rw [hprogram, h.program]
  · rw [hprogram', h.inlined]
  · rw [hchildProgram, h.lines]
  · rw [hstorage, hstorage', hchildStorage]
    exact h.storage
  · rw [hstorage]
    exact h.ownSlots
  · rw [hchildStorage]
    exact h.childSlots
  · rw [hsubroutines, hsubroutines']
    exact h.others
  · rw [hawaited, hawaited']
    exact h.awaited

/-- A slot of the program is found in the storage of both machines. -/
theorem Merged.find?_own (hp : p.Inlinable name body) (h : Merged p name body last m child n)
    {key : String} (hkey : Line.UsedIn p.lines key) :
    n.storage.find? key = m.storage.find? key := by
  have hchild : child.storage.find? key = none := by
    cases hfind : child.storage.find? key with
    | none => rfl
    | some value => exact absurd (h.childSlots key (by rw [hfind]; rfl)) (hp.apart key hkey)
  rw [h.storage, hchild, Option.or_none]

/-- A slot of the inlined lines is found in the storage of the subroutine. -/
theorem Merged.find?_child (hp : p.Inlinable name body) (h : Merged p name body last m child n)
    {key : String} (hkey : Line.UsedIn body key) :
    n.storage.find? key = child.storage.find? key := by
  have hown : m.storage.find? key = none := by
    cases hfind : m.storage.find? key with
    | none => rfl
    | some value => exact absurd hkey (hp.apart key (h.ownSlots key (by rw [hfind]; rfl)))
  rw [h.storage, hown, Option.none_or]

/-- Both machines store a slot of the program. -/
theorem Merged.store (h : Merged p name body last m child n)
    (hacc : n.accumulator = m.accumulator) {key : String} (hkey : Line.UsedIn p.lines key) :
    Merged p name body last { m with storage := m.storage.put key m.accumulator } child
      { n with storage := n.storage.put key n.accumulator } where
  program := h.program
  inlined := h.inlined
  lines := h.lines
  storage := by
    intro key'
    rw [Table.find?_put, Table.find?_put, h.storage, hacc]
    split <;> rfl
  ownSlots := by
    intro key' hkey'
    rw [Table.find?_put] at hkey'
    split at hkey'
    · next heq => exact heq ▸ hkey
    · exact h.ownSlots key' hkey'
  childSlots := h.childSlots
  others := h.others
  awaited := h.awaited

/-- The subroutine stores a slot of its own, and so do the lines in its place. -/
theorem Merged.storeChild (hp : p.Inlinable name body) (h : Merged p name body last m child n)
    (hacc : n.accumulator = child.accumulator) {key : String} (hkey : Line.UsedIn body key) :
    Merged p name body last m { child with storage := child.storage.put key child.accumulator }
      { n with storage := n.storage.put key n.accumulator } where
  program := h.program
  inlined := h.inlined
  lines := h.lines
  storage := by
    intro key'
    rw [Table.find?_put, Table.find?_put, h.storage, hacc]
    split
    · next heq =>
      have hown : m.storage.find? key' = none := by
        cases hfind : m.storage.find? key' with
        | none => rfl
        | some value' =>
            have hused : Line.UsedIn p.lines key' := h.ownSlots key' (by rw [hfind]; rfl)
            exact absurd (heq ▸ hkey) (hp.apart key' hused)
      rw [hown, Option.none_or]
    · rfl
  ownSlots := h.ownSlots
  childSlots := by
    intro key' hkey'
    rw [Table.find?_put] at hkey'
    split at hkey'
    · next heq => exact heq ▸ hkey
    · exact h.childSlots key' hkey'
  others := h.others
  awaited := h.awaited

/-- The calling machine takes the subroutine back. -/
theorem Merged.adopt (h : Merged p name body last m child n) :
    Merged p name body last (m.adopt name child) { child with awaited := false } n where
  program := h.program
  inlined := h.inlined
  lines := h.lines
  storage := h.storage
  ownSlots := h.ownSlots
  childSlots := h.childSlots
  others := by
    intro name' hne
    rw [h.others name' hne]
    exact (Table.find?_put_of_ne _ hne.symm _).symm
  awaited := h.awaited

/-- Both machines get the same subroutine. -/
theorem Merged.hold (h : Merged p name body last m child n) (name' : String) (callee : Machine) :
    Merged p name body last { m with subroutines := m.subroutines.put name' callee } child
      { n with subroutines := n.subroutines.put name' callee } where
  program := h.program
  inlined := h.inlined
  lines := h.lines
  storage := h.storage
  ownSlots := h.ownSlots
  childSlots := h.childSlots
  others := by
    intro name'' hne'
    rw [Table.find?_put, Table.find?_put, h.others name'' hne']
  awaited := h.awaited

/-- Both machines stand behind their first line, outside a call: `m` on line `k` of those behind the
first, and `n` where that line has gone. -/
structure InPlace (p : Program) (name : String) (body : List String) (last : String) (k : Nat)
    (m child n : Machine) : Prop where
  merged : Merged p name body last m child n
  declared : m.subroutines.find? name = some child
  accumulator : n.accumulator = m.accumulator
  pc : m.pc = k + 1
  pc_inline : n.pc = Program.place name body p.lines.tail k
  le_length : k ≤ p.lines.tail.length

variable {k : Nat}

/-- The line on which the machine stands. -/
theorem InPlace.currentLine? (hp : p.Inlinable name body)
    (h : InPlace p name body last k m child n) : m.currentLine? = p.lines.tail[k]? := by
  obtain ⟨first, hlines, -⟩ := hp.lines
  rw [Machine.currentLine?, Program.line?, h.merged.program, h.pc, hlines]
  rfl

/-- The lines in the place of that line. -/
theorem Merged.line?_inline (h : Merged p name body last m child n) {text : String}
    (htext : p.lines.tail[k]? = some text) {j : Nat}
    (hj : j < (Program.inlineLine name body text).length)
    (hpc : n.pc = Program.place name body p.lines.tail k + j) :
    n.currentLine? = (Program.inlineLine name body text)[j]? := by
  rw [Machine.currentLine?, Program.line?, h.inlined, hpc]
  exact Program.line?_place htext hj

/-- What the lines of the program depend on is the same for both machines. -/
theorem InPlace.shared (hp : p.Inlinable name body) (h : InPlace p name body last k m child n) :
    Shared (Line.UsedIn p.lines) (· ≠ name)
      (fun target => Program.place name body p.lines.tail (target - 1)) m n where
  accumulator := h.accumulator
  slots := fun _ hkey => h.merged.find?_own hp hkey
  labels := by
    intro label
    rw [h.merged.program, h.merged.inlined]
    exact Program.label?_inline hp label
  subroutines := fun name' hne => h.merged.others name' hne
  reference := by
    rw [h.merged.program, h.merged.inlined]
    rfl
  awaited := h.merged.awaited

theorem InPlace.accumulate (h : InPlace p name body last k m child n) (value : Int64) :
    InPlace p name body last k (m.accumulate value) child (n.accumulate value) where
  merged := h.merged.congr ⟨rfl, rfl, rfl, rfl⟩ ⟨rfl, rfl⟩ ⟨rfl, rfl, rfl, rfl⟩
  declared := h.declared
  accumulator := rfl
  pc := h.pc
  pc_inline := h.pc_inline
  le_length := h.le_length

theorem InPlace.store (h : InPlace p name body last k m child n) {key : String}
    (hkey : Line.UsedIn p.lines key) :
    InPlace p name body last k { m with storage := m.storage.put key m.accumulator } child
      { n with storage := n.storage.put key n.accumulator } where
  merged := h.merged.store h.accumulator hkey
  declared := h.declared
  accumulator := h.accumulator
  pc := h.pc
  pc_inline := h.pc_inline
  le_length := h.le_length

theorem InPlace.hold (h : InPlace p name body last k m child n) {name' : String}
    (hne : name' ≠ name) (callee : Machine) :
    InPlace p name body last k { m with subroutines := m.subroutines.put name' callee } child
      { n with subroutines := n.subroutines.put name' callee } where
  merged := h.merged.hold name' callee
  declared := by
    rw [Table.find?_put_of_ne _ hne]
    exact h.declared
  accumulator := h.accumulator
  pc := h.pc
  pc_inline := h.pc_inline
  le_length := h.le_length

theorem InPlace.goto (h : InPlace p name body last k m child n) {k' : Nat}
    (hk' : k' ≤ p.lines.tail.length) :
    InPlace p name body last k' (m.goto (k' + 1)) child
      (n.goto (Program.place name body p.lines.tail k')) where
  merged := h.merged.congr ⟨rfl, rfl, rfl, rfl⟩ ⟨rfl, rfl⟩ ⟨rfl, rfl, rfl, rfl⟩
  declared := h.declared
  accumulator := h.accumulator
  pc := rfl
  pc_inline := rfl
  le_length := hk'

/-- Behind a line that stays as it is, both machines stand on the next one. -/
theorem InPlace.advance (h : InPlace p name body last k m child n) {text : String}
    (htext : p.lines.tail[k]? = some text) (hline : Program.inlineLine name body text = [text]) :
    InPlace p name body last (k + 1) m.advance child n.advance := by
  obtain ⟨hk, -⟩ := List.getElem?_eq_some_iff.1 htext
  have hplace : Program.place name body p.lines.tail (k + 1) =
      Program.place name body p.lines.tail k + 1 := by
    rw [Program.place_succ htext, hline]
    rfl
  change InPlace p name body last (k + 1) (m.goto (m.pc + 1)) child (n.goto (n.pc + 1))
  rw [h.pc, h.pc_inline, ← hplace]
  exact h.goto hk

/-! ### Within a call -/

/-- The machine `m` waits on line `k` of those behind the first, a call with the given label, for
the inlined subroutine `child`; `n` stands where the line of the subroutine has gone. -/
structure InCall (p : Program) (name : String) (body : List String) (last : String) (k : Nat)
    (label : Option String) (m child n : Machine) : Prop where
  merged : Merged p name body last m child n
  accumulator : n.accumulator = child.accumulator
  awaited : child.awaited = true
  pc : m.pc = k + 1
  call : ∃ text, p.lines.tail[k]? = some text ∧
    Line.decode (Text.wordsOf text) = .ok (.instruction ⟨label, .run, some name⟩)
  pc_inline : n.pc = Program.place name body p.lines.tail k + (label.toList.length + child.pc)
  le_length : child.pc ≤ body.length

variable {label : Option String}

/-- Before the return, both machines stand on the same line. -/
theorem InCall.currentLine? (h : InCall p name body last k label m child n) {line : String}
    (hline : body[child.pc]? = some line) :
    child.currentLine? = some line ∧ n.currentLine? = some line := by
  obtain ⟨hlt, -⟩ := List.getElem?_eq_some_iff.1 hline
  obtain ⟨text, htext, hcall⟩ := h.call
  have hinlined : Program.inlineLine name body text = label.toList ++ body :=
    Program.inlineLine_of_call hcall
  constructor
  · rw [Machine.currentLine?, Program.line?, h.merged.lines, List.getElem?_append_left hlt, hline]
  · rw [h.merged.line?_inline htext (by rw [hinlined, List.length_append]; omega) h.pc_inline,
      hinlined, List.getElem?_append_right (Nat.le_add_right _ _), Nat.add_sub_cancel_left, hline]

theorem InCall.accumulate (h : InCall p name body last k label m child n) (value : Int64) :
    InCall p name body last k label m (child.accumulate value) (n.accumulate value) where
  merged := h.merged.congr ⟨rfl, rfl, rfl, rfl⟩ ⟨rfl, rfl⟩ ⟨rfl, rfl, rfl, rfl⟩
  accumulator := rfl
  awaited := h.awaited
  pc := h.pc
  call := h.call
  pc_inline := h.pc_inline
  le_length := h.le_length

theorem InCall.store (hp : p.Inlinable name body) (h : InCall p name body last k label m child n)
    {key : String} (hkey : Line.UsedIn body key) :
    InCall p name body last k label m
      { child with storage := child.storage.put key child.accumulator }
      { n with storage := n.storage.put key n.accumulator } where
  merged := h.merged.storeChild hp h.accumulator hkey
  accumulator := h.accumulator
  awaited := h.awaited
  pc := h.pc
  call := h.call
  pc_inline := h.pc_inline
  le_length := h.le_length

theorem InCall.advance (h : InCall p name body last k label m child n)
    (hlt : child.pc < body.length) :
    InCall p name body last k label m child.advance n.advance where
  merged := h.merged.congr ⟨rfl, rfl, rfl, rfl⟩ ⟨rfl, rfl⟩ ⟨rfl, rfl, rfl, rfl⟩
  accumulator := h.accumulator
  awaited := h.awaited
  pc := h.pc
  call := h.call
  pc_inline := by
    change n.pc + 1 = _ + (_ + (child.pc + 1))
    rw [h.pc_inline]
    omega
  le_length := hlt

/-- At the end of the call, the subroutine stands on its return, and `n` has left its lines. -/
theorem InCall.returned (h : InCall p name body last k label m child n)
    (hend : child.pc = body.length) :
    child.currentLine? = some last ∧
      InPlace p name body last (k + 1)
        ((m.adopt name child).accumulate child.accumulator).advance
        { child with awaited := false } n := by
  obtain ⟨text, htext, hcall⟩ := h.call
  obtain ⟨hk, -⟩ := List.getElem?_eq_some_iff.1 htext
  constructor
  · rw [Machine.currentLine?, Program.line?, h.merged.lines, hend, List.getElem?_concat_length]
  · exact
      { merged := h.merged.adopt.congr ⟨rfl, rfl, rfl, rfl⟩ ⟨rfl, rfl⟩ ⟨rfl, rfl, rfl, rfl⟩
        declared := Table.find?_put_self _ _ _
        accumulator := h.accumulator
        pc := congrArg (· + 1) h.pc
        pc_inline := by
          rw [h.pc_inline, hend, Program.place_succ htext, Program.inlineLine_of_call hcall,
            List.length_append]
        le_length := hk }

/-- A call begins with the accumulator of the caller; `n` is then behind the label of the call. -/
theorem InPlace.invoke (h : InPlace p name body last k m child n) {text : String}
    (htext : p.lines.tail[k]? = some text)
    (hcall : Line.decode (Text.wordsOf text) = .ok (.instruction ⟨label, .run, some name⟩)) :
    InCall p name body last k label m (child.invoked m.accumulator)
      (n.goto (n.pc + label.toList.length)) where
  merged := h.merged.congr ⟨rfl, rfl, rfl, rfl⟩ ⟨rfl, rfl⟩ ⟨rfl, rfl, rfl, rfl⟩
  accumulator := h.accumulator
  awaited := rfl
  pc := h.pc
  call := ⟨text, htext, hcall⟩
  pc_inline := congrArg (· + label.toList.length) h.pc_inline
  le_length := Nat.zero_le _

end Machine

end AccMachine
