/-
**A slot that nobody reads.**

If no line of a program reads a slot, then what the slot holds does not matter.  Two roots with this
program that differ in that slot at most do the same: their runs end together, in the same way, and
leave the same behind, except for the slot itself.  The subroutines may use a slot of the same name,
since it is one of their own.  Once a root stores the slot, not even the slot tells the two apart.

Main definitions:

* `Mnemonic.reads`, `Program.Unread` — the instructions that read a slot, and a slot that no line of
  a program reads;
* `Session.SameButLog` — two sessions differ in their log at most.

Main results:

* `Session.sameButLog_alike` — a machine cannot tell sessions apart by their log, in any trace mode;
* `Chain.follows_store` — a root that stores a slot forgets what was in it;
* `Chain.unread_simulation` — **roots that differ in a slot that is not read go on in step**;
* `Machine.run_unread` — **their runs end together, and leave the same behind**.
-/

import AccMachine.Proofs.Deeds
import AccMachine.Proofs.Halting
import AccMachine.Proofs.Partners
import AccMachine.Proofs.Transcript

set_option relaxedAutoImplicit false
set_option autoImplicit false

namespace AccMachine

/-! ### Slots that are read -/

/-- Whether the instruction reads the slot that its operand names. -/
def Mnemonic.reads : Mnemonic → Bool
  | load | add | subtract | multiply | divide | xor | or | and | andNot => true
  | _ => false

/-- No line of the program has the key for an operand of an instruction that reads. -/
def Program.Unread (p : Program) (key : String) : Prop :=
  ∀ text ∈ p.lines, ∀ mnemonic : Mnemonic, mnemonic.reads = true →
    Line.operandOf? mnemonic text ≠ some key

instance (p : Program) (key : String) : Decidable (p.Unread key) :=
  decidable_of_iff
    (∀ text ∈ p.lines, ∀ mnemonic ∈ Mnemonic.all, mnemonic.reads = true →
      Line.operandOf? mnemonic text ≠ some key)
    ⟨fun h text ht mnemonic => h text ht mnemonic mnemonic.mem_all,
      fun h text ht mnemonic _ => h text ht mnemonic⟩

/-- An instruction that names a slot stores or reads it, and its operand is the key. -/
theorem Mnemonic.slot?_eq_some {mnemonic : Mnemonic} {operand key : String}
    (h : mnemonic.slot? operand = some key) :
    operand = key ∧ (mnemonic = .store ∨ mnemonic.reads = true) := by
  have hlooked : Mnemonic.load.slot? operand = some key → operand = key := by
    intro hslot
    simp only [Mnemonic.slot?] at hslot
    split at hslot
    · next key' ho =>
        cases hslot
        exact (Operand.ofText_eq_slot_iff.1 ho).1.symm
    · cases hslot
  cases mnemonic with
  | store => exact ⟨Option.some.inj h, Or.inl rfl⟩
  | xor | or | and | andNot => exact ⟨Option.some.inj h, Or.inr rfl⟩
  | load | add | subtract | multiply | divide => exact ⟨hlooked h, Or.inr rfl⟩
  | jump | jumpNegative | jumpZero | input | output | outputChar | declare | run | ret | halt =>
      cases h

/-- A line that names a slot which is not read stores it. -/
theorem Program.Unread.stores {p : Program} {key text : String} (h : p.Unread key)
    (htext : text ∈ p.lines) (hslot : Line.slotOf? text = some key) :
    Line.operandOf? .store text = some key := by
  unfold Line.slotOf? at hslot
  split at hslot
  · next label mnemonic operand hd =>
      obtain ⟨rfl, rfl | hreads⟩ := Mnemonic.slot?_eq_some hslot
      · exact Line.operandOf?_eq_some_iff.2 ⟨label, hd⟩
      · exact absurd (Line.operandOf?_eq_some_iff.2 ⟨label, hd⟩) (h text htext mnemonic hreads)
  · cases hslot

/-! ### Sessions that differ in their log -/

namespace Session

variable {κ : Type}

/-- The sessions differ in their log at most. -/
structure SameButLog (s t : Session κ) : Prop where
  shelf : t.shelf = s.shelf
  files : t.files = s.files
  console : t.console = s.console
  tracer : t.tracer = s.tracer

theorem SameButLog.refl (s : Session κ) : SameButLog s s := ⟨rfl, rfl, rfl, rfl⟩

/-- **A machine cannot tell sessions apart by their log**, in any trace mode. -/
theorem sameButLog_alike [Console κ] : Alike (SameButLog (κ := κ)) where
  emit := by
    intro s t output _ h
    rw [emit_eq, emit_eq, h.console]
    exact ⟨rfl, h.shelf, h.files, rfl, h.tracer⟩
  trace := by
    intro s t words accumulator h
    unfold trace
    rw [h.tracer]
    split
    · exact ⟨rfl, h⟩
    · rw [emit_eq, emit_eq, h.console]
      exact ⟨rfl, h.shelf, h.files, rfl, h.tracer⟩
    · exact ⟨rfl, h.shelf, h.files, h.console, rfl⟩
  readLine := by
    intro s t h
    rw [readLine_eq, readLine_eq, h.console]
    exact ⟨rfl, h.shelf, h.files, rfl, h.tracer⟩
  source := by
    intro s t reference h
    simp only [Session.source, h.shelf, h.files]
  noteLeft := fun _ h => ⟨h.shelf, h.files, h.console, h.tracer⟩
  noteRight := fun _ h => ⟨h.shelf, h.files, h.console, h.tracer⟩

/-- The sheet is written in the same way. -/
theorem SameButLog.writeSheet {s t : Session κ} (h : SameButLog s t) :
    t.writeSheet.1 = s.writeSheet.1 ∧ SameButLog s.writeSheet.2 t.writeSheet.2 := by
  unfold Session.writeSheet
  rw [h.tracer]
  split
  · exact ⟨rfl, h⟩
  · exact ⟨rfl, h⟩
  · have hwrite : (t.note (.writingSheet s.tracer.path)).files.write s.tracer.path s.tracer.sheet =
        (s.note (.writingSheet s.tracer.path)).files.write s.tracer.path s.tracer.sheet :=
      congrArg (fun files => FileTree.write files s.tracer.path s.tracer.sheet) h.files
    dsimp only
    rw [hwrite]
    cases (s.note (.writingSheet s.tracer.path)).files.write s.tracer.path s.tracer.sheet with
    | error fault => exact ⟨rfl, h.shelf, h.files, h.console, h.tracer⟩
    | ok files => exact ⟨rfl, h.shelf, rfl, h.console, h.tracer⟩

end Session

/-- The runs of roots, or of subroutines, are closed in the same way. -/
theorem Machine.close_sameButLog {κ : Type} {m m' : Machine} (hm : m'.parent = m.parent)
    {s t : Session κ} (h : Session.SameButLog s t) (ending : Ending) :
    (m'.close t ending).1 = (m.close s ending).1 ∧
      Session.SameButLog (m.close s ending).2 (m'.close t ending).2 := by
  cases ending with
  | finished => exact ⟨rfl, h⟩
  | returned => exact ⟨rfl, h⟩
  | failed failure => exact ⟨rfl, h⟩
  | halted =>
      have hroot : m'.isRoot = m.isRoot := by rw [isRoot, isRoot, hm]
      obtain ⟨hanswer, hs⟩ := h.writeSheet
      simp only [close, hroot]
      rcases hw : s.writeSheet with ⟨answer, s'⟩
      rcases hw' : t.writeSheet with ⟨answer', t'⟩
      rw [hw, hw'] at hanswer hs
      obtain rfl : answer' = answer := hanswer
      by_cases hm' : m.isRoot = true
      · simp only [hm', if_true]
        cases answer' with
        | error fault => exact ⟨rfl, hs⟩
        | ok _ => exact ⟨rfl, hs⟩
      · simp only [hm', Bool.false_eq_true, if_false]
        exact ⟨trivial, h⟩

/-! ### Machines that differ in a slot -/

namespace Machine

variable {p : Program} {K : String → Prop} {a b : Machine}

theorem Partners.currentLine? (h : Partners p p K a b) (hpc : b.pc = a.pc) :
    b.currentLine? = a.currentLine? := by
  rw [Machine.currentLine?, Machine.currentLine?, h.program.1, h.program.2, hpc]

theorem Partners.here (h : Partners p p K a b) (hpc : b.pc = a.pc) : b.here = a.here := by
  rw [Machine.here, Machine.here, h.currentLine? hpc, h.program.1, h.program.2, hpc]

/-- A line that stores does so on both machines, whatever was in the slot. -/
theorem agree_store (h : Partners p p K a b) {text key : String}
    (htext : Line.operandOf? .store text = some key) :
    Dialogue.Agree
      (fun x y => x = ({ a with storage := a.storage.put key a.accumulator }, .next) ∧
        y = ({ b with storage := b.storage.put key b.accumulator }, .next))
      (a.line text) (b.line text) := by
  obtain ⟨label, hd⟩ := Line.operandOf?_eq_some_iff.1 htext
  rw [line_def, line_def, h.accumulator]
  refine .trace _ _ ?_
  simp only [obeyWords_def, hd, obey_def, execute_def]
  exact .done ⟨rfl, by rw [h.accumulator]⟩

end Machine

/-- Matching ends of machines on the same line are the same. -/
theorem Ending.Matches.eq {a b : Machine} {ending ending' : Ending}
    (h : Ending.Matches id a b ending ending') (hhere : b.here = a.here) : ending' = ending := by
  cases h with
  | finished => rfl
  | halted => rfl
  | failed cause => rw [hhere, id]
  | within failure _ => rw [hhere]

namespace Chain

variable {κ : Type} [Console κ] {p : Program} {K : String → Prop} {x : String} {a b : Machine}
  {s t : Session κ}

/-- **A root that stores a slot forgets what was in it.** -/
theorem follows_store {rank : Chain → Nat} (hs : Session.SameButLog s t)
    (h : a.Partners p p K b) (hpc : b.pc = a.pc) {text : String}
    (ht : a.currentLine? = some text) (htext : Line.operandOf? .store text = some x) :
    Follows (Paired p p (fun key => K key ∨ x = key) id Session.SameButLog)
      (SameAnswer p p K id id Session.SameButLog) rank ⟨a, []⟩ s ⟨b, []⟩ t := by
  have ht' : b.currentLine? = some text := (h.currentLine? hpc).trans ht
  obtain ⟨hresult, hs'⟩ :=
    Session.perform_agree Session.sameButLog_alike (Machine.agree_store h htext) hs
  rcases hperform : s.perform (a.line text) with ⟨result, s'⟩
  rcases hperform' : t.perform (b.line text) with ⟨result', t'⟩
  rw [hperform, hperform'] at hresult hs'
  have hstep := step_of_line (c := ⟨a, []⟩) ht hperform
  have hstep' := step_of_line (c := ⟨b, []⟩) ht' hperform'
  cases hresult with
  | error cause =>
      -- The console refused the entry of the line.
      exact .stop hstep hstep' ⟨.failed cause, h, hpc, rfl,
        Session.noteAll_alike Session.sameButLog_alike hs' _ _⟩
  | ok hstored =>
      obtain ⟨rfl, rfl⟩ := hstored
      exact .together hstep hstep' (.outside hs' ((h.store x).goto _ _) (congrArg (· + 1) hpc))

/-- **Roots that differ in a slot that is not read go on in step.** -/
theorem unread_simulation (hp : p.Unread x) (hK : ∀ key, key ≠ x → K key) :
    Simulation (Paired p p K id Session.SameButLog)
      (SameAnswer p p K id id (Session.SameButLog (κ := κ))) fun _ => 0 := by
  intro c s c' t h
  cases h with
  | inside c name hs hm hpc hnext =>
      exact follows_below Session.sameButLog_alike c name hs hm hpc hnext rfl
  | @outside a b _ _ hs hm hpc =>
      have hline : b.currentLine? = a.currentLine? := hm.currentLine? hpc
      cases ht : a.currentLine? with
      | none => exact follows_end hm hpc rfl hs ht (hline.trans ht)
      | some text =>
          have hmem : text ∈ p.lines := by
            rw [← hm.program.1]
            exact List.mem_of_getElem? ht
          by_cases hstore : Line.operandOf? .store text = some x
          · refine (follows_store hs hm hpc ht hstore).imp ?_ fun _ => id
            exact fun _ => Paired.mono (fun _ => Or.inl) id
          · have hslots : ∀ key, Line.slotOf? text = some key → K key := by
              intro key hkey
              refine hK key ?_
              rintro rfl
              exact hstore (hp.stores hmem hkey)
            have hagree := Machine.agree_line_of_shared
              (hm.shared (f := id) fun label => (Option.map_id_apply).symm) hslots
              fun _ _ _ _ _ => trivial
            obtain ⟨hresult, hs'⟩ := Session.perform_agree Session.sameButLog_alike hagree hs
            exact follows_line hm hpc rfl ht (hline.trans ht) (hresult.matching fun _ _ => rfl)
              (Session.noteAll_alike Session.sameButLog_alike hs')

/-- The line that stores the slot leads to roots that have everything in common. -/
theorem Paired.stored {c c₁ c' : Chain} {s₁ : Session κ}
    (h : Paired p p K id Session.SameButLog c s c' t) (hcallers : c.callers = [])
    (hstored : c.deed.stored? = some x) (hstep : c.step s = (.running c₁, s₁)) :
    ∃ c₁' t₁, c'.step t = (.running c₁', t₁) ∧
      Paired p p (fun key => K key ∨ x = key) id Session.SameButLog c₁ s₁ c₁' t₁ := by
  obtain ⟨text, ht⟩ := (move_of_step hstep).has_line
  rw [Deed.stored?, deed_text ht] at hstored
  cases h with
  | inside c name hs hm hpc hnext => simp [onTopOf] at hcallers
  | @outside a b _ _ hs hm hpc =>
      have hfollows : Follows (Paired p p (fun key => K key ∨ x = key) id Session.SameButLog)
          (SameAnswer p p K id id Session.SameButLog) (fun _ => 0) ⟨a, []⟩ s ⟨b, []⟩ t :=
        follows_store hs hm hpc ht hstored
      cases hfollows with
      | alone _ hr _ => exact absurd hr (Nat.lt_irrefl 0)
      | together hs₁ hs₁' hR =>
          rw [hstep] at hs₁
          cases hs₁
          exact ⟨_, _, hs₁', hR⟩
      | stop hs₁ _ _ =>
          rw [hstep] at hs₁
          cases hs₁

/-- **After the root has stored the slot**, the runs end with everything in common. -/
theorem sameAnswer_of_stored (hp : p.Unread x) {c c₁ c₂ c' : Chain} {s₁ s₂ : Session κ}
    (h : Paired p p (· ≠ x) id Session.SameButLog c s c' t) (hreach : Reaches c s c₁ s₁)
    (hcallers : c₁.callers = []) (hstored : c₁.deed.stored? = some x)
    (hstep : c₁.step s₁ = (.running c₂, s₂)) {fuel fuel' : Nat} {answer answer' : Answer κ}
    (hrun : runFor fuel c s = some answer) (hrun' : runFor fuel' c' t = some answer') :
    SameAnswer p p (fun key => key ≠ x ∨ x = key) id id Session.SameButLog answer answer' := by
  have hsim : Simulation (Paired p p (· ≠ x) id Session.SameButLog)
      (SameAnswer p p (· ≠ x) id id (Session.SameButLog (κ := κ))) fun _ => 0 :=
    unread_simulation hp fun _ => id
  obtain ⟨c₁', t₁, hreach', hpaired⟩ := hsim.reaches h hreach
  obtain ⟨c₂', t₂, hstep', hpaired'⟩ := hpaired.stored hcallers hstored hstep
  -- The first run goes on from there to its end, and the second run follows it.
  obtain ⟨ending, m, s'⟩ := answer
  obtain ⟨c₃, s₃, hlast, hend⟩ := runFor_eq_some_iff.1 ⟨fuel, hrun⟩
  obtain ⟨n, hn⟩ := runFor_eq_some_iff.2 ⟨c₃, s₃, hlast.last hend (hreach.tail hstep), hend⟩
  have hsim' : Simulation (Paired p p (fun key => key ≠ x ∨ x = key) id Session.SameButLog)
      (SameAnswer p p (fun key => key ≠ x ∨ x = key) id id (Session.SameButLog (κ := κ)))
      fun _ => 0 :=
    unread_simulation hp fun _ => Or.inl
  obtain ⟨n', answer'', hn', hanswer⟩ := hsim'.forward hpaired' hn
  obtain ⟨k, hk⟩ := (hreach'.tail hstep').runFor n'
  rwa [runFor_unique hrun' (hk.trans hn')]

end Chain

namespace Machine

variable {κ : Type} [Console κ]

/-! ### Whole runs -/

/-- A run is what its chain does, and then it is closed. -/
theorem run_iff_runFor {m m' : Machine} {fuel : Nat} {s s' : Session κ} {ending' : Ending} :
    m.run fuel s = some (ending', m', s') ↔
      ∃ ending s₁, (Chain.start m).runFor fuel s = some (ending, m', s₁) ∧
        m'.close s₁ ending = (ending', s') := by
  rw [run_def]
  cases (Chain.start m).runFor fuel s with
  | none => simp
  | some answer =>
      obtain ⟨ending, m₁, s₁⟩ := answer
      constructor
      · intro h
        cases h
        exact ⟨ending, s₁, rfl, rfl⟩
      · rintro ⟨ending, s₁, h, hclose⟩
        cases h
        simp only [hclose]

/-- A run ends exactly if its chain does. -/
theorem run_ends_iff (m : Machine) (s : Session κ) :
    (∃ fuel answer, m.run fuel s = some answer) ↔
      ∃ fuel answer, (Chain.start m).runFor fuel s = some answer := by
  constructor
  · rintro ⟨fuel, ⟨ending', m', s'⟩, h⟩
    obtain ⟨ending, s₁, hrun, -⟩ := run_iff_runFor.1 h
    exact ⟨fuel, _, hrun⟩
  · rintro ⟨fuel, ⟨ending, m', s₁⟩, h⟩
    exact ⟨fuel, _, run_iff_runFor.2 ⟨ending, s₁, h, rfl⟩⟩

/-- **A slot that nobody reads has no influence.**  Let no line of a program have the slot for an
operand of an instruction that reads, and let two roots with this program have everything in common
but, perhaps, what is in the slot.  They run in sessions that differ in their log at most, on any
console and in any trace mode.  One run ends if and only if the other does.  They then end in the
same way, on the same line, and leave machines that have everything in common but, perhaps, the
slot; what was said, the sheet and the input that is left are the same.  If one of the lines that
the root has executed stored the slot, the machines have it in common as well. -/
theorem run_unread {p : Program} {x : String} (hp : p.Unread x) {a b : Machine}
    (h : a.Partners p p (· ≠ x) b) {s t : Session κ} (hs : Session.SameButLog s t) :
    ((∃ fuel answer, a.run fuel s = some answer) ↔ ∃ fuel answer, b.run fuel t = some answer) ∧
    ∀ fuel fuel' ending ending' m m' s' t', a.run fuel s = some (ending, m, s') →
      b.run fuel' t = some (ending', m', t') →
      ending' = ending ∧ m'.pc = m.pc ∧ m.Partners p p (· ≠ x) m' ∧ Session.SameButLog s' t' ∧
      ((∃ c s₁ c₁ s₂, Chain.Reaches (Chain.start a) s c s₁ ∧ c.callers = [] ∧
          c.deed.stored? = some x ∧ c.step s₁ = (.running c₁, s₂)) →
        m'.storage.find? x = m.storage.find? x) := by
  have hsim : Chain.Simulation (Chain.Paired p p (· ≠ x) id Session.SameButLog)
      (Chain.SameAnswer p p (· ≠ x) id id (Session.SameButLog (κ := κ))) fun _ => 0 :=
    Chain.unread_simulation hp fun _ => id
  have hstart : Chain.Paired p p (· ≠ x) id Session.SameButLog (Chain.start a) s
      (Chain.start b) t := .outside hs (h.goto 0 0) rfl
  obtain ⟨hends, hanswers⟩ := hsim.ends_together hstart
  rw [run_ends_iff, run_ends_iff]
  refine ⟨hends, ?_⟩
  intro fuel fuel' ending ending' m m' s' t' hrun hrun'
  obtain ⟨e, s₁, hrunFor, hclose⟩ := run_iff_runFor.1 hrun
  obtain ⟨e', t₁, hrunFor', hclose'⟩ := run_iff_runFor.1 hrun'
  have hanswer := hanswers fuel fuel' _ _ hrunFor hrunFor'
  have hpc : m'.pc = m.pc := hanswer.pc
  obtain rfl : e' = e := hanswer.ending.eq (hanswer.machines.here hpc)
  obtain ⟨hending, hs'⟩ := close_sameButLog hanswer.machines.parent hanswer.sessions e'
  rw [hclose, hclose'] at hending hs'
  refine ⟨hending, hpc, hanswer.machines, hs', ?_⟩
  rintro ⟨c, s₂, c₁, s₃, hreach, hcallers, hstored, hstep⟩
  have hcommon :=
    Chain.sameAnswer_of_stored hp hstart hreach hcallers hstored hstep hrunFor hrunFor'
  exact hcommon.machines.slots x (Or.inr rfl)

/-- A machine has all but a slot in common with what is left when the slot is erased. -/
theorem partners_erase {m : Machine} (hm : m.awaited = false) (x : String) :
    { m with storage := m.storage.erase x }.Partners m.program m.program (· ≠ x) m := by
  refine ⟨⟨rfl, rfl⟩, rfl, rfl, ?_, fun _ => rfl, rfl, hm, hm⟩
  intro key hkey
  rw [Table.find?_erase, if_neg (Ne.symm hkey)]

/-- A program that stores a slot which it does not read, and calls a subroutine that reads one of
the same name. -/
def littering : Program :=
  .ofLines "root" ["STORE junk", "LOAD y", "INC leaf", "RUN leaf", "OUT", "HALT"]

/-- A root with the program, and entries in its storage. -/
def litterer (entries : List (String × Int64)) : Machine :=
  { (ofProgram littering).accumulate 7 with storage := .ofList entries }

/-- Two roots that differ in the slot halt after saying the same, and have the same in it then. -/
theorem run_unread_littering :
    ∃ fuel m m' s' t',
      (litterer [("y", 3)]).run 20 (.inMemory [("leaf", "ADD junk\nSTORE junk\nRET")] []) =
        some (.halted, m, s') ∧
      (litterer [("junk", 9), ("y", 3)]).run fuel
        (.inMemory [("leaf", "ADD junk\nSTORE junk\nRET")] []) = some (.halted, m', t') ∧
      m'.pc = m.pc ∧ m'.accumulator = m.accumulator ∧ m.storage.find? "junk" = some 7 ∧
      m'.storage.find? "junk" = some 7 ∧
      s'.console.outputs.toList = [missingSlot "junk", .value 3] ∧
      t'.console.outputs.toList = [missingSlot "junk", .value 3] := by
  have hunread : littering.Unread "junk" := by decide +kernel
  have hpartners : (litterer [("y", 3)]).Partners littering littering (· ≠ "junk")
      (litterer [("junk", 9), ("y", 3)]) := by
    have herased : (litterer [("junk", 9), ("y", 3)]).storage.erase "junk" =
      (litterer [("y", 3)]).storage := rfl
    have h := partners_erase (m := litterer [("junk", 9), ("y", 3)]) rfl "junk"
    rw [herased] at h
    exact h
  have hrun : ((litterer [("y", 3)]).run 20
      (.inMemory [("leaf", "ADD junk\nSTORE junk\nRET")] [])).map (fun answer =>
        (answer.1.isHalted, answer.2.1.storage.find? "junk", answer.2.2.console.outputs.toList)) =
      some (true, some 7, [missingSlot "junk", .value 3]) := by decide +kernel
  obtain ⟨⟨ending, m, s'⟩, h, hanswer⟩ := Option.map_eq_some_iff.1 hrun
  simp only [Prod.mk.injEq] at hanswer
  obtain ⟨hhalted, hjunk, houtputs⟩ := hanswer
  obtain rfl := Ending.eq_of_isHalted hhalted
  obtain ⟨hends, hsame⟩ := run_unread hunread hpartners (.refl (.inMemory
    [("leaf", "ADD junk\nSTORE junk\nRET")] []))
  obtain ⟨fuel, ⟨ending', m', t'⟩, h'⟩ := hends.1 ⟨20, _, h⟩
  obtain ⟨rfl, hpc, hleft, hsessions, hstored⟩ := hsame 20 fuel _ _ m m' s' t' h h'
  -- The first line of the root stores the slot.
  obtain ⟨m₁, s₁, hline⟩ : ∃ m₁ s₁, Session.perform (.inMemory
      [("leaf", "ADD junk\nSTORE junk\nRET")] [])
        ((Chain.start (litterer [("y", 3)])).active.line "STORE junk") = (.ok (m₁, .next), s₁) :=
    ⟨_, _, rfl⟩
  have hslot := hstored ⟨Chain.start (litterer [("y", 3)]), _, _, _, .refl, rfl, by decide +kernel,
    Chain.step_of_line rfl hline⟩
  exact ⟨fuel, m, m', s', t', h, h', hpc, hleft.accumulator, hjunk, hslot.trans hjunk, houtputs,
    by rw [hsessions.console, houtputs]⟩

end Machine

end AccMachine
