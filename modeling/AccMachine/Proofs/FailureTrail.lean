/-
**The trail of a failure.**

A failure carries a location for every machine of the chain in which it arose.  The locations are
a trail through the tree that the run leaves behind: they begin at the root, each one is the line
on which a machine still stands, and each but the last is the line that called the next machine.

Main definitions:

* `Machine.Trail` — the locations lead from a machine down through its subroutines;
* `Machine.Marks` — a location belongs to a machine, and says which subroutine it called;
* `Chain.Raises` — a step of the chain fails, while these machines execute a line;
* `Ending.failure?` — the failure in which a run ended, if it did.

Main results:

* `Machine.Trail.marks` — every location of a trail belongs to the machine at its place;
* `Chain.trail_adoptAll` — the callers of a chain extend a trail outwards;
* `Machine.run_failed_trail` — **the locations of a failure are those of the chain in which it
  arose**, and a trail through the machine that the run leaves.
-/

import AccMachine.Proofs.CallChain

set_option relaxedAutoImplicit false
set_option autoImplicit false

namespace AccMachine

namespace Machine

/-! ### Trails -/

/-- `m.Trail locations`: the first location is the line on which `m` stands, and the others lead
on from a subroutine that this line calls. -/
inductive Trail : Machine → List Location → Prop
  | last {m : Machine} {text : String} (ht : m.currentLine? = some text) : Trail m [m.here]
  | call {m child : Machine} {name : String} {locations : List Location} (hline : m.CallsAt name)
      (hc : m.subroutines.find? name = some child) (hr : child.program.reference = name)
      (below : Trail child locations) : Trail m (m.here :: locations)

/-- A trail begins on the line of its machine. -/
theorem Trail.head {m : Machine} {locations : List Location} (h : m.Trail locations) :
    locations.head? = some m.here := by
  cases h <;> rfl

/-- It does not matter for a trail whether anybody waits for the machine. -/
theorem Trail.released {m : Machine} {locations : List Location} (h : m.Trail locations) :
    m.released.Trail locations := by
  cases h with
  | last ht => exact Trail.last (m := m.released) ht
  | call hline hc hr below => exact Trail.call (m := m.released) hline hc hr below

/-- `n.Marks loc next?`: the location is the line on which the machine `n` stands, and if another
location follows, then that line runs the program of it. -/
structure Marks (n : Machine) (loc : Location) (next? : Option Location) : Prop where
  reference : loc.program = n.program.reference
  line : loc.line = n.pc
  valid : n.pc < n.program.size
  text : ∃ text, n.program.line? n.pc = some text ∧ loc.text = Text.trimmed text ∧
    ∀ next, next? = some next → ∃ label,
      Line.decode (Text.wordsOf text) = .ok (.instruction ⟨label, .run, some next.program⟩)

theorem lt_size_of_currentLine? {m : Machine} {text : String} (h : m.currentLine? = some text) :
    m.pc < m.program.size :=
  (List.getElem?_eq_some_iff.1 h).1

theorem here_text {m : Machine} {text : String} (h : m.currentLine? = some text) :
    m.here.text = Text.trimmed text := by
  rw [here, h]
  rfl

/-- **Every location of a trail belongs to the machine at its place**: the programs of the locations
before it are the path that leads there. -/
theorem Trail.marks {m : Machine} {locations : List Location} (h : m.Trail locations) {i : Nat}
    {loc : Location} (hi : locations[i]? = some loc) :
    ∃ n, m.at? ((locations.tail.take i).map Location.program) = some n ∧
      n.Marks loc locations[i + 1]? := by
  induction h generalizing i with
  | @last m text ht =>
      cases i with
      | zero =>
          cases hi
          exact ⟨m, rfl, rfl, rfl, lt_size_of_currentLine? ht, text, ht, here_text ht, nofun⟩
      | succ i => cases hi
  | @call m child name locations hline hc hr below ih =>
      have hhead := below.head
      cases i with
      | zero =>
          cases hi
          obtain ⟨text, label, ht, hd⟩ := hline
          refine ⟨m, rfl, rfl, rfl, lt_size_of_currentLine? ht, text, ht, here_text ht, ?_⟩
          intro next hnext
          rw [List.getElem?_cons_succ, ← List.head?_eq_getElem?, hhead] at hnext
          cases hnext
          exact ⟨label, by rw [hd, ← hr]; rfl⟩
      | succ i =>
          -- The path to the machine is the path below the subroutine, with its name in front.
          rw [List.getElem?_cons_succ] at hi
          obtain ⟨n, hn, hmarks⟩ := ih hi
          refine ⟨n, ?_, by rwa [List.getElem?_cons_succ]⟩
          obtain ⟨rest, rfl⟩ : ∃ rest, locations = child.here :: rest := by
            cases locations with
            | nil => cases hhead
            | cons first rest =>
                cases hhead
                exact ⟨rest, rfl⟩
          rw [List.tail_cons, List.take_succ_cons, List.map_cons]
          rw [show child.here.program = name from hr, at?_cons hc]
          exact hn

end Machine

namespace Chain

/-! ### The trail of a chain -/

/-- **The callers of a chain extend a trail outwards.** -/
theorem trail_adoptAll {post : Machine.Post} {m : Machine} {callers : List Frame}
    {locations : List Location} (hfits : Fits post m callers)
    (hcalls : ∀ f ∈ callers, f.caller.CallsAt f.callee) (h : m.Trail locations) :
    (adoptAll m callers).Trail ((callers.map fun f => f.caller.here).reverse ++ locations) := by
  induction callers generalizing m locations with
  | nil => exact h
  | cons f callers ih =>
      obtain ⟨hf, hcallers⟩ := List.forall_mem_cons.1 hcalls
      have hreference : m.program.reference = f.callee := by
        cases hfits with
        | called _ declared _ _ => exact declared.reference
      have hadopted : (f.caller.adopt f.callee m).Trail (f.caller.here :: locations) :=
        Machine.Trail.call (m := f.caller.adopt f.callee m) hf (Table.find?_put_self _ _ _)
          hreference h.released
      rw [adoptAll, List.map_cons, List.reverse_cons, List.append_assoc]
      exact ih hfits.adopted hcallers hadopted

variable {κ : Type} [Console κ]

/-- `c.Raises s machines cause`: a step of the chain `c` fails with that cause while the machines,
the outermost first, are executing a line. -/
inductive Raises (c : Chain) (s : Session κ) : List Machine → Cause → Prop
  /-- The line of the active machine fails, and all machines of the chain are executing. -/
  | line {text : String} {cause : Cause} {s' : Session κ} (ht : c.active.currentLine? = some text)
      (hp : s.perform (c.active.line text) = (.error cause, s')) :
      Raises c s ((c.callers.map Frame.caller).reverse ++ [c.active]) cause
  /-- The active machine has no line left and did not return, so its caller's call fails. -/
  | lost {f : Frame} {callers : List Frame} (ht : c.active.currentLine? = none)
      (hf : c.callers = f :: callers) :
      Raises c s (c.callers.map Frame.caller).reverse (.missingReturn f.callee)

/-- A stop with a failure was raised in the chain, and its locations are a trail. -/
theorem Stop.raises {post : Machine.Post} {c : Chain} {s : Session κ} {failure : Failure}
    {m : Machine} (h : c.Stop s (.failed failure) m) (hfits : Fits post c.active c.callers)
    (hcalls : c.OnCalls) :
    ∃ machines, c.Raises s machines failure.cause ∧
      failure.locations = machines.map Machine.here ∧ m.Trail failure.locations := by
  cases h with
  | failed ht hp =>
      refine ⟨(c.callers.map Frame.caller).reverse ++ [c.active], ?_, ?_, ?_⟩
      · rw [cause_outward]
        exact Raises.line ht hp
      · rw [locations_outward]
        simp [Function.comp_def]
      · rw [locations_outward]
        exact trail_adoptAll hfits hcalls (Machine.Trail.last ht)
  | @lost f callers ht hf =>
      refine ⟨(c.callers.map Frame.caller).reverse, ?_, ?_, ?_⟩
      · rw [cause_outward]
        exact Raises.lost ht hf
      · rw [locations_outward, hf]
        simp [Function.comp_def]
      · -- The subroutine executes no line, so the trail ends at its caller.
        rw [locations_outward]
        rw [OnCalls, hf] at hcalls
        rw [hf] at hfits
        obtain ⟨⟨text, label, hline, _⟩, hcallers⟩ := List.forall_mem_cons.1 hcalls
        exact trail_adoptAll hfits.adopted hcallers
          (Machine.Trail.last (m := f.caller.adopt f.callee c.active) hline)

end Chain

/-- The failure in which a run ended, if it did. -/
def Ending.failure? : Ending → Option Failure
  | failed failure => some failure
  | _ => none

theorem Ending.eq_of_failure? {ending : Ending} {failure : Failure}
    (h : ending.failure? = some failure) : ending = .failed failure := by
  cases ending with
  | failed _ => exact congrArg failed (Option.some.inj h)
  | _ => cases h

namespace Machine

section

variable {κ : Type} [Console κ]

/-! ### The trail of a run -/

/-- **The locations of a failure are those of the chain in which it arose.**  A run of a root that
fails has either halted and was refused the sheet, which is a bare fault of a device, or a step of
a chain that it reached was the last one: then there is a location for every machine that was
executing a line, in order, and none besides; the first is the root's; and in the machine that the
run leaves, the programs of the others are a path on which each location belongs to the machine
that stands there. -/
theorem run_failed_trail {m m' : Machine} (hm : m.Rooted) {fuel : Nat} {s s' : Session κ}
    {failure : Failure} (h : m.run fuel s = some (.failed failure, m', s')) :
    (∃ c s₁ s₂ fault, Chain.Reaches (Chain.start m) s c s₁ ∧
        c.step s₁ = (.ended .halted m', s₂) ∧ s₂.writeSheet = (.error fault, s') ∧
        failure = ⟨[], .device fault⟩) ∨
      ((∃ c s₁ machines, Chain.Reaches (Chain.start m) s c s₁ ∧
          c.step s₁ = (.ended (.failed failure) m', s') ∧
          c.Raises s₁ machines failure.cause ∧
          failure.locations = machines.map Machine.here) ∧
        failure.locations.head?.map Location.program = some m.program.reference ∧
        ∀ i loc, failure.locations[i]? = some loc →
          ∃ n, m'.at? ((failure.locations.tail.take i).map Location.program) = some n ∧
            n.Marks loc failure.locations[i + 1]?) := by
  obtain ⟨c, s₁, ending, s₂, hreach, hstep, hclose⟩ := run_eq_some_iff.1 ⟨fuel, h⟩
  have hstop := Chain.stop_of_step hstep
  have hfits := hreach.fits hm.tidy.fits_start
  cases ending with
  | finished => cases hclose
  | returned => cases hclose
  | halted =>
      -- Only writing the sheet can turn a halt into a failure.
      refine Or.inl ⟨c, s₁, s₂, ?_⟩
      simp only [close] at hclose
      split at hclose
      · split at hclose
        · cases hclose
        · next fault s₃ hw =>
            cases hclose
            exact ⟨fault, hreach, hstep, hw, rfl⟩
      · cases hclose
  | failed failure =>
      cases hclose
      obtain ⟨machines, hraises, hlocations, htrail⟩ :=
        hstop.raises hfits (hreach.onCalls (Chain.onCalls_start m))
      refine Or.inr ⟨⟨c, s₁, machines, hreach, hstep, hraises, hlocations⟩, ?_, ?_⟩
      · rw [htrail.head]
        exact congrArg some (hstop.fits hfits).2.2.1
      · exact fun i loc hi => htrail.marks hi

end

/-! ### A failure deep in a recursion -/

/-- A program that calls itself until its accumulator is zero, and divides by zero then. -/
def plungeText : String :=
  "JIZERO bottom\nSUBTRACT 1\nINC plunge\nRUN plunge\nRET\nbottom DIVIDE 0"

/-- A root for the program, two calls above the division. -/
def plunge : Machine :=
  (ofProgram (.ofLines "plunge" (Source.lines plungeText))).accumulate 2

theorem rooted_plunge : plunge.Rooted := ⟨tidy_of_empty rfl, rfl, rfl⟩

/-- The trail of the division leads through three machines with the same program. -/
theorem run_failed_trail_plunge :
    ∃ failure m' s',
      plunge.run 20 (.inMemory [("plunge", plungeText)] []) = some (.failed failure, m', s') ∧
      failure.locations =
        [⟨"plunge", 3, "RUN plunge"⟩, ⟨"plunge", 3, "RUN plunge"⟩,
          ⟨"plunge", 5, "bottom DIVIDE 0"⟩] ∧
      ∀ i loc, failure.locations[i]? = some loc →
        ∃ n, m'.at? ((failure.locations.tail.take i).map Location.program) = some n ∧
          n.Marks loc failure.locations[i + 1]? := by
  have hrun : ((plunge.run 20 (.inMemory [("plunge", plungeText)] [])).bind
      fun answer => answer.1.failure?) =
        some ⟨[⟨"plunge", 3, "RUN plunge"⟩, ⟨"plunge", 3, "RUN plunge"⟩,
          ⟨"plunge", 5, "bottom DIVIDE 0"⟩], .divisionByZero⟩ := by decide +kernel
  obtain ⟨⟨ending, m', s'⟩, h, hending⟩ := Option.bind_eq_some_iff.1 hrun
  obtain rfl := Ending.eq_of_failure? hending
  refine ⟨_, m', s', h, rfl, ?_⟩
  rcases run_failed_trail rooted_plunge h with ⟨_, _, _, _, _, _, _, hbare⟩ | ⟨_, _, hmarks⟩
  · cases hbare
  · exact hmarks

end Machine

end AccMachine
