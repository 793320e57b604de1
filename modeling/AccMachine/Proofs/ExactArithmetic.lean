/-
**Arithmetic is exact modulo 2^64.**

A machine reduces every single result to 64 bits, and stores reduced values.  This makes no
difference: loads, stores, additions, subtractions and multiplications in a row leave the words that
represent the values of the same computation over the integers, reduced only once at its end.
Division does not commute with reduction, so it is exact for the words that it divides: the quotient
is rounded toward zero, and the smallest integer divided by minus one wraps around.

Main definitions:

* `Represents` — the one word that is equal to an integer modulo 2^64;
* `Unbounded.Operation` — the instructions that commute with reduction, and
  `Unbounded.Operation.OnLine`, a line of text with such an instruction;
* `Unbounded.Memory`, `Unbounded.evaluate` — the same computation over the integers;
* `Unbounded.Tracks` — a machine holds the words that represent the values of a memory.

Main results:

* `represents_iff`, `Represents.add`, `Represents.sub`, `Represents.mul` — words that represent
  integers are computed with like these;
* `Unbounded.line_yields` — **a line keeps track of its operation**;
* `Unbounded.tracks_segment` — so do any lines in a row, in any chain of calls;
* `Machine.perform_divide` — a division fails exactly if it is one by zero;
* `Machine.arithmetic_exact` — **arithmetic is exact modulo 2^64**.
-/

import AccMachine.Proofs.CallChain
import AccMachine.Proofs.Refusal
import Mathlib.Data.Int.ModEq

set_option relaxedAutoImplicit false
set_option autoImplicit false

namespace AccMachine

/-! ### Words and integers -/

/-- The word represents the integer: it is equal to it modulo 2^64, and it is the only word that
is. -/
structure Represents (v : Int64) (x : Int) : Prop where
  congruent : v.toInt ≡ x [ZMOD 2 ^ 64]
  unique : ∀ w : Int64, w.toInt ≡ x [ZMOD 2 ^ 64] → w = v

theorem toInt_modEq_iff {v : Int64} {x : Int} :
    v.toInt ≡ x [ZMOD 2 ^ 64] ↔ Int64.ofInt x = v := by
  rw [Int64.ofInt_eq_iff_bmod_eq_toInt]
  constructor
  · intro h
    -- Words are their own balanced remainders.
    calc x.bmod (2 ^ 64) = (x % (2 ^ 64 : Nat)).bmod (2 ^ 64) := (Int.emod_bmod x (2 ^ 64)).symm
      _ = (v.toInt % (2 ^ 64 : Nat)).bmod (2 ^ 64) := congrArg (Int.bmod · (2 ^ 64)) h.symm
      _ = v.toInt.bmod (2 ^ 64) := Int.emod_bmod v.toInt (2 ^ 64)
      _ = v.toInt := Int64.toInt_bmod v
  · intro h
    rw [← h]
    exact Int.bmod_emod

/-- An integer is represented by its reduction. -/
theorem represents_iff {v : Int64} {x : Int} : Represents v x ↔ Int64.ofInt x = v := by
  constructor
  · exact fun h => toInt_modEq_iff.1 h.congruent
  · rintro rfl
    exact ⟨toInt_modEq_iff.2 rfl, fun w hw => (toInt_modEq_iff.1 hw).symm⟩

theorem represents_toInt (v : Int64) : Represents v v.toInt :=
  represents_iff.2 (Int64.ofInt_toInt v)

theorem Represents.add {v w : Int64} {x y : Int} (hv : Represents v x) (hw : Represents w y) :
    Represents (v + w) (x + y) := by
  rw [represents_iff] at hv hw ⊢
  rw [Int64.ofInt_add, hv, hw]

theorem Represents.sub {v w : Int64} {x y : Int} (hv : Represents v x) (hw : Represents w y) :
    Represents (v - w) (x - y) := by
  rw [represents_iff] at hv hw ⊢
  rw [Int64.ofInt_sub, hv, hw]

theorem Represents.mul {v w : Int64} {x y : Int} (hv : Represents v x) (hw : Represents w y) :
    Represents (v * w) (x * y) := by
  rw [represents_iff] at hv hw ⊢
  rw [Int64.ofInt_mul, hv, hw]

/-- The quotient of two words represents the quotient of the integers, rounded toward zero. -/
theorem represents_div (a d : Int64) : Represents (a / d) (a.toInt.tdiv d.toInt) := by
  rw [represents_iff, Int64.ofInt_tdiv a.minValue_le_toInt a.toInt_le d.minValue_le_toInt
    d.toInt_le, Int64.ofInt_toInt, Int64.ofInt_toInt]

namespace Unbounded

/-! ### Computing with integers -/

/-- The arithmetic instructions that commute with reduction. -/
inductive Combination where
  | add
  | subtract
  | multiply
  deriving DecidableEq

/-- The instructions that commute with reduction. -/
inductive Operation where
  | load (x : Operand)
  | store (key : String)
  /-- Combines the accumulator with an operand. -/
  | combine (op : Combination) (x : Operand)
  deriving DecidableEq

def Combination.mnemonic : Combination → Mnemonic
  | add => .add
  | subtract => .subtract
  | multiply => .multiply

def Combination.apply (x y : Int) : Combination → Int
  | add => x + y
  | subtract => x - y
  | multiply => x * y

namespace Operation

def mnemonic : Operation → Mnemonic
  | load _ => .load
  | store _ => .store
  | combine op _ => op.mnemonic

/-- The text is read as the operand of the operation.  A store takes any text for the name of its
slot. -/
def Reads (operand : String) : Operation → Prop
  | load x => Operand.ofText operand = x
  | store key => operand = key
  | combine _ x => Operand.ofText operand = x

/-- The line of text carries the operation, with or without a label. -/
def OnLine (op : Operation) (text : String) : Prop :=
  ∃ label operand, Line.decode (Text.wordsOf text) =
    .ok (.instruction ⟨label, op.mnemonic, some operand⟩) ∧ op.Reads operand

end Operation

/-- The operations stand on the lines of the program, one after another, from the index on. -/
def Written (p : Program) (start : Nat) (ops : List Operation) : Prop :=
  ∀ i op, ops[i]? = some op → ∃ text, p.line? (start + i) = some text ∧ op.OnLine text

theorem Written.tail {p : Program} {start : Nat} {op : Operation} {ops : List Operation}
    (h : Written p start (op :: ops)) : Written p (start + 1) ops := by
  intro i op' hop'
  obtain ⟨text, ht, hline⟩ := h (i + 1) op' hop'
  exact ⟨text, by rwa [Nat.add_assoc, Nat.add_comm 1 i], hline⟩

/-- An accumulator and the slots that were stored, all of them integers. -/
structure Memory where
  accumulator : Int
  slots : String → Option Int

namespace Memory

/-- What a machine holds, as integers. -/
def of (m : Machine) : Memory :=
  ⟨m.accumulator.toInt, fun key => (m.storage.find? key).map Int64.toInt⟩

/-- The value of an operand; a slot that was never stored holds zero. -/
def value (σ : Memory) : Operand → Int
  | .literal v => v.toInt
  | .slot key => (σ.slots key).getD 0

end Memory

/-- The memory after an operation.  Nothing is reduced. -/
def Operation.apply (σ : Memory) : Operation → Memory
  | load x => { σ with accumulator := σ.value x }
  | store key =>
    { σ with slots := fun key' => if key = key' then some σ.accumulator else σ.slots key' }
  | combine op x => { σ with accumulator := op.apply σ.accumulator (σ.value x) }

/-- The memory after operations in a row. -/
def evaluate (σ : Memory) (ops : List Operation) : Memory := ops.foldl Operation.apply σ

/-! ### Machines that keep track -/

/-- The accumulator of the machine and its slots represent the values of the memory, and it is the
same slots that were stored. -/
structure Tracks (m : Machine) (σ : Memory) : Prop where
  accumulator : Represents m.accumulator σ.accumulator
  slots : ∀ key, Option.Rel Represents (m.storage.find? key) (σ.slots key)

theorem tracks_of (m : Machine) : Tracks m (.of m) := by
  refine ⟨represents_toInt _, fun key => ?_⟩
  simp only [Memory.of]
  cases m.storage.find? key with
  | none => exact .none
  | some v => exact .some (represents_toInt v)

theorem Tracks.congr {m n : Machine} {σ : Memory} (h : Tracks m σ)
    (haccumulator : n.accumulator = m.accumulator) (hstorage : n.storage = m.storage) :
    Tracks n σ := by
  constructor
  · rw [haccumulator]
    exact h.accumulator
  · rw [hstorage]
    exact h.slots

theorem Tracks.slot {m : Machine} {σ : Memory} (h : Tracks m σ) (key : String) :
    Represents (m.slot key) ((σ.slots key).getD 0) := by
  have hslot := h.slots key
  rw [Machine.slot]
  cases hm : m.storage.find? key <;> cases hσ : σ.slots key <;> rw [hm, hσ] at hslot
  · exact represents_iff.2 rfl
  · cases hslot
  · cases hslot
  · cases hslot with
    | some hv => exact hv

theorem Tracks.valueOf {m : Machine} {σ : Memory} (h : Tracks m σ) (operand : String) :
    Represents (m.valueOf operand) (σ.value (Operand.ofText operand)) := by
  unfold Machine.valueOf
  split
  · next v ho =>
      rw [ho]
      exact represents_toInt v
  · next key ho =>
      rw [ho]
      exact h.slot key

theorem Tracks.accumulate {m : Machine} {σ : Memory} (h : Tracks m σ) {v : Int64} {x : Int}
    (hv : Represents v x) : Tracks (m.accumulate v) { σ with accumulator := x } :=
  ⟨hv, h.slots⟩

theorem Tracks.store {m : Machine} {σ : Memory} (h : Tracks m σ) (key : String) :
    Tracks { m with storage := m.storage.put key m.accumulator }
      ((Operation.store key).apply σ) := by
  refine ⟨h.accumulator, fun key' => ?_⟩
  simp only [Operation.apply, Table.find?_put]
  split
  · exact .some h.accumulator
  · exact h.slots key'

/-! ### A line keeps track of its operation -/

theorem combine_yields {m : Machine} {σ : Memory} (h : Tracks m σ) (op : Combination)
    (operand : String) :
    (m.execute op.mnemonic operand).Yields fun r => r.2 = .next ∧
      Tracks r.1 ((Operation.combine op (Operand.ofText operand)).apply σ) := by
  have hvalue := h.valueOf operand
  cases op with
  | add =>
      refine (m.checkedValue_yields operand).bind fun v hv => ⟨rfl, ?_⟩
      subst hv
      exact h.accumulate (h.accumulator.add hvalue)
  | subtract =>
      refine (m.checkedValue_yields operand).bind fun v hv => ⟨rfl, ?_⟩
      subst hv
      exact h.accumulate (h.accumulator.sub hvalue)
  | multiply =>
      refine (m.checkedValue_yields operand).bind fun v hv => ⟨rfl, ?_⟩
      subst hv
      exact h.accumulate (h.accumulator.mul hvalue)

/-- **A line keeps track of its operation**, and control goes on to the next line. -/
theorem line_yields {m : Machine} {σ : Memory} (h : Tracks m σ) {op : Operation} {text : String}
    (hop : op.OnLine text) :
    (m.line text).Yields fun r => r.2 = .next ∧ Tracks r.1 (op.apply σ) := by
  obtain ⟨label, operand, hd, hreads⟩ := hop
  have hobey : m.obeyWords (Text.wordsOf text) = m.execute op.mnemonic operand := by
    simp only [Machine.obeyWords_def, hd, Machine.obey_def]
  change (m.obeyWords (Text.wordsOf text)).Yields _
  rw [hobey]
  cases op with
  | load x =>
      obtain rfl : Operand.ofText operand = x := hreads
      exact ⟨rfl, h.accumulate (h.valueOf operand)⟩
  | store key =>
      obtain rfl : operand = key := hreads
      exact ⟨rfl, h.store operand⟩
  | combine op x =>
      obtain rfl : Operand.ofText operand = x := hreads
      exact combine_yields h op operand

section

variable {κ : Type} [Console κ]

/-- A line with an operation fails only if the console refuses an output. -/
theorem refused_of_perform {m : Machine} {op : Operation} {text : String} (hop : op.OnLine text)
    {s s' : Session κ} {cause : Cause} (h : s.perform (m.line text) = (.error cause, s')) :
    ∃ fault console output, cause = .device fault ∧
      Console.emit console output = (.error fault, s'.console) := by
  obtain ⟨label, operand, hd, -⟩ := hop
  cases Machine.lineRefusal_of_perform h with
  | untraced _ he => exact ⟨_, _, _, rfl, he⟩
  | unreadable hd' =>
      rw [hd] at hd'
      cases hd'
  | missingOperand hd' ho _ =>
      rw [hd] at hd'
      cases hd'
      cases ho
  | @obey i _ _ hd' _ hr =>
      rw [hd] at hd'
      cases hd'
      -- No other refusal is one of these instructions.
      rcases op with _ | _ | ⟨_ | _ | _⟩ <;> cases hr with
      | emit _ he => exact ⟨_, _, _, rfl, he⟩
      | label hj _ _ => cases hj

/-- **Lines with operations keep track of them**, in any chain of calls, up to the first line that
the console refuses. -/
theorem tracks_segment {ops : List Operation} {m : Machine} {σ : Memory} (hm : Tracks m σ)
    (hops : Written m.program m.pc ops) (callers : List Frame) (s : Session κ) :
    ∃ k m' s', k ≤ ops.length ∧ Chain.Reaches ⟨m, callers⟩ s ⟨m', callers⟩ s' ∧
      m'.program = m.program ∧ m'.pc = m.pc + k ∧ Tracks m' (evaluate σ (ops.take k)) ∧
      (k = ops.length ∨ k < ops.length ∧ ∃ text fault s'' console output,
        m'.currentLine? = some text ∧
        s'.perform (m'.line text) = (.error (.device fault), s'') ∧
        Console.emit console output = (.error fault, s''.console)) := by
  induction ops generalizing m σ s with
  | nil => exact ⟨0, m, s, Nat.le_refl _, .refl, rfl, rfl, hm, Or.inl rfl⟩
  | cons op ops ih =>
      obtain ⟨text, ht, hop⟩ := hops 0 op rfl
      rcases hp : s.perform (m.line text) with ⟨cause | ⟨m₁, flow⟩, s₁⟩
      · obtain ⟨fault, console, output, rfl, he⟩ := refused_of_perform hop hp
        exact ⟨0, m, s, Nat.zero_le _, .refl, rfl, rfl, hm,
          Or.inr ⟨Nat.succ_pos _, text, fault, s₁, console, output, ht, hp, he⟩⟩
      · obtain ⟨rfl, hm₁⟩ := Session.perform_yields (line_yields hm hop) hp
        obtain ⟨hprogram, -, hpc⟩ := (Machine.perform_line hp).kept
        have hstep : Chain.step ⟨m, callers⟩ s = (.running ⟨m₁.advance, callers⟩, s₁) :=
          Chain.step_of_line (c := ⟨m, callers⟩) ht hp
        have hrest : Written m₁.advance.program m₁.advance.pc ops := by
          change Written m₁.program (m₁.pc + 1) ops
          rw [hprogram, hpc]
          exact hops.tail
        have hadvance : Tracks m₁.advance (op.apply σ) := hm₁.congr rfl rfl
        obtain ⟨k, m', s', hk, hreach, hprogram', hpc', htracks, hend⟩ := ih hadvance hrest s₁
        refine ⟨k + 1, m', s', Nat.succ_le_succ hk, hreach.head hstep, hprogram'.trans hprogram, ?_,
          htracks, ?_⟩
        · rw [hpc']
          change m₁.pc + 1 + k = m.pc + (k + 1)
          omega
        · exact hend.imp (congrArg (· + 1)) fun ⟨hlt, hrefused⟩ => ⟨Nat.succ_lt_succ hlt, hrefused⟩

/-- A program that consists of operations finishes with the memory after them, unless the console
refuses an output. -/
theorem run_written {m : Machine} {ops : List Operation} (hops : Written m.program 0 ops)
    (hsize : ops.length = m.program.size) (s : Session κ) :
    ∃ fuel k ending m' s', m.run fuel s = some (ending, m', s') ∧ m'.pc = k ∧
      Tracks m' (evaluate (.of m) (ops.take k)) ∧
      (k = ops.length ∧ ending = .finished ∨
        k < ops.length ∧ ∃ fault console output,
          Console.emit console output = (.error fault, s'.console) ∧
          ending = .failed ⟨[m'.here], .device fault⟩) := by
  obtain ⟨k, m', s', -, hreach, hprogram, hpc, htracks, hend⟩ :=
    tracks_segment (m := m.goto 0) ((tracks_of m).congr rfl rfl) hops [] s
  replace hpc : m'.pc = k := hpc.trans (Nat.zero_add k)
  rcases hend with hk | ⟨hlt, text, fault, s'', console, output, ht, hp, he⟩
  · have hspent : m'.currentLine? = none := by
      refine List.getElem?_eq_none_iff.2 (Nat.le_of_eq ?_)
      rw [hprogram, hpc, hk, hsize]
      rfl
    obtain ⟨fuel, hrun⟩ := Machine.run_eq_some_iff.2 ⟨_, s', .finished, s', hreach,
      Chain.step_of_none (c := ⟨m', []⟩) hspent s', rfl⟩
    exact ⟨fuel, k, _, m', s', hrun, hpc, htracks, Or.inl ⟨hk, rfl⟩⟩
  · obtain ⟨fuel, hrun⟩ := Machine.run_eq_some_iff.2 ⟨_, s', .failed ⟨[m'.here], .device fault⟩,
      s'', hreach, Chain.step_of_line (c := ⟨m', []⟩) ht hp, rfl⟩
    exact ⟨fuel, k, _, m', s'', hrun, hpc, htracks,
      Or.inr ⟨hlt, fault, console, output, he, rfl⟩⟩

end

end Unbounded

/-! ### Division -/

/-- The remainder of a division that rounds toward zero: it is smaller than the divisor, and it is
zero or has the sign of the dividend. -/
theorem exists_remainder (a : Int64) {d : Int64} (hd : d ≠ 0) :
    ∃ r : Int, (a / d).toInt * d.toInt + r ≡ a.toInt [ZMOD 2 ^ 64] ∧
      r.natAbs < d.toInt.natAbs ∧ (r = 0 ∨ r.sign = a.toInt.sign) := by
  have hpos : 0 < d.toInt.natAbs := by
    refine Int.natAbs_pos.2 fun hzero => hd ?_
    exact Int64.toInt_inj.1 hzero
  refine ⟨a.toInt.tmod d.toInt, ?_, ?_, ?_⟩
  · calc (a / d).toInt * d.toInt + a.toInt.tmod d.toInt
        ≡ a.toInt.tdiv d.toInt * d.toInt + a.toInt.tmod d.toInt [ZMOD 2 ^ 64] :=
          ((represents_div a d).congruent.mul_right _).add_right _
      _ = a.toInt := Int.tdiv_mul_add_tmod a.toInt d.toInt
  · rw [Int.natAbs_tmod]
    exact Nat.mod_lt _ hpos
  · have hsign := Int.sign_tmod a.toInt d.toInt
    split at hsign
    · exact Or.inl (Int.sign_eq_zero_iff_zero.1 hsign)
    · exact Or.inr hsign

namespace Machine

variable {κ : Type} [Console κ]

omit [Console κ] in
/-- Nothing is said about an operand that is not zero. -/
theorem checkedValue_of_ne_zero {m : Machine} {operand : String} (h : m.valueOf operand ≠ 0) :
    m.checkedValue operand = .done (m.valueOf operand) := by
  cases ho : Operand.ofText operand with
  | literal value => simp only [checkedValue, valueOf, ho]
  | slot key =>
      simp only [valueOf, slot, ho] at h
      cases hs : m.storage.find? key with
      | none =>
          rw [hs] at h
          exact absurd rfl h
      | some value => simp only [checkedValue, valueOf, slot, ho, hs, Option.getD_some]

/-- **A division fails exactly if it is one by zero**; otherwise nothing is said, and only the
accumulator changes. -/
theorem perform_divide (m : Machine) (s : Session κ) (operand : String) :
    (m.valueOf operand = 0 ∧
      ∃ cause s', s.perform (m.execute .divide operand) = (.error cause, s')) ∨
    (m.valueOf operand ≠ 0 ∧ s.perform (m.execute .divide operand) =
      (.ok (m.accumulate (m.accumulator / m.valueOf operand), .next), s)) := by
  have hexecute : m.execute .divide operand = (m.checkedValue operand).bind fun value =>
      if value = 0 then .fail .divisionByZero
      else .done (m.accumulate (m.accumulator / value), .next) := by
    rw [execute_def, division_def]
    rfl
  by_cases hzero : m.valueOf operand = 0
  · refine Or.inl ⟨hzero, ?_⟩
    rw [hexecute, Session.perform_bind]
    -- If the warning about a slot that was never stored is refused, that is the failure.
    rcases hvalue : s.perform (m.checkedValue operand) with ⟨cause | value, s₁⟩
    · exact ⟨cause, s₁, rfl⟩
    · obtain rfl : value = m.valueOf operand :=
        Session.perform_yields (m.checkedValue_yields operand) hvalue
      exact ⟨.divisionByZero, s₁, by simp only [if_pos hzero, Session.perform]⟩
  · refine Or.inr ⟨hzero, ?_⟩
    rw [hexecute, checkedValue_of_ne_zero hzero, Session.perform_bind]
    simp only [Session.perform, if_neg hzero]

/-! ### Exact arithmetic -/

/-- **Arithmetic is exact modulo 2^64.**

Let loads, stores, additions, subtractions and multiplications stand on lines in a row, from the
program counter of a machine on, whatever it holds and whoever waits for it.  Then the machine
executes them one after another, and after each it holds the words that represent the values of the
same operations over the integers; only the console can stop it, by refusing an entry of the trace
or a warning.  If the program consists of such lines, its run finishes behind them.

A division fails exactly if the value of its operand is zero.  Otherwise the accumulator becomes the
word that represents the quotient rounded toward zero, with a remainder that is smaller than the
divisor and zero or of the sign of the dividend; nothing else changes. -/
theorem arithmetic_exact (m : Machine) (s : Session κ) :
    (∀ ops callers, Unbounded.Written m.program m.pc ops →
      ∃ k m' s', k ≤ ops.length ∧ Chain.Reaches ⟨m, callers⟩ s ⟨m', callers⟩ s' ∧
        m'.program = m.program ∧ m'.pc = m.pc + k ∧
        Unbounded.Tracks m' (Unbounded.evaluate (.of m) (ops.take k)) ∧
        (k = ops.length ∨ k < ops.length ∧ ∃ text fault s'' console output,
          m'.currentLine? = some text ∧
          s'.perform (m'.line text) = (.error (.device fault), s'') ∧
          Console.emit console output = (.error fault, s''.console))) ∧
    (∀ ops, Unbounded.Written m.program 0 ops → ops.length = m.program.size →
      ∃ fuel k ending m' s', m.run fuel s = some (ending, m', s') ∧ m'.pc = k ∧
        Unbounded.Tracks m' (Unbounded.evaluate (.of m) (ops.take k)) ∧
        (k = ops.length ∧ ending = .finished ∨
          k < ops.length ∧ ∃ fault console output,
            Console.emit console output = (.error fault, s'.console) ∧
            ending = .failed ⟨[m'.here], .device fault⟩)) ∧
    ∀ fuel operand,
      ((∃ failure m' s', m.dispatch fuel s .divide operand = some (.error failure, m', s')) ↔
        m.valueOf operand = 0) ∧
      (m.valueOf operand ≠ 0 → ∃ q : Int64, ∃ r : Int,
        m.dispatch fuel s .divide operand = some (.ok .next, m.accumulate q, s) ∧
        Represents q (m.accumulator.toInt.tdiv (m.valueOf operand).toInt) ∧
        q.toInt * (m.valueOf operand).toInt + r ≡ m.accumulator.toInt [ZMOD 2 ^ 64] ∧
        r.natAbs < (m.valueOf operand).toInt.natAbs ∧
        (r = 0 ∨ r.sign = m.accumulator.toInt.sign)) := by
  refine ⟨fun ops callers hops => Unbounded.tracks_segment (Unbounded.tracks_of m) hops callers s,
    fun ops hops hsize => Unbounded.run_written hops hsize s, fun fuel operand => ?_⟩
  rcases m.perform_divide s operand with ⟨hzero, cause, s', hp⟩ | ⟨hzero, hp⟩
  · have hdispatch : m.dispatch fuel s .divide operand = some (.error ⟨[], cause⟩, m, s') := by
      simp only [dispatch_def, hp]
    exact ⟨⟨fun _ => hzero, fun _ => ⟨_, m, s', hdispatch⟩⟩, fun hne => absurd hzero hne⟩
  · have hdispatch : m.dispatch fuel s .divide operand =
        some (.ok .next, m.accumulate (m.accumulator / m.valueOf operand), s) := by
      simp only [dispatch_def, hp]
    refine ⟨⟨?_, fun h => absurd h hzero⟩, fun _ => ?_⟩
    · rintro ⟨failure, m', s', hfailed⟩
      rw [hdispatch] at hfailed
      cases hfailed
    · obtain ⟨r, hr⟩ := exists_remainder m.accumulator hzero
      exact ⟨_, r, hdispatch, represents_div _ _, hr⟩

/-- A root with the largest integer in its accumulator, whose program overflows twice. -/
def overrun : Machine :=
  { ofProgram (.ofLines "main" ["ADD 1", "STORE y", "square: MULTIPLY y", "SUBTRACT z"]) with
    accumulator := Int64.maxValue
    storage := Table.ofList [("z", 3)] }

/-- The square of 2^63, less three, is computed exactly modulo 2^64.  The smallest integer divided
by minus one stays as it is. -/
theorem arithmetic_exact_overrun :
    ∃ fuel m' s', overrun.run fuel (.inMemory [] []) = some (.finished, m', s') ∧
      Represents m'.accumulator (2 ^ 126 - 3) ∧ m'.accumulator = -3 ∧
      Option.Rel Represents (m'.storage.find? "y") (some (2 ^ 63)) ∧
      ∃ r : Int, (m'.accumulate Int64.minValue).dispatch 0 (.inMemory [] []) .divide "-1" =
          some (.ok .next, m'.accumulate Int64.minValue, .inMemory [] []) ∧
        Int64.minValue.toInt * (-1) + r ≡ Int64.minValue.toInt [ZMOD 2 ^ 64] ∧ r.natAbs < 1 := by
  let ops : List Unbounded.Operation :=
    [.combine .add (.literal 1), .store "y", .combine .multiply (.slot "y"),
      .combine .subtract (.slot "z")]
  have hops : Unbounded.Written overrun.program 0 ops := by
    intro i op hop
    match i with
    | 0 =>
        cases hop
        exact ⟨"ADD 1", rfl, none, "1", rfl, rfl⟩
    | 1 =>
        cases hop
        exact ⟨"STORE y", rfl, none, "y", rfl, rfl⟩
    | 2 =>
        cases hop
        exact ⟨"square: MULTIPLY y", rfl, some "square:", "y", rfl, rfl⟩
    | 3 =>
        cases hop
        exact ⟨"SUBTRACT z", rfl, none, "z", rfl, rfl⟩
    | _ + 4 => cases hop
  obtain ⟨-, hruns, -⟩ := arithmetic_exact overrun (.inMemory [] [])
  obtain ⟨fuel, k, ending, m', s', hrun, -, htracks, hend⟩ := hruns ops hops rfl
  rcases hend with ⟨rfl, rfl⟩ | ⟨-, fault, console, output, hrefused, -⟩
  · have haccumulator : Represents m'.accumulator (2 ^ 126 - 3) := htracks.accumulator
    obtain ⟨-, -, hdivision⟩ :=
      arithmetic_exact (m'.accumulate Int64.minValue) (.inMemory [] [])
    have hvalue : (m'.accumulate Int64.minValue).valueOf "-1" = -1 := rfl
    obtain ⟨q, r, hdispatch, hq, hr, hlt, -⟩ :=
      (hdivision 0 "-1").2 (by rw [hvalue]; decide)
    rw [hvalue] at hq hr hlt
    obtain rfl : Int64.minValue = q := represents_iff.1 hq
    exact ⟨fuel, m', s', hrun, haccumulator, (represents_iff.1 haccumulator).symm,
      htracks.slots "y", r, hdispatch, hr, hlt⟩
  · have haccepted : (Console.emit console output).1 = .ok () := rfl
    rw [hrefused] at haccepted
    cases haccepted

end Machine

end AccMachine
