/-
**Straight-line programs compute what they say.**

A program without jumps and calls is a list of operations.  It can be evaluated without a machine:
an accumulator and a store of slots are carried through the list, with exact integer arithmetic that
is brought back to 64 bits, until a division by zero stops the evaluation.  Written down, one
operation on a line with a halt at the end, and loaded into a fresh root, the list runs to exactly
that result.  The only thing that is said meanwhile is a warning for every arithmetic operation
on a slot that no earlier operation has stored.

Main definitions:

* `Arithmetic`, `Bitwise`, `Operation` — the operations;
* `Operation.WellNamed` — its slot, if it has one, has the name of a slot;
* `Operation.text`, `sourceText` — an operation as a line, and a program as a text;
* `Memory`, `evaluate` — the reference evaluation;
* `unstored` — the slots that are used before they are stored;
* `Holds` — a machine holds the memory of the evaluation.

Main results:

* `Operation.wordsOf_text`, `lines_sourceText` — operations that were written down are read back;
* `perform_operation` — a line does what its operation says;
* `runFor_operations` — so does the rest of a program;
* `run_sourceText` — **a straight-line program runs as it is evaluated**, from its text.
-/

import AccMachine.Proofs.Rereading
import AccMachine.Proofs.TraceModes

set_option relaxedAutoImplicit false
set_option autoImplicit false

namespace AccMachine.StraightLine

/-! ### Operations -/

/-- The arithmetic operations. -/
inductive Arithmetic where
  | add
  | subtract
  | multiply
  | divide
  deriving DecidableEq

/-- The operations that work bit by bit. -/
inductive Bitwise where
  | xor
  | or
  | and
  | andNot
  deriving DecidableEq

/-- One operation of a straight-line program. -/
inductive Operation where
  | load (x : Operand)
  | store (key : String)
  /-- Combines the accumulator with an operand. -/
  | calculate (op : Arithmetic) (x : Operand)
  /-- Combines the accumulator bit by bit with a slot. -/
  | combine (op : Bitwise) (key : String)
  deriving DecidableEq

def Arithmetic.mnemonic : Arithmetic → Mnemonic
  | add => .add
  | subtract => .subtract
  | multiply => .multiply
  | divide => .divide

def Bitwise.mnemonic : Bitwise → Mnemonic
  | xor => .xor
  | or => .or
  | and => .and
  | andNot => .andNot

namespace Operation

def mnemonic : Operation → Mnemonic
  | load _ => .load
  | store _ => .store
  | calculate op _ => op.mnemonic
  | combine op _ => op.mnemonic

def operand : Operation → Operand
  | load x => x
  | store key => .slot key
  | calculate _ x => x
  | combine _ key => .slot key

/-- The line on which an operation is written. -/
def text (op : Operation) : String := op.mnemonic.text ++ " " ++ op.operand.text

end Operation

/-- The line at the end of a program. -/
def lastLine : String := Mnemonic.halt.text

/-- The text in which the operations are written, one on a line, with a halt at the end. -/
def sourceText (ops : List Operation) : String :=
  "\n".intercalate (ops.map Operation.text ++ [lastLine])

/-- The fresh root of the program that consists of these operations and a halt. -/
def root (reference : String) (ops : List Operation) : Machine :=
  .ofProgram (.ofLines reference (ops.map Operation.text ++ [lastLine]))

/-! ### Names of slots -/

/-- The name of a slot: a word without a semicolon that is no integer.  It may be spelled like an
instruction or a label. -/
structure SlotName (key : String) : Prop where
  isWord : Text.IsWord key
  no_comment : ';' ∉ key.toList
  not_integer : ∀ value, Decimal.parse key ≠ .ok value

/-- The slot of the operation, if it has one, has the name of a slot. -/
def Operation.WellNamed (op : Operation) : Prop := ∀ key, op.operand = .slot key → SlotName key

/-! ### The reference evaluation -/

/-- What an evaluation carries along: the accumulator, and the slots that were stored. -/
structure Memory where
  accumulator : Int64
  slots : String → Option Int64

namespace Memory

/-- The memory before the first operation. -/
def initial : Memory := ⟨0, fun _ => none⟩

/-- What a slot holds; one that was never stored holds zero. -/
def slot (σ : Memory) (key : String) : Int64 := (σ.slots key).getD 0

/-- The value of an operand. -/
def value (σ : Memory) : Operand → Int64
  | .literal v => v
  | .slot key => σ.slot key

end Memory

/-- The exact result, brought back to 64 bits; quotients are rounded toward zero. -/
def Arithmetic.apply (op : Arithmetic) (a b : Int64) : Int64 :=
  match op with
  | add => Int64.ofInt (a.toInt + b.toInt)
  | subtract => Int64.ofInt (a.toInt - b.toInt)
  | multiply => Int64.ofInt (a.toInt * b.toInt)
  | divide => Int64.ofInt (a.toInt.tdiv b.toInt)

def Bitwise.apply (op : Bitwise) (a b : Int64) : Int64 :=
  match op with
  | xor => a ^^^ b
  | or => a ||| b
  | and => a &&& b
  | andNot => a &&& ~~~b

namespace Operation

/-- Whether the operation divides by zero. -/
def dividesByZero (σ : Memory) : Operation → Bool
  | calculate .divide x => σ.value x = 0
  | _ => false

/-- The memory after an operation. -/
def apply (σ : Memory) : Operation → Memory
  | load x => { σ with accumulator := σ.value x }
  | store key =>
    { σ with slots := fun key' => if key = key' then some σ.accumulator else σ.slots key' }
  | calculate op x => { σ with accumulator := op.apply σ.accumulator (σ.value x) }
  | combine op key => { σ with accumulator := op.apply σ.accumulator (σ.slot key) }

/-- The slot that an arithmetic operation uses although it is none of those that were stored. -/
def unstored (stored : List String) : Operation → List String
  | calculate _ (.slot key) => if key ∈ stored then [] else [key]
  | _ => []

/-- The slot that the operation stores. -/
def stores : Operation → List String
  | store key => [key]
  | _ => []

end Operation

/-- Evaluates the operations in order.  A division by zero stops the evaluation; then the result is
the index of that operation with the memory before it. -/
def evaluate (σ : Memory) : List Operation → Except (Nat × Memory) Memory
  | [] => .ok σ
  | op :: ops =>
    if op.dividesByZero σ then .error (0, σ)
    else (evaluate (op.apply σ) ops).mapError fun stopped => (stopped.1 + 1, stopped.2)

/-- The slots that arithmetic operations use without an earlier operation having stored them, one
for every such operation; those in `stored` were stored before. -/
def unstored (stored : List String) : List Operation → List String
  | [] => []
  | op :: ops => op.unstored stored ++ unstored (op.stores ++ stored) ops

/-! ### Written operations are read back -/

namespace Operation

theorem operand_text {op : Operation} (h : op.WellNamed) :
    Text.IsWord op.operand.text ∧ ';' ∉ op.operand.text.toList ∧
      Operand.ofText op.operand.text = op.operand := by
  cases hx : op.operand with
  | literal v =>
      exact ⟨Decimal.isWord_render v, Decimal.semicolon_not_mem_render v, Operand.ofText_render v⟩
  | slot key =>
      obtain ⟨hword, hcomment, hinteger⟩ := h key hx
      refine ⟨hword, hcomment, Operand.ofText_eq_slot_iff.2 ⟨rfl, ?_⟩⟩
      cases hp : Decimal.parse key with
      | error flaw => exact ⟨flaw, hp⟩
      | ok value => exact absurd hp (hinteger value)

/-- The words of a line are the mnemonic and the operand of its operation. -/
theorem wordsOf_text {op : Operation} (h : op.WellNamed) :
    Text.wordsOf op.text = [op.mnemonic.text, op.operand.text] :=
  Text.wordsOf_pair op.mnemonic.isWord (operand_text h).1

theorem trimmed_text {op : Operation} (h : op.WellNamed) : Text.trimmed op.text = op.text :=
  Text.trimmed_pair op.mnemonic.isWord (operand_text h).1

theorem plain_text {op : Operation} (h : op.WellNamed) : Source.Plain op.text := by
  obtain ⟨hword, hcomment, -⟩ := operand_text h
  exact Source.plain_pair op.mnemonic.isWord hword op.mnemonic.semicolon_not_mem hcomment

end Operation

/-- The lines of a program are read back from its text. -/
theorem lines_sourceText {ops : List Operation} (h : ∀ op ∈ ops, op.WellNamed) :
    Source.lines (sourceText ops) = ops.map Operation.text ++ [lastLine] := by
  refine Source.lines_intercalate ?_ (by decide)
  intro line hline
  rcases List.mem_append.1 hline with hline | hline
  · obtain ⟨op, hop, rfl⟩ := List.mem_map.1 hline
    exact Operation.plain_text (h op hop)
  · obtain rfl := List.mem_singleton.1 hline
    exact Source.plain_word Mnemonic.halt.isWord Mnemonic.halt.semicolon_not_mem

/-! ### Machines that hold the memory of an evaluation -/

/-- The machine holds the memory, and `stored` lists the slots that were stored. -/
structure Holds (m : Machine) (σ : Memory) (stored : List String) : Prop where
  accumulator : m.accumulator = σ.accumulator
  slots : ∀ key, m.storage.find? key = σ.slots key
  stored : ∀ key, key ∈ stored ↔ (σ.slots key).isSome

theorem Holds.slot {m : Machine} {σ : Memory} {stored : List String} (h : Holds m σ stored)
    (key : String) : m.slot key = σ.slot key := by
  rw [Machine.slot, Memory.slot, h.slots]

theorem Holds.valueOf {m : Machine} {σ : Memory} {stored : List String} (h : Holds m σ stored)
    {op : Operation} (hop : op.WellNamed) :
    m.valueOf op.operand.text = σ.value op.operand := by
  rw [Machine.valueOf, (Operation.operand_text hop).2.2]
  cases op.operand with
  | literal v => rfl
  | slot key => exact h.slot key

/-- A new accumulator is held. -/
theorem Holds.accumulate {m : Machine} {σ : Memory} {stored : List String} (h : Holds m σ stored)
    (value : Int64) : Holds (m.accumulate value) { σ with accumulator := value } stored :=
  ⟨rfl, h.slots, h.stored⟩

/-- So is a new value of a slot. -/
theorem Holds.store {m : Machine} {σ : Memory} {stored : List String} (h : Holds m σ stored)
    (key : String) :
    Holds { m with storage := m.storage.put key m.accumulator } ((Operation.store key).apply σ)
      (key :: stored) := by
  refine ⟨h.accumulator, ?_, ?_⟩
  · intro key'
    simp only [Operation.apply, Table.find?_put, h.slots, h.accumulator]
  · intro key'
    simp only [Operation.apply, List.mem_cons, h.stored]
    by_cases hkey : key = key'
    · simp [hkey]
    · simp [hkey, Ne.symm hkey]

/-! ### A line does what its operation says -/

theorem Arithmetic.apply_add (a b : Int64) : add.apply a b = a + b := by
  rw [apply, Int64.ofInt_add, Int64.ofInt_toInt, Int64.ofInt_toInt]

theorem Arithmetic.apply_subtract (a b : Int64) : subtract.apply a b = a - b := by
  rw [apply, Int64.ofInt_sub, Int64.ofInt_toInt, Int64.ofInt_toInt]

theorem Arithmetic.apply_multiply (a b : Int64) : multiply.apply a b = a * b := by
  rw [apply, Int64.ofInt_mul, Int64.ofInt_toInt, Int64.ofInt_toInt]

theorem Arithmetic.apply_divide (a b : Int64) : divide.apply a b = a / b := by
  rw [apply, Int64.ofInt_tdiv a.minValue_le_toInt a.toInt_le b.minValue_le_toInt b.toInt_le,
    Int64.ofInt_toInt, Int64.ofInt_toInt]

/-- The words of a mnemonic and of an operand are that instruction. -/
theorem obeyWords_pair (m : Machine) (mnemonic : Mnemonic) (operand : String) :
    m.obeyWords [mnemonic.text, operand] = m.execute mnemonic operand := by
  have hdecode : Line.decode [mnemonic.text, operand] =
      .ok (.instruction ⟨none, mnemonic, some operand⟩) := by
    simp [Line.decode, Line.withOperand, Mnemonic.ofText?_text]
  simp only [Machine.obeyWords_def, hdecode, Machine.obey_def]

section Console

variable {κ : Type} [Console κ]

/-- The session that is left when nothing but these outputs was said in between. -/
structure Said (view : Console.Transcript κ) (said : List Output) (s s' : Session κ) : Prop where
  tracer : s'.tracer = s.tracer
  outputs : view.outputs s'.console = view.outputs s.console ++ said

theorem Said.nil (view : Console.Transcript κ) (s : Session κ) : Said view [] s s :=
  ⟨rfl, (List.append_nil _).symm⟩

theorem Said.trans {view : Console.Transcript κ} {said said' : List Output} {s s' s'' : Session κ}
    (h : Said view said s s') (h' : Said view said' s' s'') : Said view (said ++ said') s s'' :=
  ⟨h'.tracer.trans h.tracer, by rw [h'.outputs, h.outputs, List.append_assoc]⟩

variable (view : Console.Transcript κ)
  (accepts : ∀ (c : κ) (o : Output), (Console.emit c o).1 = .ok ())

include accepts

/-- The value of an operand is looked up with a warning if it is a slot that was not stored. -/
theorem perform_checkedValue {m : Machine} {σ : Memory} {stored : List String}
    (hm : Holds m σ stored) {op : Arithmetic} {x : Operand}
    (hop : (Operation.calculate op x).WellNamed) (s : Session κ) :
    ∃ s', s.perform (m.checkedValue x.text) = (.ok (σ.value x), s') ∧
      Said view (((Operation.calculate op x).unstored stored).map Machine.missingSlot) s s' := by
  have hread : Operand.ofText x.text = x := (Operation.operand_text hop).2.2
  rw [Machine.checkedValue, hread]
  cases x with
  | literal v => exact ⟨s, rfl, .nil view s⟩
  | slot key =>
      have hkey := hm.slots key
      cases hslot : σ.slots key with
      | some value =>
          have hmem : key ∈ stored := (hm.stored key).2 (by rw [hslot]; rfl)
          rw [hslot] at hkey
          refine ⟨s, ?_, ?_⟩
          · simp only [hkey, Session.perform, Memory.value, Memory.slot, hslot, Option.getD_some]
          · simp only [Operation.unstored, if_pos hmem]
            exact .nil view s
      | none =>
          have hmem : key ∉ stored := by
            intro hmem
            have hsome := (hm.stored key).1 hmem
            rw [hslot] at hsome
            cases hsome
          rw [hslot] at hkey
          refine ⟨{ s with console := (Console.emit s.console (Machine.missingSlot key)).2 }, ?_,
            ?_⟩
          · simp only [hkey, Session.perform, Session.emit_eq, accepts, Memory.value, Memory.slot,
              hslot, Option.getD_none]
          · simp only [Operation.unstored, if_neg hmem]
            exact ⟨rfl, view.outputs_emit _ _ (accepts _ _)⟩

/-- **A line does what its operation says**: the machine holds the memory after the operation, or
the line fails because the operation divides by zero.  What is said is the warning about the slot
that was not stored. -/
theorem perform_operation {m : Machine} {σ : Memory} {stored : List String} (hm : Holds m σ stored)
    {op : Operation} (hop : op.WellNamed) {s : Session κ} (hoff : s.tracer.mode = .off) :
    ∃ result s', s.perform (m.line op.text) = (result, s') ∧
      Said view ((op.unstored stored).map Machine.missingSlot) s s' ∧
      if op.dividesByZero σ then result = .error .divisionByZero
      else ∃ m', result = .ok (m', .next) ∧ Holds m' (op.apply σ) (op.stores ++ stored) := by
  have htrace : s.perform (m.line op.text) = s.perform (m.execute op.mnemonic op.operand.text) := by
    rw [Machine.perform_line_off hoff, Operation.wordsOf_text hop, obeyWords_pair]
  rw [htrace]
  cases op with
  | load x =>
      refine ⟨_, s, rfl, .nil view s, m.accumulate (m.valueOf (Operation.load x).operand.text), rfl,
        ?_⟩
      rw [hm.valueOf hop]
      exact hm.accumulate _
  | store key => exact ⟨_, s, rfl, .nil view s, _, rfl, hm.store key⟩
  | combine op key =>
      have hexecute : m.execute (Operation.combine op key).mnemonic key =
          .done (m.accumulate (op.apply m.accumulator (m.slot key)), .next) := by
        cases op <;> rfl
      rw [hm.accumulator, hm.slot] at hexecute
      exact ⟨_, s, congrArg s.perform hexecute, .nil view s, _, rfl, hm.accumulate _⟩
  | calculate op x =>
      obtain ⟨s', hvalue, hsaid⟩ := perform_checkedValue view accepts hm hop s
      have harithmetic : ∀ f : Int64 → Int64 → Int64,
          s.perform (m.arithmetic f x.text) =
            (.ok (m.accumulate (f m.accumulator (σ.value x)), .next), s') := by
        intro f
        simp only [Machine.arithmetic_def, Dialogue.bind_eq, Session.perform_bind, hvalue]
        rfl
      cases op with
      | add =>
          refine ⟨_, s', harithmetic _, hsaid, _, rfl, ?_⟩
          rw [hm.accumulator, ← Arithmetic.apply_add]
          exact hm.accumulate _
      | subtract =>
          refine ⟨_, s', harithmetic _, hsaid, _, rfl, ?_⟩
          rw [hm.accumulator, ← Arithmetic.apply_subtract]
          exact hm.accumulate _
      | multiply =>
          refine ⟨_, s', harithmetic _, hsaid, _, rfl, ?_⟩
          rw [hm.accumulator, ← Arithmetic.apply_multiply]
          exact hm.accumulate _
      | divide =>
          have hdivision : s.perform (m.division x.text) =
              s'.perform (if σ.value x = 0 then .fail .divisionByZero
                else .done (m.accumulate (m.accumulator / σ.value x), .next)) := by
            simp only [Machine.division_def, Dialogue.bind_eq, Session.perform_bind, hvalue]
            rfl
          by_cases hzero : σ.value x = 0
          · refine ⟨.error .divisionByZero, s', ?_, hsaid, ?_⟩
            · exact hdivision.trans (by rw [if_pos hzero]; rfl)
            · rw [if_pos (by simpa [Operation.dividesByZero] using hzero)]
          · refine ⟨.ok (m.accumulate (m.accumulator / σ.value x), .next), s', ?_, hsaid, ?_⟩
            · exact hdivision.trans (by rw [if_neg hzero]; rfl)
            · rw [if_neg (by simpa [Operation.dividesByZero] using hzero)]
              refine ⟨_, rfl, ?_⟩
              rw [hm.accumulator, ← Arithmetic.apply_divide]
              exact hm.accumulate _

/-! ### Whole programs -/

omit view accepts in
/-- The last line halts the machine. -/
theorem runFor_lastLine {m : Machine} (hline : m.currentLine? = some lastLine) {s : Session κ}
    (hoff : s.tracer.mode = .off) :
    Chain.runFor 1 ⟨m, []⟩ s = some (.halted, m, s) := by
  have hwords : Text.wordsOf lastLine = [lastLine] := Text.wordsOf_word Mnemonic.halt.isWord
  have hobey : m.obeyWords [lastLine] = .done (m, .halt) := rfl
  have hperform : s.perform (m.line lastLine) = (.ok (m, .halt), s) := by
    rw [Machine.perform_line_off hoff, hwords, hobey]
    rfl
  rw [Chain.runFor_succ_eq, Chain.step_of_line (c := ⟨m, []⟩) hline hperform]
  rfl

/-- The rest of a program, from a machine that holds the memory so far, **runs as it is
evaluated**. -/
theorem runFor_operations {ops : List Operation} (hops : ∀ op ∈ ops, op.WellNamed) {m : Machine}
    {σ : Memory} {stored : List String} (hm : Holds m σ stored)
    (hlines : m.program.lines.drop m.pc = ops.map Operation.text ++ [lastLine]) {s : Session κ}
    (hoff : s.tracer.mode = .off) :
    ∃ ending m' s', Chain.runFor (ops.length + 1) ⟨m, []⟩ s = some (ending, m', s') ∧
      match evaluate σ ops with
      | .ok τ => ending = .halted ∧ m'.pc = m.pc + ops.length ∧ (∃ stored', Holds m' τ stored') ∧
          Said view ((unstored stored ops).map Machine.missingSlot) s s'
      | .error (k, τ) => (∃ op, ops[k]? = some op ∧
            ending = .failed ⟨[⟨m.program.reference, m.pc + k, op.text⟩], .divisionByZero⟩) ∧
          m'.pc = m.pc + k ∧ (∃ stored', Holds m' τ stored') ∧
          Said view ((unstored stored (ops.take (k + 1))).map Machine.missingSlot) s s' := by
  induction ops generalizing m σ stored s with
  | nil =>
      have hline : m.currentLine? = some lastLine := by
        rw [Machine.currentLine?, Program.line?, ← List.head?_drop, hlines]
        rfl
      exact ⟨_, m, s, runFor_lastLine hline hoff, rfl, rfl, ⟨stored, hm⟩, .nil view s⟩
  | cons op ops ih =>
      have hop : op.WellNamed := hops op List.mem_cons_self
      have hline : m.currentLine? = some op.text := by
        rw [Machine.currentLine?, Program.line?, ← List.head?_drop, hlines]
        rfl
      obtain ⟨result, s₁, hperform, hsaid, hresult⟩ :=
        perform_operation view accepts hm hop hoff
      by_cases hzero : op.dividesByZero σ = true
      · -- The division by zero ends the run on this line.
        rw [if_pos hzero] at hresult
        subst hresult
        have hhere : m.here = ⟨m.program.reference, m.pc, op.text⟩ := by
          rw [Machine.here, hline]
          simp only [Option.getD_some, Operation.trimmed_text hop]
        refine ⟨.failed ⟨[m.here], .divisionByZero⟩, m, s₁, ?_, ?_⟩
        · rw [Chain.runFor_succ_eq, Chain.step_of_line (c := ⟨m, []⟩) hline hperform]
          rfl
        · simp only [evaluate, if_pos hzero]
          refine ⟨⟨op, rfl, by rw [hhere]; rfl⟩, rfl, ⟨stored, hm⟩, ?_⟩
          simpa [unstored] using hsaid
      · rw [if_neg hzero] at hresult
        obtain ⟨m₁, rfl, hm₁⟩ := hresult
        obtain ⟨hprogram, -, hpc⟩ := (Machine.perform_line hperform).kept
        have hlines₁ : m₁.advance.program.lines.drop m₁.advance.pc =
            ops.map Operation.text ++ [lastLine] := by
          change m₁.program.lines.drop (m₁.pc + 1) = _
          rw [hprogram, hpc, ← List.tail_drop, hlines]
          rfl
        obtain ⟨ending, m', s', hrun, hend⟩ := ih (m := m₁.advance)
          (fun op hop => hops op (List.mem_cons_of_mem _ hop))
          ⟨hm₁.accumulator, hm₁.slots, hm₁.stored⟩ hlines₁ (hsaid.tracer ▸ hoff)
        refine ⟨ending, m', s', ?_, ?_⟩
        · rw [List.length_cons, Chain.runFor_succ_eq,
            Chain.step_of_line (c := ⟨m, []⟩) hline hperform]
          exact hrun
        · have hpc₁ : m₁.advance.pc = m.pc + 1 := congrArg (· + 1) hpc
          have hreference : m₁.advance.program.reference = m.program.reference := by
            rw [← hprogram]
            rfl
          simp only [evaluate, if_neg hzero]
          rw [hpc₁, hreference] at hend
          cases hrest : evaluate (op.apply σ) ops with
          | ok τ =>
              rw [hrest] at hend
              obtain ⟨hending, hpc', hholds, hsaid'⟩ := hend
              refine ⟨hending, by simp only [hpc', List.length_cons]; omega, hholds, ?_⟩
              simpa [unstored] using hsaid.trans hsaid'
          | error stopped =>
              obtain ⟨k, τ⟩ := stopped
              rw [hrest] at hend
              obtain ⟨⟨op', hop', hending⟩, hpc', hholds, hsaid'⟩ := hend
              refine ⟨⟨op', hop', ?_⟩, by simp only [hpc']; omega, hholds, ?_⟩
              · rw [hending, Nat.add_assoc, Nat.add_comm 1 k]
              · simpa [unstored] using hsaid.trans hsaid'

/-- **A straight-line program runs as it is evaluated.**  Let operations whose slots have the names
of slots be written down, one on a line with a halt at the end, and let a session without a trace
whose console takes every output hold that text.  It loads as a root that runs to its end.  If no
operation divides by zero, the root halts behind the operations with the memory of the evaluation;
otherwise it fails at the first one that does, with the memory before it.  What is said is one
warning for every arithmetic operation that was reached on a slot that no earlier one had stored. -/
theorem run_sourceText {ops : List Operation} (hops : ∀ op ∈ ops, op.WellNamed) {s : Session κ}
    (hoff : s.tracer.mode = .off) {reference : String}
    (hsource : s.source reference = .ok (sourceText ops)) :
    ∃ s₁ ending m' s', s.loadMachine reference = (.ok (root reference ops), s₁) ∧
      (root reference ops).run (ops.length + 1) s₁ = some (ending, m', s') ∧
      match evaluate Memory.initial ops with
      | .ok σ => ending = .halted ∧ m'.pc = ops.length ∧ m'.accumulator = σ.accumulator ∧
          (∀ key, m'.storage.find? key = σ.slots key) ∧
          view.outputs s'.console =
            view.outputs s.console ++ (unstored [] ops).map Machine.missingSlot
      | .error (k, σ) => (∃ op, ops[k]? = some op ∧
            ending = .failed ⟨[⟨reference, k, op.text⟩], .divisionByZero⟩) ∧
          m'.pc = k ∧ m'.accumulator = σ.accumulator ∧
          (∀ key, m'.storage.find? key = σ.slots key) ∧
          view.outputs s'.console =
            view.outputs s.console ++ (unstored [] (ops.take (k + 1))).map Machine.missingSlot := by
  have hload : ∃ event, s.loadMachine reference = (.ok (root reference ops), s.note event) := by
    refine ⟨.loaded reference (root reference ops).program.size
      (root reference ops).program.labels.size, ?_⟩
    simp only [Session.loadMachine, Session.load, hsource, lines_sourceText hops]
    rfl
  obtain ⟨event, hload⟩ := hload
  have hinitial : Holds (root reference ops) Memory.initial [] :=
    ⟨rfl, fun _ => rfl, by simp [Memory.initial]⟩
  obtain ⟨ending, m', s', hrun, hend⟩ := runFor_operations view accepts hops hinitial
    rfl (s := s.note event) hoff
  have hrun' : (root reference ops).run (ops.length + 1) (s.note event) =
      some (ending, m', s') := by
    rw [Machine.run_of_off (s := s.note event) hoff]
    exact hrun
  refine ⟨s.note event, ending, m', s', hload, hrun', ?_⟩
  cases hresult : evaluate Memory.initial ops with
  | ok σ =>
      rw [hresult] at hend
      obtain ⟨hending, hpc, ⟨_, hholds⟩, hsaid⟩ := hend
      exact ⟨hending, hpc.trans (Nat.zero_add _), hholds.accumulator, hholds.slots, hsaid.outputs⟩
  | error stopped =>
      obtain ⟨k, σ⟩ := stopped
      rw [hresult] at hend
      obtain ⟨⟨op, hop, hending⟩, hpc, ⟨_, hholds⟩, hsaid⟩ := hend
      refine ⟨⟨op, hop, ?_⟩, hpc.trans (Nat.zero_add _), hholds.accumulator, hholds.slots,
        hsaid.outputs⟩
      rw [hending]
      exact congrArg (fun i => Ending.failed ⟨[⟨reference, i, op.text⟩], .divisionByZero⟩)
        (Nat.zero_add k)

end Console

/-- Operations with slots that are named like an instruction and like a number that is too large.
The smallest integer is divided by minus one, which wraps around, and in the end an empty slot
divides. -/
def overflowing : List Operation :=
  [.load (.literal Int64.minValue), .store "HALT", .calculate .divide (.literal (-1)),
   .calculate .add (.slot "9223372036854775808"), .calculate .subtract (.slot "HALT"),
   .combine .xor "RET", .calculate .divide (.slot "x:")]

/-- The division by the empty slot fails; the slots that were never stored have been warned about,
except the one that was only combined bit by bit. -/
theorem run_sourceText_overflowing :
    ∃ s₁ m' s', (Session.inMemory [("main", sourceText overflowing)] []).loadMachine "main" =
        (.ok (root "main" overflowing), s₁) ∧
      (root "main" overflowing).run 8 s₁ =
        some (.failed ⟨[⟨"main", 6, "DIVIDE x:"⟩], .divisionByZero⟩, m', s') ∧
      m'.accumulator = 0 ∧ m'.storage.find? "HALT" = some Int64.minValue ∧
      s'.console.outputs.toList = ["9223372036854775808", "x:"].map Machine.missingSlot := by
  have hslots : ∀ key ∈ ["HALT", "9223372036854775808", "RET", "x:"], SlotName key := by
    intro key hkey
    simp only [List.mem_cons, List.not_mem_nil, or_false] at hkey
    rcases hkey with rfl | rfl | rfl | rfl <;>
      exact ⟨Text.isWord_of_all (by decide) (by decide), by decide,
        fun value hparse => by cases hparse⟩
  have hnamed : ∀ op ∈ overflowing, op.WellNamed := by
    intro op hop key hkey
    refine hslots key ?_
    simp only [overflowing, List.mem_cons, List.not_mem_nil, or_false] at hop
    rcases hop with rfl | rfl | rfl | rfl | rfl | rfl | rfl <;> cases hkey <;> decide
  have hsource : (Session.inMemory [("main", sourceText overflowing)] []).source "main" =
      .ok (sourceText overflowing) := rfl
  have heval : ∃ σ, evaluate Memory.initial overflowing = .error (6, σ) ∧ σ.accumulator = 0 ∧
      σ.slots "HALT" = some Int64.minValue := ⟨_, rfl, rfl, rfl⟩
  obtain ⟨s₁, ending, m', s', hload, hrun, hend⟩ := run_sourceText Buffer.steady.toTranscript
    (fun _ _ => rfl) hnamed rfl hsource
  obtain ⟨σ, hσ, haccumulator, hslots⟩ := heval
  rw [hσ] at hend
  obtain ⟨⟨op, hop, rfl⟩, -, hm, hkeys, hsaid⟩ := hend
  obtain rfl : Operation.calculate .divide (.slot "x:") = op := Option.some.inj hop
  exact ⟨s₁, m', s', hload, hrun, hm.trans haccumulator, (hkeys "HALT").trans hslots, hsaid⟩

end AccMachine.StraightLine
