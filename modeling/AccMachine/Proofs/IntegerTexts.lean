/-
**Integer texts have one meaning everywhere.**

Numbers are read in two places, as operands and as lines of input, and written in one, as outputs.
A text means the same in both places: it is a value if it denotes an integer that a machine word
holds.  A text that does not is the name of a slot as an operand, and an error as input, which is
reported with its first flaw.  The text of a word is read as that word in both places.

Main results:

* `Operand.exists_literal_iff`, `Operand.ofText_eq_slot_iff_not_denotes` — which operands are
  values, and which are slots;
* `Machine.perform_input` — what reading a line of input comes to on any console;
* `Machine.dispatch_input_eq_ok_iff`, `Machine.dispatch_input_eq_error_iff` — an input sets the
  accumulator to the operand that its line is, and is refused for the flaw of its line;
* `Machine.integer_texts_agree` — **operands and input agree on the integers, and read back what is
  written**.
-/

import AccMachine.Proofs.FailedInstructions
import AccMachine.Proofs.Input
import AccMachine.Proofs.Numerals
import AccMachine.Proofs.StraightLine

set_option relaxedAutoImplicit false
set_option autoImplicit false

namespace AccMachine

/-! ### Operands -/

namespace Operand

variable {text key : String}

/-- An operand is a value exactly if its text denotes an integer in range, which is that value. -/
theorem exists_literal_iff {x : Int} :
    (∃ v, ofText text = .literal v ∧ v.toInt = x) ↔
      Decimal.Denotes text.toList x ∧ Decimal.InRange x := by
  have hread : ∀ v, ofText text = .literal v ↔ Decimal.Denotes text.toList v.toInt :=
    fun v => ofText_eq_literal_iff.trans Decimal.parseChars_eq_ok_iff
  constructor
  · rintro ⟨v, hv, rfl⟩
    exact ⟨(hread v).1 hv, Decimal.inRange_iff.2 ⟨v, rfl⟩⟩
  · rintro ⟨hx, hrange⟩
    obtain ⟨v, rfl⟩ := Decimal.inRange_iff.1 hrange
    exact ⟨v, (hread v).2 hx, rfl⟩

/-- An operand names a slot exactly if its text has a flaw. -/
theorem ofText_eq_slot_iff_flawed :
    ofText text = .slot key ↔ key = text ∧ ∃ flaw, Decimal.Flawed text.toList flaw := by
  rw [ofText_eq_slot_iff]
  exact and_congr_right fun _ => exists_congr fun _ => Decimal.parseChars_eq_error_iff

/-- An operand names a slot exactly if its text denotes no integer in range. -/
theorem ofText_eq_slot_iff_not_denotes :
    ofText text = .slot key ↔
      key = text ∧ ∀ x, Decimal.Denotes text.toList x → ¬ Decimal.InRange x := by
  constructor
  · intro h
    refine ⟨(ofText_eq_slot_iff.1 h).1, fun x hx hrange => ?_⟩
    obtain ⟨v, hv, -⟩ := exists_literal_iff.2 ⟨hx, hrange⟩
    rw [hv] at h
    cases h
  · rintro ⟨rfl, hnone⟩
    cases h : ofText key with
    | literal v =>
        obtain ⟨hx, hrange⟩ := exists_literal_iff.1 ⟨v, h, rfl⟩
        exact absurd hrange (hnone _ hx)
    | slot key' => rw [(ofText_eq_slot_iff.1 h).1]

end Operand

/-! ### Input -/

namespace Machine

section

variable {κ : Type} [Console κ] {s s' : Session κ} {line : String}

/-- Reading a line of input comes to the integer that it denotes, or fails for its flaw. -/
theorem perform_input (h : s.readLine = (.ok (some line), s')) (m : Machine) (operand : String) :
    s.perform (m.execute .input operand) = (m.parsed (some line), s') := by
  simp only [execute_def, readNumber_def, Dialogue.ask_bind, Session.perform, h, parsed]
  cases Decimal.parse (Text.trimmed line) <;> rfl

theorem parsed_of_literal (m : Machine) {v : Int64}
    (h : Operand.ofText (Text.trimmed line) = .literal v) :
    m.parsed (some line) = .ok (m.accumulate v, .next) := by
  simp only [parsed, Operand.ofText_eq_literal_iff.1 h]

theorem parsed_of_flawed (m : Machine) {flaw : Decimal.Flaw}
    (h : Decimal.Flawed (Text.trimmed line).toList flaw) :
    m.parsed (some line) = .error (.invalidInput (Text.trimmed line) flaw) := by
  have hread : Decimal.parse (Text.trimmed line) = .error flaw :=
    Decimal.parseChars_eq_error_iff.2 h
  simp only [parsed, hread]

/-- A dispatched input sets the accumulator exactly to what the trimmed line is as an operand. -/
theorem dispatch_input_eq_ok_iff (h : s.readLine = (.ok (some line), s')) (m : Machine)
    (fuel : Nat) (operand : String) (v : Int64) :
    m.dispatch fuel s .input operand = some (.ok .next, m.accumulate v, s') ↔
      Operand.ofText (Text.trimmed line) = .literal v := by
  simp only [dispatch_def, perform_input h]
  cases ho : Operand.ofText (Text.trimmed line) with
  | literal w =>
      simp only [m.parsed_of_literal ho, Option.some.injEq, Prod.mk.injEq, and_true, true_and,
        Operand.literal.injEq]
      exact ⟨fun hm => congrArg accumulator hm, fun hv => congrArg m.accumulate hv⟩
  | slot key =>
      obtain ⟨-, flaw, hflaw⟩ := Operand.ofText_eq_slot_iff_flawed.1 ho
      simp [m.parsed_of_flawed hflaw]

/-- A dispatched input fails exactly for the flaw of the trimmed line, and leaves the machine as it
was. -/
theorem dispatch_input_eq_error_iff (h : s.readLine = (.ok (some line), s')) (m : Machine)
    (fuel : Nat) (operand : String) (flaw : Decimal.Flaw) :
    m.dispatch fuel s .input operand =
        some (.error ⟨[], .invalidInput (Text.trimmed line) flaw⟩, m, s') ↔
      Decimal.Flawed (Text.trimmed line).toList flaw := by
  simp only [dispatch_def, perform_input h]
  constructor
  · intro hfailed
    cases ho : Operand.ofText (Text.trimmed line) with
    | literal v =>
        rw [m.parsed_of_literal ho] at hfailed
        cases hfailed
    | slot key =>
        obtain ⟨-, flaw', hflaw⟩ := Operand.ofText_eq_slot_iff_flawed.1 ho
        rw [m.parsed_of_flawed hflaw] at hfailed
        cases hfailed
        exact hflaw
  · intro hflaw
    rw [m.parsed_of_flawed hflaw]

/-- A line that reads takes its step with what reading comes to. -/
theorem ComesTo.step_input {m : Machine} {s₀ : Session κ} {operand : String}
    (hcomes : m.ComesTo s₀ .input operand s) (h : s.readLine = (.ok (some line), s'))
    (callers : List Frame) :
    Chain.step ⟨m, callers⟩ s₀ = ((Chain.settle ⟨m, callers⟩ (m.parsed (some line))).1,
      s'.noteAll (Chain.settle ⟨m, callers⟩ (m.parsed (some line))).2) := by
  obtain ⟨text, ht, hline⟩ := hcomes.perform_line
  rw [perform_input h] at hline
  exact Chain.step_of_line (c := ⟨m, callers⟩) ht hline

end

/-! ### The texts of words -/

/-- To load the text of a word is to load that word. -/
theorem execute_load_render (m : Machine) (v : Int64) :
    m.execute .load (Decimal.render v) = .done (m.accumulate v, .next) := by
  simp only [execute_def, valueOf, Operand.ofText_render]

/-- **Operands and input agree on the integers, and read back what is written.**

A text is a value as an operand exactly if it is an optional sign and digits, any number of them,
and the integer that they denote fits a machine word; it is the name of a slot otherwise.  An input
that is handed a line, dispatched or in a run, sets the accumulator to what the trimmed line is as
an operand; if that is a slot, then it fails for the first flaw of the trimmed line and leaves the
machine as it was.  The flaw is that the text is empty, or else it is found where the text first
ceases to be digits in range.  And the number that is shown for a word gives that word when it is
handed to an input, and when it is the operand of a load. -/
theorem integer_texts_agree (κ : Type) [Console κ] :
    (∀ text : String,
      (∀ x, (∃ v, Operand.ofText text = .literal v ∧ v.toInt = x) ↔
        Decimal.Denotes text.toList x ∧ Decimal.InRange x) ∧
      ∀ key, Operand.ofText text = .slot key ↔
        key = text ∧ ∀ x, Decimal.Denotes text.toList x → ¬ Decimal.InRange x) ∧
    (∀ (m : Machine) (s s' : Session κ) (line operand : String) (fuel : Nat),
      s.readLine = (.ok (some line), s') →
      (∀ v, m.dispatch fuel s .input operand = some (.ok .next, m.accumulate v, s') ↔
        Operand.ofText (Text.trimmed line) = .literal v) ∧
      (∀ flaw, m.dispatch fuel s .input operand =
          some (.error ⟨[], .invalidInput (Text.trimmed line) flaw⟩, m, s') ↔
        Decimal.Flawed (Text.trimmed line).toList flaw) ∧
      ((∀ v, Operand.ofText (Text.trimmed line) ≠ .literal v) →
        ∃ flaw, Decimal.Flawed (Text.trimmed line).toList flaw ∧
          (flaw = .empty ↔ Text.trimmed line = "")) ∧
      ∀ (s₀ : Session κ) (callers : List Frame), m.ComesTo s₀ .input operand s →
        (∀ v, Operand.ofText (Text.trimmed line) = .literal v →
          Chain.step ⟨m, callers⟩ s₀ = (.running ⟨(m.accumulate v).advance, callers⟩, s')) ∧
        ∀ flaw, Decimal.Flawed (Text.trimmed line).toList flaw →
          (Chain.step ⟨m, callers⟩ s₀).1 = (Chain.deliver
            (.failed ⟨[m.here], .invalidInput (Text.trimmed line) flaw⟩) m callers).1) ∧
    ∀ v : Int64, ∃ number : String,
      (Output.value v).render = Output.mark ++ " " ++ number ∧
      ∀ m : Machine,
        (∀ operand, (m.accumulate v).execute .output operand =
          .emit (.value v) (.done (m.accumulate v, .next))) ∧
        (∀ (s s' : Session κ) operand fuel, s.readLine = (.ok (some number), s') →
          m.dispatch fuel s .input operand = some (.ok .next, m.accumulate v, s')) ∧
        (∀ (s : Session κ) fuel,
          m.dispatch fuel s .load number = some (.ok .next, m.accumulate v, s)) ∧
        m.obeyWords (Text.wordsOf (Mnemonic.load.text ++ " " ++ number)) =
          .done (m.accumulate v, .next) := by
  refine ⟨fun text => ⟨fun x => Operand.exists_literal_iff,
    fun key => Operand.ofText_eq_slot_iff_not_denotes⟩, ?_, ?_⟩
  · intro m s s' line operand fuel h
    refine ⟨dispatch_input_eq_ok_iff h m fuel operand, dispatch_input_eq_error_iff h m fuel operand,
      fun hnone => ?_, fun s₀ callers hcomes => ⟨fun v hv => ?_, fun flaw hflaw => ?_⟩⟩
    · cases ho : Operand.ofText (Text.trimmed line) with
      | literal v => exact absurd ho (hnone v)
      | slot key =>
          obtain ⟨-, flaw, hflaw⟩ := Operand.ofText_eq_slot_iff_flawed.1 ho
          exact ⟨flaw, hflaw, hflaw.eq_empty_iff.trans String.toList_eq_nil_iff⟩
    · rw [hcomes.step_input h, m.parsed_of_literal hv]
      rfl
    · rw [hcomes.step_input h, m.parsed_of_flawed hflaw]
      rfl
  · intro v
    have hword : Text.IsWord (Decimal.render v) := Decimal.isWord_render v
    refine ⟨Decimal.render v, rfl, fun m => ⟨fun _ => rfl, ?_, ?_, ?_⟩⟩
    · intro s s' operand fuel h
      rw [dispatch_input_eq_ok_iff h, Text.trimmed_word hword, Operand.ofText_render]
    · intro s fuel
      simp only [dispatch_def, execute_load_render, Session.perform]
    · rw [Text.wordsOf_pair Mnemonic.load.isWord hword, StraightLine.obeyWords_pair,
        execute_load_render]

/-- A root that holds a number. -/
def clerk : Machine := (ofProgram (.ofLines "main" ["IN", "OUT"])).accumulate 5

/-- The smallest integer is read, with a sign, zeros and blank characters, also in a run.  A text
that leaves the range before it comes to a character that is no digit is too large, and one that
comes to such a character before is not.  What is shown for the smallest integer is read back. -/
theorem integer_texts_agree_clerk :
    clerk.dispatch 0 (.inMemory [] ["\u2003-0009223372036854775808\r"]) .input "" =
        some (.ok .next, clerk.accumulate Int64.minValue, .inMemory [] []) ∧
      Chain.step ⟨clerk, []⟩ (.inMemory [] ["\u2003-0009223372036854775808\r"]) =
        (.running ⟨(clerk.accumulate Int64.minValue).advance, []⟩, .inMemory [] []) ∧
      clerk.dispatch 0 (.inMemory [] [" 9223372036854775808x"]) .input "" =
        some (.error ⟨[], .invalidInput "9223372036854775808x" .tooLarge⟩, clerk,
          .inMemory [] []) ∧
      clerk.dispatch 0 (.inMemory [] ["922337203685477580x8"]) .input "" =
        some (.error ⟨[], .invalidInput "922337203685477580x8" .invalidDigit⟩, clerk,
          .inMemory [] []) ∧
      ∃ number, (Output.value Int64.minValue).render = "< " ++ number ∧
        clerk.dispatch 0 (.inMemory [] [number]) .input "" =
          some (.ok .next, clerk.accumulate Int64.minValue, .inMemory [] []) := by
  obtain ⟨hoperands, hinput, hwritten⟩ := integer_texts_agree Buffer
  have hsmallest : Operand.ofText "-0009223372036854775808" = .literal Int64.minValue := by
    have hdenotes : Decimal.Denotes "-0009223372036854775808".toList Int64.minValue.toInt :=
      ⟨.minus, "0009223372036854775808".toList, ⟨rfl, List.all_eq_true.1 (by decide)⟩, by decide,
        by decide +kernel⟩
    obtain ⟨v, hv, hvalue⟩ := ((hoperands _).1 _).2 ⟨hdenotes, by decide, by decide⟩
    rw [hv, Int64.toInt_inj.1 hvalue]
  have htrimmed : Operand.ofText (Text.trimmed "\u2003-0009223372036854775808\r") =
      .literal Int64.minValue := by
    have htext : Text.trimmed "\u2003-0009223372036854775808\r" = "-0009223372036854775808" := by
      decide +kernel
    rw [htext, hsmallest]
  have hcomes : ∀ lines, clerk.ComesTo (.inMemory [] lines) .input "" (.inMemory [] lines) :=
    fun _ => ⟨"IN", ⟨none, .input, none⟩, rfl, by decide, rfl, .inr ⟨rfl, rfl, rfl⟩, rfl⟩
  have hstop : ∀ c, (c.isDigit = true → 9223372036854775807 < Decimal.value
      ("922337203685477580".toList ++ [c])) → Decimal.StopsAt "922337203685477580".toList c := by
    intro c hc
    have hsplit : Decimal.Sign.split ("922337203685477580".toList ++ c :: []) =
        (.unsigned, "922337203685477580".toList ++ c :: []) := rfl
    exact (Decimal.stopsAt_iff hsplit).2 ⟨List.all_eq_true.1 (by decide), by decide +kernel, hc⟩
  have hrefused : ∀ line text flaw, Text.trimmed line = text → Decimal.Flawed text.toList flaw →
      clerk.dispatch 0 (.inMemory [] [line]) .input "" =
        some (.error ⟨[], .invalidInput text flaw⟩, clerk, .inMemory [] []) := by
    rintro line _ flaw rfl hflaw
    exact ((hinput clerk _ _ line "" 0 rfl).2.1 flaw).2 hflaw
  refine ⟨((hinput clerk _ _ _ "" 0 rfl).1 _).2 htrimmed, ?_, ?_, ?_, ?_⟩
  · exact ((hinput clerk _ _ _ "" 0 rfl).2.2.2 _ [] (hcomes _)).1 _ htrimmed
  · exact hrefused _ _ _ (by decide +kernel)
      (.beyond (hstop '8' fun _ => by decide +kernel) rfl)
  · exact hrefused _ _ _ (by decide +kernel) (.invalid (hstop 'x' nofun) rfl)
  · obtain ⟨number, hrender, hread⟩ := hwritten Int64.minValue
    exact ⟨number, hrender, (hread clerk).2.1 _ _ "" 0 rfl⟩

end Machine

end AccMachine
