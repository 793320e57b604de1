/-
**Decimal integers of the machine word.**

The accumulator and the slots hold signed 64-bit integers.  In a program, in the input and in the
output they are written in decimal: an optional sign and at least one digit, any number of leading
zeros being allowed on reading and none being written.

Main definitions:

* `Decimal.Flaw` — why a text is not such an integer, with its wording;
* `Decimal.parse` — reads a text from the left and stops at the first flaw;
* `Decimal.render` — the shortest decimal text of an integer.

Main results:

* `Decimal.magnitude_eq_ok_iff` — digits are read exactly when they are digits and the number they
  denote stays within the limit;
* `Decimal.parse_render` — reading the text of an integer gives the integer back.
-/

set_option relaxedAutoImplicit false
set_option autoImplicit false

namespace AccMachine.Decimal

/-! ### Flaws -/

/-- Why a text is not a decimal integer of the machine word. -/
inductive Flaw where
  | empty
  | invalidDigit
  | tooLarge
  | tooSmall
  deriving DecidableEq, Repr

/-- The wording of a flaw. -/
def Flaw.message : Flaw → String
  | .empty => "cannot parse integer from empty string"
  | .invalidDigit => "invalid digit found in string"
  | .tooLarge => "number too large to fit in target type"
  | .tooSmall => "number too small to fit in target type"

/-! ### Reading -/

/-- The value of an ASCII digit. -/
def digitValue (c : Char) : Nat := c.toNat - '0'.toNat

/-- Reads digits behind the number `n` already read; the first character that is no digit, or
that takes the number beyond `limit`, ends the reading. -/
def magnitude (limit : Nat) (overflow : Flaw) (n : Nat) : List Char → Except Flaw Nat
  | [] => .ok n
  | c :: rest =>
    if c.isDigit then
      if 10 * n + digitValue c ≤ limit then
        magnitude limit overflow (10 * n + digitValue c) rest
      else .error overflow
    else .error .invalidDigit

/-- The largest integer that is read without a minus sign. -/
def maxMagnitude : Nat := 9223372036854775807

/-- The largest magnitude that is read behind a minus sign. -/
def maxNegatedMagnitude : Nat := 9223372036854775808

/-- Reads an integer without a sign. -/
def parseUnsigned (digits : List Char) : Except Flaw Int64 :=
  (magnitude maxMagnitude .tooLarge 0 digits).map fun (n : Nat) => Int64.ofInt n

/-- Reads an integer behind a minus sign. -/
def parseNegated (digits : List Char) : Except Flaw Int64 :=
  (magnitude maxNegatedMagnitude .tooSmall 0 digits).map fun (n : Nat) => Int64.ofInt (-n)

/-- Reads an optional sign and digits. -/
def parseChars : List Char → Except Flaw Int64
  | [] => .error .empty
  | ['+'] => .error .invalidDigit
  | ['-'] => .error .invalidDigit
  | '+' :: digits => parseUnsigned digits
  | '-' :: digits => parseNegated digits
  | digits => parseUnsigned digits

/-- Reads a text as an integer; nothing is trimmed. -/
def parse (text : String) : Except Flaw Int64 := parseChars text.toList

/-! ### Writing -/

/-- The decimal digits of a natural number. -/
def ofNat (n : Nat) : List Char := Nat.toDigits 10 n

/-- The decimal text of an integer, as characters. -/
def ofInt (i : Int) : List Char := if i < 0 then '-' :: ofNat i.natAbs else ofNat i.natAbs

/-- The decimal text of a machine word. -/
def render (v : Int64) : String := String.ofList (ofInt v.toInt)

/-- The decimal text of a natural number. -/
def renderNat (n : Nat) : String := String.ofList (ofNat n)

/-! ### Reading what was written -/

theorem le_ofDigitChars (n : Nat) (cs : List Char) : n ≤ Nat.ofDigitChars 10 cs n := by
  induction cs generalizing n with
  | nil => simp
  | cons c rest ih =>
    rw [Nat.ofDigitChars_cons]
    exact Nat.le_trans (by omega) (ih _)

/-- Reading digits succeeds exactly on digits that denote a number within the limit. -/
theorem magnitude_eq_ok_iff {limit : Nat} {overflow : Flaw} {n m : Nat} {cs : List Char}
    (hn : n ≤ limit) :
    magnitude limit overflow n cs = .ok m ↔
      (∀ c ∈ cs, c.isDigit = true) ∧ Nat.ofDigitChars 10 cs n = m ∧ m ≤ limit := by
  induction cs generalizing n with
  | nil =>
    simp only [magnitude, Except.ok.injEq, List.not_mem_nil, false_implies, implies_true,
      Nat.ofDigitChars_nil, true_and]
    exact ⟨fun h => ⟨h, h ▸ hn⟩, fun h => h.1⟩
  | cons c rest ih =>
    have hstep : Nat.ofDigitChars 10 (c :: rest) n
        = Nat.ofDigitChars 10 rest (10 * n + digitValue c) := Nat.ofDigitChars_cons
    rw [hstep]
    by_cases hc : c.isDigit = true
    · by_cases hle : 10 * n + digitValue c ≤ limit
      · simp only [magnitude, if_pos hc, if_pos hle]
        rw [ih hle, List.forall_mem_cons, and_assoc]
        exact ⟨fun h => ⟨hc, h⟩, fun h => h.2⟩
      · simp only [magnitude, if_pos hc, if_neg hle, reduceCtorEq, false_iff, not_and]
        intro _ hm hlim
        exact hle (Nat.le_trans (le_ofDigitChars _ _) (hm ▸ hlim))
    · simp [magnitude, hc]

theorem isDigit_of_mem_ofNat {n : Nat} {c : Char} (h : c ∈ ofNat n) : c.isDigit = true :=
  Nat.isDigit_of_mem_toDigits (by decide) (by decide) h

theorem ofNat_ne_nil (n : Nat) : ofNat n ≠ [] := Nat.toDigits_ne_nil

/-- The digits of a number within the limit are read as that number. -/
theorem magnitude_ofNat {limit : Nat} {overflow : Flaw} {n : Nat} (h : n ≤ limit) :
    magnitude limit overflow 0 (ofNat n) = .ok n :=
  (magnitude_eq_ok_iff (Nat.zero_le _)).2
    ⟨fun _ => isDigit_of_mem_ofNat, Nat.ofDigitChars_ten_toDigits, h⟩

/-- Digits without a sign are read as digits. -/
theorem parseChars_of_isDigit {c : Char} {rest : List Char} (h : c.isDigit = true) :
    parseChars (c :: rest) = parseUnsigned (c :: rest) := by
  have hp : c ≠ '+' := by rintro rfl; simp at h
  have hm : c ≠ '-' := by rintro rfl; simp at h
  unfold parseChars
  split <;> simp_all

/-- Reading the text of a machine word gives the word back. -/
theorem parse_render (v : Int64) : parse (render v) = .ok v := by
  have hlow : -2 ^ 63 ≤ v.toInt := v.le_toInt
  have hhigh : v.toInt < 2 ^ 63 := v.toInt_lt
  simp only [parse, render, String.toList_ofList, ofInt]
  by_cases hneg : v.toInt < 0
  · obtain ⟨d, ds, hd⟩ := List.exists_cons_of_ne_nil (ofNat_ne_nil v.toInt.natAbs)
    have hread : magnitude maxNegatedMagnitude .tooSmall 0 (ofNat v.toInt.natAbs)
        = .ok v.toInt.natAbs := magnitude_ofNat (by simp only [maxNegatedMagnitude]; omega)
    have hval : -(v.toInt.natAbs : Int) = v.toInt := by omega
    rw [if_pos hneg, hd]
    show parseNegated (d :: ds) = .ok v
    rw [← hd, parseNegated, hread]
    simp only [Except.map, hval, Int64.ofInt_toInt]
  · obtain ⟨d, ds, hd⟩ := List.exists_cons_of_ne_nil (ofNat_ne_nil v.toInt.natAbs)
    have hread : magnitude maxMagnitude .tooLarge 0 (ofNat v.toInt.natAbs)
        = .ok v.toInt.natAbs := magnitude_ofNat (by simp only [maxMagnitude]; omega)
    have hval : (v.toInt.natAbs : Int) = v.toInt := by omega
    have hdig : d.isDigit = true := isDigit_of_mem_ofNat (hd ▸ List.mem_cons_self)
    rw [if_neg hneg, hd, parseChars_of_isDigit hdig, ← hd, parseUnsigned, hread]
    simp only [Except.map, hval, Int64.ofInt_toInt]

end AccMachine.Decimal
