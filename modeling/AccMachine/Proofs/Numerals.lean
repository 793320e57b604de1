/-
**Numerals.**

An optional sign and digits denote an integer.  A text is read as a machine word exactly if it
denotes an integer that a word holds, whatever its number of leading zeros.  Reading goes from digit
to digit and knows the range only as a limit for the magnitude, which is larger by one behind a
minus sign.  It stops where the text ceases to be the beginning of an integer in range, and what
stands there is the flaw for which the text is refused.

Main definitions:

* `Decimal.Sign` — what stands in front of the digits;
* `Decimal.value` — the number that digits denote, by their positions;
* `Decimal.Denotes` — a text denotes an integer, in range or not;
* `Decimal.Fits`, `Decimal.StopsAt` — a text that may begin an integer in range, and the first
  character with which a text no longer does;
* `Decimal.Flawed` — a text that is no integer in range, and its first flaw.

Main results:

* `Decimal.magnitude_eq_error_iff` — where the reading of digits stops;
* `Decimal.stopsAt_iff` — where a text ceases to be digits in range, in terms of the digits behind
  its sign;
* `Decimal.parseChars_eq_ok_iff` — **a text is read exactly as the integer that it denotes**;
* `Decimal.parseChars_eq_error_iff` — **a text is refused exactly for its first flaw**.
-/

import AccMachine.Decimal
import Mathlib.Data.List.Basic
import Mathlib.Data.Nat.Digits.Defs

set_option relaxedAutoImplicit false
set_option autoImplicit false

namespace AccMachine.Decimal

/-! ### Integers and their texts -/

/-- The integers that a machine word holds. -/
def InRange (x : Int) : Prop := -2 ^ 63 ≤ x ∧ x ≤ 2 ^ 63 - 1

/-- What stands in front of the digits of an integer. -/
inductive Sign where
  | unsigned
  | plus
  | minus
  deriving DecidableEq

namespace Sign

def text : Sign → List Char
  | unsigned => []
  | plus => ['+']
  | minus => ['-']

/-- The integer of that magnitude behind the sign. -/
def apply (n : Nat) : Sign → Int
  | unsigned => n
  | plus => n
  | minus => -n

/-- The flaw of an integer behind the sign that is out of range. -/
def overflow : Sign → Flaw
  | unsigned => .tooLarge
  | plus => .tooLarge
  | minus => .tooSmall

/-- The sign with which a text begins, and what stands behind it. -/
def split : List Char → Sign × List Char
  | '+' :: rest => (plus, rest)
  | '-' :: rest => (minus, rest)
  | cs => (unsigned, cs)

end Sign

/-- The number that digits denote, the last one being the lowest. -/
def value (digits : List Char) : Nat := Nat.ofDigits 10 (digits.map digitValue).reverse

/-- The characters are the sign and the digits behind it, of which there may be none. -/
structure Spells (cs : List Char) (sign : Sign) (digits : List Char) : Prop where
  chars : cs = sign.text ++ digits
  isDigit : ∀ c ∈ digits, c.isDigit = true

/-- The characters are an optional sign and one or more digits, and denote the integer `x`. -/
def Denotes (cs : List Char) (x : Int) : Prop :=
  ∃ sign digits, Spells cs sign digits ∧ digits ≠ [] ∧ sign.apply (value digits) = x

/-- The characters are an optional sign and digits, possibly none, that do not leave the range. -/
def Fits (cs : List Char) : Prop :=
  ∃ sign digits, Spells cs sign digits ∧ InRange (sign.apply (value digits))

/-- A text that begins with `front` and goes on with `c` ceases there to be digits in range: all its
beginnings up to `front` fit, and the next one does not. -/
structure StopsAt (front : List Char) (c : Char) : Prop where
  fits : ∀ start, start <+: front → Fits start
  leaves : ¬ Fits (front ++ [c])

/-- `Flawed cs flaw`: the characters are no integer in range, and `flaw` says why.  Where they cease
to be digits in range, there is a digit too many, or a character that is none. -/
inductive Flawed : List Char → Flaw → Prop
  | empty : Flawed [] .empty
  /-- A sign without digits. -/
  | bare {sign : Sign} (h : sign ≠ .unsigned) : Flawed sign.text .invalidDigit
  | invalid {front rest : List Char} {c : Char} (h : StopsAt front c) (hc : c.isDigit = false) :
      Flawed (front ++ c :: rest) .invalidDigit
  | beyond {front rest : List Char} {c : Char} (h : StopsAt front c) (hc : c.isDigit = true) :
      Flawed (front ++ c :: rest) (Sign.split front).1.overflow

/-! ### Signs -/

namespace Sign

/-- A text is its sign and what stands behind it. -/
theorem text_append_of_split {cs rest : List Char} {sign : Sign} (h : split cs = (sign, rest)) :
    sign.text ++ rest = cs := by
  unfold split at h
  split at h <;> cases h <;> rfl

/-- A sign is found where it stands. -/
theorem split_text_append {sign : Sign} {rest : List Char}
    (h : sign = unsigned → ∀ c ∈ rest.head?, c ≠ '+' ∧ c ≠ '-') :
    split (sign.text ++ rest) = (sign, rest) := by
  cases sign with
  | plus => rfl
  | minus => rfl
  | unsigned =>
      cases rest with
      | nil => rfl
      | cons c rest =>
          obtain ⟨hplus, hminus⟩ := h rfl c rfl
          simp only [text, List.nil_append]
          unfold split
          split <;> simp_all

/-- The sign of a text does not depend on how the text goes on. -/
theorem split_append {cs : List Char} (hne : cs ≠ []) (more : List Char) :
    split (cs ++ more) = ((split cs).1, (split cs).2 ++ more) := by
  obtain ⟨c, rest, rfl⟩ := List.exists_cons_of_ne_nil hne
  simp only [List.cons_append]
  unfold split
  split <;> simp_all

/-- The sign of a text is found in a beginning of it, unless it ends before the sign. -/
theorem split_of_append {cs more digits : List Char} {sign : Sign}
    (h : split (cs ++ more) = (sign, digits ++ more)) : split cs = (sign, digits) := by
  cases cs with
  | cons c cs =>
      rw [split_append (List.cons_ne_nil c cs), Prod.mk.injEq, List.append_left_inj] at h
      exact Prod.ext h.1 h.2
  | nil =>
      have hchars : sign.text ++ (digits ++ more) = more := text_append_of_split h
      rw [← List.append_assoc, List.append_left_eq_self, List.append_eq_nil_iff] at hchars
      obtain ⟨htext, rfl⟩ := hchars
      cases sign with
      | unsigned => rfl
      | plus => cases htext
      | minus => cases htext

/-- The largest magnitude in range behind the sign. -/
def limit : Sign → Nat
  | unsigned => maxMagnitude
  | plus => maxMagnitude
  | minus => maxNegatedMagnitude

theorem inRange_apply_iff {sign : Sign} {n : Nat} : InRange (sign.apply n) ↔ n ≤ sign.limit := by
  cases sign <;> simp only [InRange, apply, limit, maxMagnitude, maxNegatedMagnitude] <;> omega

end Sign

/-! ### Digits -/

/-- The number that digits denote is the one that is computed from left to right. -/
theorem ofDigitChars_eq_value (digits : List Char) :
    Nat.ofDigitChars 10 digits 0 = value digits := by
  induction digits with
  | nil => rfl
  | cons c rest ih =>
      have hvalue : value (c :: rest) = value rest + 10 ^ rest.length * digitValue c := by
        rw [value, List.map_cons, Nat.ofDigits_reverse_cons, List.length_map, ← value]
      rw [Nat.ofDigitChars_cons, Nat.ofDigitChars_eq_ofDigitChars_zero, ih, hvalue]
      change 10 ^ rest.length * (10 * 0 + digitValue c) + value rest = _
      rw [Nat.mul_zero, Nat.zero_add, Nat.add_comm]

theorem value_le_append (front rest : List Char) : value front ≤ value (front ++ rest) := by
  rw [← ofDigitChars_eq_value, ← ofDigitChars_eq_value, Nat.ofDigitChars_append]
  exact le_ofDigitChars _ _

theorem ofDigitChars_concat (front : List Char) (c : Char) (n : Nat) :
    Nat.ofDigitChars 10 (front ++ [c]) n = 10 * Nat.ofDigitChars 10 front n + digitValue c := by
  rw [Nat.ofDigitChars_append, Nat.ofDigitChars_cons, Nat.ofDigitChars_nil]
  rfl

section

variable {limit : Nat} {overflow : Flaw}

/-- Digits within the limit are read, and the reading goes on behind them. -/
theorem magnitude_append {n : Nat} {front : List Char} (hfront : ∀ c ∈ front, c.isDigit = true)
    (hle : Nat.ofDigitChars 10 front n ≤ limit) (rest : List Char) :
    magnitude limit overflow n (front ++ rest) =
      magnitude limit overflow (Nat.ofDigitChars 10 front n) rest := by
  induction front generalizing n with
  | nil => rfl
  | cons c front ih =>
      obtain ⟨hc, hfront⟩ := List.forall_mem_cons.1 hfront
      have hread : 10 * n + digitValue c ≤ limit := Nat.le_trans (le_ofDigitChars _ front) hle
      rw [List.cons_append, magnitude, if_pos hc, if_pos hread]
      exact ih hfront hle

/-- **Where the reading of digits stops**: at the first character that is no digit, or that takes
the number beyond the limit. -/
theorem magnitude_eq_error_iff {flaw : Flaw} {n : Nat} {cs : List Char} (hn : n ≤ limit) :
    magnitude limit overflow n cs = .error flaw ↔
      ∃ front c rest, cs = front ++ c :: rest ∧ (∀ d ∈ front, d.isDigit = true) ∧
        Nat.ofDigitChars 10 front n ≤ limit ∧
        (c.isDigit = false ∧ flaw = .invalidDigit ∨
          c.isDigit = true ∧ limit < Nat.ofDigitChars 10 (front ++ [c]) n ∧ flaw = overflow) := by
  have hnone : ∀ d ∈ ([] : List Char), d.isDigit = true := List.forall_mem_nil _
  constructor
  · intro h
    induction cs generalizing n with
    | nil => cases h
    | cons c rest ih =>
        simp only [magnitude] at h
        split at h
        · next hc =>
            split at h
            · next hread =>
                obtain ⟨front, d, rest, rfl, hfront, hle, hstop⟩ := ih hread h
                exact ⟨c :: front, d, rest, rfl, List.forall_mem_cons.2 ⟨hc, hfront⟩, hle, hstop⟩
            · next hread =>
                obtain rfl := Except.error.inj h
                exact ⟨[], c, rest, rfl, hnone, hn, Or.inr ⟨hc, Nat.lt_of_not_le hread, rfl⟩⟩
        · next hc =>
            obtain rfl := Except.error.inj h
            exact ⟨[], c, rest, rfl, hnone, hn, Or.inl ⟨Bool.eq_false_iff.2 hc, rfl⟩⟩
  · rintro ⟨front, c, rest, rfl, hfront, hle, hstop⟩
    rw [magnitude_append hfront hle, magnitude]
    rcases hstop with ⟨hc, rfl⟩ | ⟨hc, hlt, rfl⟩
    · rw [hc, if_neg Bool.false_ne_true]
    · rw [ofDigitChars_concat] at hlt
      rw [if_pos hc, if_neg (Nat.not_le_of_lt hlt)]

end

/-! ### Texts that may begin an integer -/

/-- A text is spelled in one way only. -/
theorem Spells.split {cs digits : List Char} {sign : Sign} (h : Spells cs sign digits) :
    Sign.split cs = (sign, digits) := by
  rw [h.chars]
  refine Sign.split_text_append fun _ c hc => ?_
  have hdigit : c.isDigit = true := h.isDigit c (List.mem_of_mem_head? hc)
  constructor
  · rintro rfl
    cases hdigit
  · rintro rfl
    cases hdigit

section

variable {cs rest : List Char} {sign : Sign}

theorem denotes_iff (h : Sign.split cs = (sign, rest)) {x : Int} :
    Denotes cs x ↔ rest ≠ [] ∧ (∀ c ∈ rest, c.isDigit = true) ∧ sign.apply (value rest) = x := by
  constructor
  · rintro ⟨sign', digits, hspells, hne, hx⟩
    rw [hspells.split] at h
    cases h
    exact ⟨hne, hspells.isDigit, hx⟩
  · rintro ⟨hne, hdigits, hx⟩
    exact ⟨sign, rest, ⟨(Sign.text_append_of_split h).symm, hdigits⟩, hne, hx⟩

theorem fits_iff (h : Sign.split cs = (sign, rest)) :
    Fits cs ↔ (∀ c ∈ rest, c.isDigit = true) ∧ value rest ≤ sign.limit := by
  constructor
  · rintro ⟨sign', digits, hspells, hx⟩
    rw [hspells.split] at h
    cases h
    exact ⟨hspells.isDigit, Sign.inRange_apply_iff.1 hx⟩
  · rintro ⟨hdigits, hx⟩
    exact ⟨sign, rest, ⟨(Sign.text_append_of_split h).symm, hdigits⟩,
      Sign.inRange_apply_iff.2 hx⟩

end

/-- What begins a text that fits, fits. -/
theorem Fits.of_isPrefix {start front : List Char} (h : Fits front) (hstart : start <+: front) :
    Fits start := by
  obtain ⟨more, rfl⟩ := hstart
  cases start with
  | nil => exact (fits_iff rfl).2 ⟨nofun, Nat.zero_le _⟩
  | cons c start =>
      have hsplit := Sign.split_append (List.cons_ne_nil c start) more
      obtain ⟨hdigits, hle⟩ := (fits_iff hsplit).1 h
      refine (fits_iff rfl).2 ⟨fun d hd => hdigits d (List.mem_append_left _ hd), ?_⟩
      exact Nat.le_trans (value_le_append _ _) hle

section

variable {front rest : List Char} {c : Char}

/-- Where a text ceases to be digits in range, in terms of the digits behind its sign. -/
theorem stopsAt_iff {sign : Sign} {digits : List Char}
    (h : Sign.split (front ++ c :: rest) = (sign, digits ++ c :: rest)) :
    StopsAt front c ↔ (∀ d ∈ digits, d.isDigit = true) ∧ value digits ≤ sign.limit ∧
      (c.isDigit = true → sign.limit < value (digits ++ [c])) := by
  have hfront : Fits front ↔ (∀ d ∈ digits, d.isDigit = true) ∧ value digits ≤ sign.limit :=
    fits_iff (Sign.split_of_append h)
  have hnext : Fits (front ++ [c]) ↔
      (∀ d ∈ digits ++ [c], d.isDigit = true) ∧ value (digits ++ [c]) ≤ sign.limit := by
    have hsplit : Sign.split (front ++ [c] ++ rest) = (sign, digits ++ [c] ++ rest) := by
      rwa [List.append_assoc, List.append_assoc]
    exact fits_iff (Sign.split_of_append hsplit)
  simp only [List.forall_mem_append, List.forall_mem_singleton] at hnext
  constructor
  · intro hstop
    obtain ⟨hdigits, hle⟩ := hfront.1 (hstop.fits front List.prefix_rfl)
    refine ⟨hdigits, hle, fun hc => Nat.lt_of_not_le fun hle' => ?_⟩
    exact hstop.leaves (hnext.2 ⟨⟨hdigits, hc⟩, hle'⟩)
  · rintro ⟨hdigits, hle, hstop⟩
    refine ⟨fun start hstart => (hfront.2 ⟨hdigits, hle⟩).of_isPrefix hstart, fun hfits => ?_⟩
    obtain ⟨⟨-, hc⟩, hle'⟩ := hnext.1 hfits
    exact Nat.not_le_of_lt (hstop hc) hle'

/-- A text does not cease to be digits in range at its sign. -/
theorem StopsAt.split (h : StopsAt front c) (rest : List Char) :
    Sign.split (front ++ c :: rest) =
      ((Sign.split front).1, (Sign.split front).2 ++ c :: rest) := by
  cases front with
  | cons d front => exact Sign.split_append (List.cons_ne_nil d front) _
  | nil =>
      change Sign.split (Sign.unsigned.text ++ c :: rest) = _
      refine Sign.split_text_append fun _ d hd => ?_
      obtain rfl : c = d := Option.some.inj hd
      constructor
      · rintro rfl
        exact h.leaves ((fits_iff rfl).2 ⟨nofun, Nat.zero_le _⟩)
      · rintro rfl
        exact h.leaves ((fits_iff rfl).2 ⟨nofun, Nat.zero_le _⟩)

end

/-! ### Reading -/

section

variable {cs : List Char} {sign : Sign} {rest : List Char}

/-- Behind a sign, digits are read with the limit and the flaw that belong to it. -/
theorem parseChars_eq (h : Sign.split cs = (sign, rest)) (hne : rest ≠ []) :
    parseChars cs = (magnitude sign.limit sign.overflow 0 rest).map
      fun n => Int64.ofInt (sign.apply n) := by
  obtain rfl := Sign.text_append_of_split h
  obtain ⟨c, rest, rfl⟩ := List.exists_cons_of_ne_nil hne
  cases sign with
  | plus => rfl
  | minus => rfl
  | unsigned =>
      change parseChars (c :: rest) = parseUnsigned (c :: rest)
      simp only [Sign.text, List.nil_append] at h
      unfold Sign.split at h
      split at h
      · cases h
      · cases h
      · next hplus hminus =>
          unfold parseChars
          split <;> simp_all

/-- Without digits, nothing is read. -/
theorem parseChars_eq_error_of_nil (h : Sign.split cs = (sign, [])) (flaw : Flaw) :
    parseChars cs = .error flaw ↔ flaw = if sign = .unsigned then .empty else .invalidDigit := by
  obtain rfl := Sign.text_append_of_split h
  cases sign <;> simp [Sign.text, parseChars, eq_comm]

end

/-- **A text is read exactly as the integer that it denotes.** -/
theorem parseChars_eq_ok_iff {cs : List Char} {v : Int64} :
    parseChars cs = .ok v ↔ Denotes cs v.toInt := by
  rcases hsplit : Sign.split cs with ⟨sign, rest⟩
  rw [denotes_iff hsplit]
  by_cases hne : rest = []
  · subst hne
    have hread := (parseChars_eq_error_of_nil hsplit _).2 rfl
    simp [hread]
  · rw [parseChars_eq hsplit hne]
    constructor
    · intro h
      rcases hread : magnitude sign.limit sign.overflow 0 rest with flaw | n
      · rw [hread] at h
        cases h
      · rw [hread] at h
        obtain rfl := Except.ok.inj h
        obtain ⟨hdigits, rfl, hle⟩ := (magnitude_eq_ok_iff (Nat.zero_le _)).1 hread
        rw [ofDigitChars_eq_value] at hle ⊢
        obtain ⟨hlow, hhigh⟩ := Sign.inRange_apply_iff.2 hle
        exact ⟨hne, hdigits, (Int64.toInt_ofInt_of_le hlow (Int.lt_of_le_sub_one hhigh)).symm⟩
    · rintro ⟨-, hdigits, hx⟩
      have hle : value rest ≤ sign.limit := by
        rw [← Sign.inRange_apply_iff, hx]
        exact ⟨v.le_toInt, Int.le_sub_one_of_lt v.toInt_lt⟩
      have hread : magnitude sign.limit sign.overflow 0 rest = .ok (value rest) :=
        (magnitude_eq_ok_iff (Nat.zero_le _)).2 ⟨hdigits, ofDigitChars_eq_value rest, hle⟩
      rw [hread, Except.map, hx, Int64.ofInt_toInt]

/-- Where the reading of digits behind a sign stops, the text ceases to be digits in range. -/
theorem flawed_of_magnitude {cs rest : List Char} {sign : Sign} {flaw : Flaw}
    (hsplit : Sign.split cs = (sign, rest))
    (h : magnitude sign.limit sign.overflow 0 rest = .error flaw) : Flawed cs flaw := by
  obtain ⟨digits, c, more, rfl, hdigits, hle, hstop⟩ :=
    (magnitude_eq_error_iff (Nat.zero_le _)).1 h
  simp only [ofDigitChars_eq_value] at hle hstop
  obtain rfl : sign.text ++ digits ++ c :: more = cs := by
    rw [List.append_assoc, Sign.text_append_of_split hsplit]
  rcases hstop with ⟨hc, rfl⟩ | ⟨hc, hlt, rfl⟩
  · refine .invalid ((stopsAt_iff hsplit).2 ⟨hdigits, hle, fun hc' => ?_⟩) hc
    rw [hc] at hc'
    cases hc'
  · have hbeyond : Flawed (sign.text ++ digits ++ c :: more)
        (Sign.split (sign.text ++ digits)).1.overflow :=
      .beyond ((stopsAt_iff hsplit).2 ⟨hdigits, hle, fun _ => hlt⟩) hc
    rwa [Sign.split_of_append hsplit] at hbeyond

/-- A text that ceases to be digits in range is read up to there. -/
theorem StopsAt.parseChars_eq {front : List Char} {c : Char} (h : StopsAt front c)
    (rest : List Char) :
    parseChars (front ++ c :: rest) =
      .error (if c.isDigit then (Sign.split front).1.overflow else .invalidDigit) := by
  have hsplit := h.split rest
  obtain ⟨hdigits, hle, hlt⟩ := (stopsAt_iff hsplit).1 h
  have hread : magnitude (Sign.split front).1.limit (Sign.split front).1.overflow 0
      ((Sign.split front).2 ++ c :: rest) =
        .error (if c.isDigit then (Sign.split front).1.overflow else .invalidDigit) := by
    refine (magnitude_eq_error_iff (Nat.zero_le _)).2 ⟨_, c, rest, rfl, hdigits, ?_, ?_⟩
    · rwa [ofDigitChars_eq_value]
    · rw [ofDigitChars_eq_value]
      by_cases hc : c.isDigit = true
      · exact Or.inr ⟨hc, hlt hc, if_pos hc⟩
      · exact Or.inl ⟨Bool.eq_false_iff.2 hc, if_neg hc⟩
  rw [Decimal.parseChars_eq hsplit (by simp), hread]
  rfl

/-- **A text is refused exactly for its first flaw.** -/
theorem parseChars_eq_error_iff {cs : List Char} {flaw : Flaw} :
    parseChars cs = .error flaw ↔ Flawed cs flaw := by
  constructor
  · intro h
    rcases hsplit : Sign.split cs with ⟨sign, rest⟩
    by_cases hne : rest = []
    · subst hne
      obtain rfl : sign.text = cs := by
        rw [← Sign.text_append_of_split hsplit, List.append_nil]
      obtain rfl := (parseChars_eq_error_of_nil hsplit _).1 h
      split
      · next hsign =>
          subst hsign
          exact .empty
      · next hsign => exact .bare hsign
    · rw [parseChars_eq hsplit hne] at h
      rcases hread : magnitude sign.limit sign.overflow 0 rest with flaw' | n <;> rw [hread] at h
      · obtain rfl := Except.error.inj h
        exact flawed_of_magnitude hsplit hread
      · cases h
  · intro h
    cases h with
    | empty => rfl
    | @bare sign hsign =>
        cases sign with
        | unsigned => exact absurd rfl hsign
        | plus => rfl
        | minus => rfl
    | invalid hstop hc => rw [hstop.parseChars_eq, hc, if_neg Bool.false_ne_true]
    | beyond hstop hc => rw [hstop.parseChars_eq, if_pos hc]

/-- A text is refused as empty exactly if it is. -/
theorem Flawed.eq_empty_iff {cs : List Char} {flaw : Flaw} (h : Flawed cs flaw) :
    flaw = .empty ↔ cs = [] := by
  cases h with
  | empty => simp
  | @bare sign hsign =>
      cases sign with
      | unsigned => exact absurd rfl hsign
      | plus => simp [Sign.text]
      | minus => simp [Sign.text]
  | invalid _ _ => simp
  | @beyond front _ _ _ _ =>
      generalize (Sign.split front).1 = sign
      cases sign <;> simp [Sign.overflow]

/-- The integers in range are those of the machine words. -/
theorem inRange_iff {x : Int} : InRange x ↔ ∃ v : Int64, v.toInt = x := by
  constructor
  · rintro ⟨hlow, hhigh⟩
    exact ⟨Int64.ofInt x, Int64.toInt_ofInt_of_le hlow (Int.lt_of_le_sub_one hhigh)⟩
  · rintro ⟨v, rfl⟩
    exact ⟨v.le_toInt, Int.le_sub_one_of_lt v.toInt_lt⟩

end AccMachine.Decimal
