/-
**Words with white space around them.**

The words of a line do not depend on how much white space stands before, between and behind them,
nor on which characters it is made of.  Trimming a class of blank characters off both ends does not
change them either.

Main definitions:

* `Text.IsGap` — white space within a line;
* `Text.Spaced` — a line that consists of the given words, with white space around them.

Main results:

* `Text.trim_append_cons` — a character outside the class parts a trimming in two;
* `Text.words_append_cons` — a blank character parts the words of a text in two;
* `Text.words_trim` — trimming blank characters keeps the words;
* `Text.Spaced.words` — **the words of a spaced line are the words it was made of**.
-/

import AccMachine.Proofs.SourceText

set_option relaxedAutoImplicit false
set_option autoImplicit false

namespace AccMachine.Text

variable {p : Char → Bool}

/-! ### Trimming -/

/-- A character outside the class parts a trimming at the end: all before it stays. -/
theorem trimEnd_append_cons {c : Char} (h : p c = false) (front rest : List Char) :
    trimEnd p (front ++ c :: rest) = front ++ c :: trimEnd p rest := by
  have hreverse : (front ++ c :: rest).reverse = rest.reverse ++ c :: front.reverse := by simp
  rw [trimEnd, trimEnd, hreverse, List.dropWhile_append]
  split
  · next hempty =>
      rw [List.isEmpty_iff.1 hempty]
      simp [h]
  · simp

/-- A character outside the class parts a trimming in two. -/
theorem trim_append_cons {c : Char} (h : p c = false) (front rest : List Char) :
    trim p (front ++ c :: rest) = front.dropWhile p ++ c :: trimEnd p rest := by
  have hdrop : (front ++ c :: rest).dropWhile p = front.dropWhile p ++ c :: rest := by
    rw [List.dropWhile_append]
    split
    · next hempty =>
        rw [List.isEmpty_iff.1 hempty]
        simp [h]
    · rfl
  rw [trim, hdrop, trimEnd_append_cons h]

/-- Characters of the class at the end are trimmed. -/
theorem trimEnd_append_of_all {tail : List Char} (h : ∀ c ∈ tail, p c = true) (cs : List Char) :
    trimEnd p (cs ++ tail) = trimEnd p cs := by
  rw [trimEnd, List.reverse_append, List.dropWhile_append_of_pos (by simpa using h), ← trimEnd]

theorem trim_append_of_all {tail : List Char} (h : ∀ c ∈ tail, p c = true) (cs : List Char) :
    trim p (cs ++ tail) = trim p cs := by
  rw [trim, List.dropWhile_append]
  split
  · next hempty =>
      rw [trim, List.isEmpty_iff.1 hempty, List.dropWhile_eq_nil_iff.2 h]
  · rw [trimEnd_append_of_all h, ← trim]

/-- What is trimmed at the end is of the class. -/
theorem exists_tail (p : Char → Bool) (cs : List Char) :
    ∃ tail, cs = trimEnd p cs ++ tail ∧ ∀ c ∈ tail, p c = true := by
  refine ⟨(cs.reverse.takeWhile p).reverse, ?_, ?_⟩
  · rw [trimEnd, ← List.reverse_append, List.takeWhile_append_dropWhile, List.reverse_reverse]
  · intro c hc
    exact List.mem_takeWhile_imp (List.mem_reverse.1 hc)

theorem mem_of_mem_trim {c : Char} {cs : List Char} (h : c ∈ trim p cs) : c ∈ cs := by
  have hdrop : c ∈ (cs.dropWhile p).reverse :=
    (List.dropWhile_sublist p).subset (List.mem_reverse.1 h)
  exact (List.dropWhile_sublist p).subset (List.mem_reverse.1 hdrop)

/-- It does no harm to trim the end first. -/
theorem trim_trimEnd (p : Char → Bool) (cs : List Char) : trim p (trimEnd p cs) = trim p cs := by
  obtain ⟨tail, hcs, htail⟩ := exists_tail p cs
  conv_rhs => rw [hcs, trim_append_of_all htail]

/-! ### Words -/

/-- A blank character parts the words of a text in two. -/
theorem words_append_cons {c : Char} (h : isBlank c = true) (front rest : List Char) :
    words (front ++ c :: rest) = words front ++ words rest := by
  rw [words, List.splitOnP_append_cons front rest h, List.filter_append, ← words, ← words]

/-- White space in front of a text adds no word. -/
theorem words_blank_append {gap : List Char} (h : ∀ c ∈ gap, isBlank c = true) (cs : List Char) :
    words (gap ++ cs) = words cs := by
  induction gap with
  | nil => rfl
  | cons c gap ih =>
      obtain ⟨hc, hgap⟩ := List.forall_mem_cons.1 h
      have hparted := words_append_cons hc [] (gap ++ cs)
      rw [List.nil_append, words_nil, List.nil_append] at hparted
      rw [List.cons_append, hparted, ih hgap]

/-- White space behind a text adds no word. -/
theorem words_append_blank {gap : List Char} (h : ∀ c ∈ gap, isBlank c = true) (cs : List Char) :
    words (cs ++ gap) = words cs := by
  cases gap with
  | nil => rw [List.append_nil]
  | cons c gap =>
      obtain ⟨hc, hgap⟩ := List.forall_mem_cons.1 h
      have hnone := words_blank_append hgap []
      rw [List.append_nil] at hnone
      rw [words_append_cons hc, hnone, words_nil, List.append_nil]

theorem words_dropWhile (h : ∀ c, p c = true → isBlank c = true) (cs : List Char) :
    words (cs.dropWhile p) = words cs := by
  have hfront : words (cs.takeWhile p ++ cs.dropWhile p) = words (cs.dropWhile p) :=
    words_blank_append (fun c hc => h c (List.mem_takeWhile_imp hc)) _
  rw [List.takeWhile_append_dropWhile] at hfront
  exact hfront.symm

/-- **Trimming blank characters keeps the words.** -/
theorem words_trim (h : ∀ c, p c = true → isBlank c = true) (cs : List Char) :
    words (trim p cs) = words cs := by
  obtain ⟨tail, hcs, htail⟩ := exists_tail p (cs.dropWhile p)
  have hend : words (cs.dropWhile p) = words (trim p cs) := by
    rw [hcs, words_append_blank fun c hc => h c (htail c hc)]
    rfl
  rw [← hend, words_dropWhile h]

/-! ### Spaced lines -/

/-- White space within a line: blank characters, but no line feed. -/
def IsGap (gap : List Char) : Prop := ∀ c ∈ gap, isBlank c = true ∧ c ≠ '\n'

instance (gap : List Char) : Decidable (IsGap gap) :=
  List.decidableBAll (fun c => isBlank c = true ∧ c ≠ '\n') gap

/-- `Spaced ws cs`: the line `cs` consists of the words `ws`, of which there is at least one, with
white space before, between and behind them; between two words there is some. -/
inductive Spaced : List String → List Char → Prop
  | last {before after : List Char} {w : String} (hbefore : IsGap before) (hafter : IsGap after) :
      Spaced [w] (before ++ w.toList ++ after)
  | next {before gap rest : List Char} {w : String} {ws : List String} (hbefore : IsGap before)
      (hgap : IsGap gap) (hne : gap ≠ []) (h : Spaced ws rest) :
      Spaced (w :: ws) (before ++ w.toList ++ gap ++ rest)

/-- **The words of a spaced line are the words it was made of.** -/
theorem Spaced.words {ws : List String} {cs : List Char} (h : Spaced ws cs)
    (hws : ∀ w ∈ ws, IsWord w) : words cs = ws.map String.toList := by
  induction h with
  | @last before after w hbefore hafter =>
      have hw : IsWord w := hws w List.mem_cons_self
      rw [List.append_assoc, words_blank_append fun c hc => (hbefore c hc).1,
        words_append_blank fun c hc => (hafter c hc).1,
        words_eq_singleton hw.toList_ne_nil hw.not_blank]
      rfl
  | @next before gap rest w ws hbefore hgap hne _ ih =>
      obtain ⟨hw, hrest⟩ := List.forall_mem_cons.1 hws
      obtain ⟨c, gap, rfl⟩ := List.exists_cons_of_ne_nil hne
      obtain ⟨hc, hgap⟩ := List.forall_mem_cons.1 hgap
      rw [List.append_assoc, List.append_assoc, words_blank_append fun c hc => (hbefore c hc).1,
        List.cons_append, words_append_cons hc.1, words_blank_append fun c hc => (hgap c hc).1,
        words_eq_singleton hw.toList_ne_nil hw.not_blank, ih hrest]
      rfl

/-- A character of a spaced line belongs to the white space or to a word. -/
theorem Spaced.mem {ws : List String} {cs : List Char} (h : Spaced ws cs) {c : Char}
    (hc : c ∈ cs) : (isBlank c = true ∧ c ≠ '\n') ∨ ∃ w ∈ ws, c ∈ w.toList := by
  induction h with
  | last hbefore hafter =>
      simp only [List.mem_append] at hc
      rcases hc with (hc | hc) | hc
      · exact Or.inl (hbefore c hc)
      · exact Or.inr ⟨_, List.mem_cons_self, hc⟩
      · exact Or.inl (hafter c hc)
  | next hbefore hgap _ _ ih =>
      simp only [List.mem_append] at hc
      rcases hc with ((hc | hc) | hc) | hc
      · exact Or.inl (hbefore c hc)
      · exact Or.inr ⟨_, List.mem_cons_self, hc⟩
      · exact Or.inl (hgap c hc)
      · rcases ih hc with hblank | ⟨w, hw, hcw⟩
        · exact Or.inl hblank
        · exact Or.inr ⟨w, List.mem_cons_of_mem _ hw, hcw⟩

/-- A spaced line holds a character that is not blank. -/
theorem Spaced.exists_not_blank {ws : List String} {cs : List Char} (h : Spaced ws cs)
    (hws : ∀ w ∈ ws, IsWord w) : ∃ c ∈ cs, isBlank c = false := by
  have hfirst : ∀ w : String, IsWord w → ∃ c ∈ w.toList, isBlank c = false := by
    intro w hw
    exact ⟨_, List.getLast_mem hw.toList_ne_nil, hw.not_blank _ (List.getLast_mem _)⟩
  cases h with
  | last _ _ =>
      obtain ⟨c, hc, hblank⟩ := hfirst _ (hws _ List.mem_cons_self)
      exact ⟨c, by simp [hc], hblank⟩
  | next _ _ _ _ =>
      obtain ⟨c, hc, hblank⟩ := hfirst _ (hws _ List.mem_cons_self)
      exact ⟨c, by simp [hc], hblank⟩

end AccMachine.Text
