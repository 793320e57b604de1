/-
**A sheet can be read back.**

An entry of the trace shows the words of a line and an accumulator between fixed texts.  A word may
hold brackets, and several of them may look like the end of an entry.  But the accumulator holds no
space, so it is what stands behind the last one; and when the fixed texts are taken off, then the
words are left with single spaces between them.  No word holds a line feed, so the lines of a sheet
are its entries.  Therefore a sheet tells which lines were executed, in which order, and with which
accumulators.

Main definitions:

* `Record.Readable`, `Record.ofLine` — a record that consists of words, and that of a line of text;
* `Record.read?`, `Record.readSheet?` — reading an entry from its end, and a sheet line by line;
* `Tracer.recordAll` — a tracer after further entries.

Main results:

* `Text.wordsOf_intercalate` — words with spaces between them are read back;
* `Record.read?_entry`, `Record.readSheet?_sheetText` — **entries and sheets are read back**;
* `Record.entries_unambiguous` — **entries and sheets are unambiguous**;
* `Session.Runs.readSheet?`, `Session.Runs.eq_of_sheet_eq` — **the sheet of dry runs is read back**
  as the lines that were executed.
-/

import AccMachine.Proofs.SheetRecord
import AccMachine.Proofs.Spacing
import Mathlib.Data.List.DropRight

set_option relaxedAutoImplicit false
set_option autoImplicit false

namespace AccMachine

/-! ### Words with spaces between them -/

namespace Text

/-- Words with spaces between them are read back. -/
theorem words_intercalate {ws : List (List Char)}
    (h : ∀ w ∈ ws, w ≠ [] ∧ ∀ c ∈ w, isBlank c = false) : words ([' '].intercalate ws) = ws := by
  induction ws with
  | nil => rfl
  | cons w ws ih =>
      obtain ⟨⟨hne, hw⟩, hws⟩ := List.forall_mem_cons.1 h
      cases ws with
      | nil => simpa using words_eq_singleton hne hw
      | cons w' ws =>
          rw [List.intercalate_cons_cons, List.append_assoc, List.singleton_append,
            words_append_cons (by decide), words_eq_singleton hne hw, ih hws]
          rfl

theorem wordsOf_intercalate {ws : List String} (h : ∀ w ∈ ws, IsWord w) :
    wordsOf (" ".intercalate ws) = ws := by
  have hwords : words ([' '].intercalate (ws.map String.toList)) = ws.map String.toList := by
    refine words_intercalate fun w hw => ?_
    obtain ⟨w, hmem, rfl⟩ := List.mem_map.1 hw
    exact ⟨(h w hmem).toList_ne_nil, (h w hmem).not_blank⟩
  rw [wordsOf, String.toList_intercalate]
  change (words ([' '].intercalate _)).map _ = _
  rw [hwords, List.map_map]
  simp

/-- Between words with spaces between them there is no other blank character. -/
theorem not_mem_intercalate {c : Char} (hblank : isBlank c = true) (hspace : c ≠ ' ')
    {ws : List String} (h : ∀ w ∈ ws, IsWord w) : c ∉ (" ".intercalate ws).toList := by
  rw [String.toList_intercalate]
  change c ∉ [' '].intercalate _
  induction ws with
  | nil => exact List.not_mem_nil
  | cons w ws ih =>
      obtain ⟨hw, hws⟩ := List.forall_mem_cons.1 h
      cases ws with
      | nil => simpa using hw.not_mem hblank
      | cons w' ws =>
          rw [List.map_cons, List.map_cons, List.intercalate_cons_cons, ← List.map_cons]
          simp only [List.mem_append, List.mem_singleton, not_or]
          exact ⟨⟨hw.not_mem hblank, hspace⟩, ih hws⟩

end Text

namespace Record

/-! ### Entries -/

/-- The record consists of words, as that of a line of text does. -/
def Readable (r : Record) : Prop := ∀ w ∈ r.words, Text.IsWord w

/-- The record of a line of text, executed with this accumulator. -/
def ofLine (line : String × Int64) : Record := ⟨Text.wordsOf line.1, line.2⟩

theorem readable_ofLine (line : String × Int64) : (ofLine line).Readable :=
  fun _ => Text.isWord_of_mem_wordsOf

/-- The text before the words of an entry. -/
def opening : String := "Instruction: ["

/-- The text between the words of an entry and its accumulator, up to the last space. -/
def closing : String := "] Accumulator:"

/-- Reads an entry from its end: the accumulator stands behind the last space, and the words are
what the fixed texts leave of the rest. -/
def read? (entry : List Char) : Option Record :=
  match Decimal.parseChars (entry.rtakeWhile fun c => c ≠ ' ') with
  | .error _ => none
  | .ok v =>
    let front := (entry.rdropWhile fun c => c ≠ ' ').dropLast
    let shown := (front.drop opening.toList.length).rdrop closing.toList.length
    some ⟨(Text.words shown).map String.ofList, v⟩

theorem toList_entry (r : Record) : r.entry.toList =
    (opening.toList ++ ((" ".intercalate r.words).toList ++ closing.toList)) ++
      ' ' :: (Decimal.render r.accumulator).toList := by
  have hentry : r.entry = opening ++ " ".intercalate r.words ++ "] Accumulator: " ++
      Decimal.render r.accumulator := rfl
  have hclosing : "] Accumulator: " = closing ++ " " := by decide
  have hspace : " ".toList = [' '] := by decide
  rw [hentry, hclosing]
  simp only [String.toList_append, hspace, List.append_assoc, List.singleton_append]

/-- The last space of a text parts it in two. -/
theorem rtakeWhile_append_space {back : List Char} (h : ' ' ∉ back) (front : List Char) :
    (front ++ ' ' :: back).rtakeWhile (fun c => c ≠ ' ') = back ∧
      (front ++ ' ' :: back).rdropWhile (fun c => c ≠ ' ') = front ++ [' '] := by
  have hback : ∀ c ∈ back.reverse, decide (c ≠ ' ') = true := by
    intro c hc
    exact decide_eq_true fun heq => h (heq ▸ List.mem_reverse.1 hc)
  have hreverse : (front ++ ' ' :: back).reverse = back.reverse ++ ' ' :: front.reverse := by simp
  constructor
  · rw [List.rtakeWhile, hreverse, List.takeWhile_append_of_pos hback]
    simp
  · rw [List.rdropWhile, hreverse, List.dropWhile_append_of_pos hback]
    simp

/-- **An entry is read back**, whatever its words look like. -/
theorem read?_entry {r : Record} (h : r.Readable) : read? r.entry.toList = some r := by
  obtain ⟨hback, hfront⟩ := rtakeWhile_append_space
    ((Decimal.isWord_render r.accumulator).not_mem (by decide))
    (opening.toList ++ ((" ".intercalate r.words).toList ++ closing.toList))
  have hnumber : Decimal.parseChars (Decimal.render r.accumulator).toList = .ok r.accumulator :=
    Decimal.parse_render r.accumulator
  have hwords : (Text.words (" ".intercalate r.words).toList).map String.ofList = r.words :=
    Text.wordsOf_intercalate h
  simp only [read?, toList_entry, hback, hfront, hnumber, List.dropLast_concat,
    List.drop_left, List.rdrop_append_length, hwords]

/-- A word may look like the end of an entry. -/
example : read? "Instruction: [] Accumulator: 1] Accumulator: -2".toList =
    some ⟨["]", "Accumulator:", "1"], -2⟩ := by decide +kernel

/-- The words and the accumulator of an entry can be told from it. -/
theorem entry_injective {r r' : Record} (h : r.Readable) (h' : r'.Readable)
    (heq : r.entry = r'.entry) : r = r' := by
  have hread := read?_entry h
  rw [heq, read?_entry h'] at hread
  exact (Option.some.inj hread).symm

/-- An entry is a single line. -/
theorem newline_not_mem_entry {r : Record} (h : r.Readable) : '\n' ∉ r.entry.toList := by
  have hwords : '\n' ∉ (" ".intercalate r.words).toList :=
    Text.not_mem_intercalate (by decide) (by decide) h
  have hnumber : '\n' ∉ (Decimal.render r.accumulator).toList :=
    (Decimal.isWord_render r.accumulator).not_mem (by decide)
  rw [toList_entry]
  simp only [List.mem_append, List.mem_cons, not_or]
  exact ⟨⟨by decide, hwords, by decide⟩, by decide, hnumber⟩

end Record

/-! ### Sheets -/

/-- The lines of a sheet are its entries, and an empty one behind the last line feed. -/
theorem splitOn_sheetText {entries : List String} (h : ∀ entry ∈ entries, '\n' ∉ entry.toList) :
    (sheetText entries).toList.splitOn '\n' = entries.map String.toList ++ [[]] := by
  induction entries with
  | nil => rfl
  | cons entry entries ih =>
      obtain ⟨hentry, hentries⟩ := List.forall_mem_cons.1 h
      have hsheet : (sheetText (entry :: entries)).toList =
          entry.toList ++ '\n' :: (sheetText entries).toList := by
        simp [sheetText]
      rw [hsheet, List.splitOn_append_cons_self, List.splitOn_eq_singleton hentry, ih hentries]
      rfl

/-- Reads a sheet line by line. -/
def Record.readSheet? (sheet : String) : Option (List Record) :=
  (sheet.toList.splitOn '\n').dropLast.mapM read?

/-- **A sheet is read back as the records whose entries it holds.** -/
theorem Record.readSheet?_sheetText {records : List Record} (h : ∀ r ∈ records, r.Readable) :
    readSheet? (sheetText (records.map entry)) = some records := by
  have hlines : ∀ e ∈ records.map entry, '\n' ∉ e.toList := by
    intro e he
    obtain ⟨r, hr, rfl⟩ := List.mem_map.1 he
    exact newline_not_mem_entry (h r hr)
  rw [readSheet?, splitOn_sheetText hlines, List.dropLast_concat, List.map_map]
  clear hlines
  induction records with
  | nil => rfl
  | cons r records ih =>
      obtain ⟨hr, hrecords⟩ := List.forall_mem_cons.1 h
      rw [List.map_cons, List.mapM_cons, ih hrecords, Function.comp_apply, read?_entry hr]
      rfl

/-- A tracer after the entries of further records. -/
def Tracer.recordAll (t : Tracer) (records : List Record) : Tracer :=
  records.foldl (fun t r => t.append r.entry) t

theorem Tracer.sheet_recordAll (t : Tracer) (records : List Record) :
    (t.recordAll records).sheet = t.sheet ++ sheetText (records.map Record.entry) := by
  induction records generalizing t with
  | nil => simp [recordAll]
  | cons r records ih =>
      have hstep : t.recordAll (r :: records) = (t.append r.entry).recordAll records := rfl
      have hsheet : sheetText ((r :: records).map Record.entry) =
          sheetText [r.entry] ++ sheetText (records.map Record.entry) := sheetText_append [_] _
      rw [hstep, ih, Tracer.append_eq, hsheet, String.append_assoc]

/-- What was added to a sheet can be told from the sheet. -/
theorem Tracer.recordAll_injective {t : Tracer} {records records' : List Record}
    (h : ∀ r ∈ records, r.Readable) (h' : ∀ r ∈ records', r.Readable)
    (heq : (t.recordAll records).sheet = (t.recordAll records').sheet) : records = records' := by
  rw [sheet_recordAll, sheet_recordAll, String.append_right_inj] at heq
  have hread := Record.readSheet?_sheetText h
  rw [heq, Record.readSheet?_sheetText h'] at hread
  exact (Option.some.inj hread).symm

/-- **Entries and sheets are unambiguous.**  Lines with the same entry have the same words and the
same accumulator, no entry of a line holds a line feed, and a sheet to which the entries of lines
were added tells the words and the accumulator of each of them, in order. -/
theorem Record.entries_unambiguous :
    (∀ (text text' : String) (v v' : Int64),
      traceEntry (Text.wordsOf text) v = traceEntry (Text.wordsOf text') v' ↔
        Text.wordsOf text = Text.wordsOf text' ∧ v = v') ∧
    (∀ (text : String) (v : Int64), '\n' ∉ (traceEntry (Text.wordsOf text) v).toList) ∧
    ∀ (t : Tracer) (lines lines' : List (String × Int64)),
      (t.recordAll (lines.map ofLine)).sheet = (t.recordAll (lines'.map ofLine)).sheet ↔
        lines.map ofLine = lines'.map ofLine := by
  have hreadable : ∀ lines : List (String × Int64), ∀ r ∈ lines.map ofLine, r.Readable := by
    intro lines r hr
    obtain ⟨line, -, rfl⟩ := List.mem_map.1 hr
    exact readable_ofLine line
  have hentry : ∀ (text : String) (v : Int64),
      traceEntry (Text.wordsOf text) v = (ofLine (text, v)).entry := fun _ _ => rfl
  refine ⟨fun text text' v v' => ⟨fun h => ?_, ?_⟩, fun text v => ?_, fun t lines lines' => ?_⟩
  · rw [hentry, hentry] at h
    exact Record.mk.inj
      (entry_injective (readable_ofLine (text, v)) (readable_ofLine (text', v')) h)
  · rintro ⟨hwords, rfl⟩
    rw [hwords]
  · rw [hentry]
    exact newline_not_mem_entry (readable_ofLine (text, v))
  · exact ⟨Tracer.recordAll_injective (hreadable lines) (hreadable lines'), fun h => by rw [h]⟩

/-! ### The sheet of dry runs -/

section

variable {κ : Type} [Console κ]

theorem Chain.readable_of_mem_record? {c : Chain} {r : Record} (h : r ∈ c.record?.toList) :
    r.Readable := by
  obtain ⟨text, -, rfl⟩ := Option.map_eq_some_iff.1 (Option.mem_toList.1 h)
  exact Record.readable_ofLine (text, c.active.accumulator)

/-- Every line that was executed is the record of a line of text. -/
theorem Chain.Executes.readable {c c' : Chain} {s s' : Session κ} {records : List Record}
    (h : Executes c s records c' s') : ∀ r ∈ records, r.Readable := by
  induction h with
  | refl => nofun
  | tail _ _ ih => exact List.forall_mem_append.2 ⟨ih, fun _ => readable_of_mem_record?⟩

theorem Machine.RunsThrough.readable {m m' : Machine} {s s' : Session κ} {records : List Record}
    {ending : Ending} (h : m.RunsThrough s records ending m' s') : ∀ r ∈ records, r.Readable := by
  obtain ⟨earlier, c, s₁, ending₁, s₂, hearlier, -, -, rfl⟩ := h
  exact List.forall_mem_append.2 ⟨hearlier.readable, fun _ => Chain.readable_of_mem_record?⟩

namespace Session.Runs

variable {s s₁ s₂ : Session κ} {records records' : List Record}

theorem readable (h : s.Runs records s₁) : ∀ r ∈ records, r.Readable := by
  induction h with
  | none => nofun
  | run _ _ hr ih => exact List.forall_mem_append.2 ⟨ih, hr.readable⟩

/-- **The sheet of dry runs is read back** as the lines that they have executed. -/
theorem readSheet? (hmode : s.tracer.mode = .dryRun) (hempty : s.tracer.sheet = "")
    (h : s.Runs records s₁) : Record.readSheet? s₁.tracer.sheet = some records := by
  rw [h.tracer hmode, hempty, String.empty_append]
  exact Record.readSheet?_sheetText h.readable

/-- Dry runs that leave the same sheet behind have executed the same lines. -/
theorem eq_of_sheet_eq (hmode : s.tracer.mode = .dryRun) (h : s.Runs records s₁)
    (h' : s.Runs records' s₂) (heq : s₁.tracer.sheet = s₂.tracer.sheet) : records = records' := by
  refine Tracer.recordAll_injective (t := s.tracer) h.readable h'.readable ?_
  rw [Tracer.sheet_recordAll, Tracer.sheet_recordAll]
  rwa [h.tracer hmode, h'.tracer hmode] at heq

end Session.Runs

end

end AccMachine
