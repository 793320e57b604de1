/-
**Lines in a stream of bytes.**

The terminal hands out the bytes of its input up to and including a line feed.  The input is a text
in UTF-8, in which the byte of a line feed belongs to no other character, so the bytes that are
handed out are those of a piece of the text: the text is cut behind each of its line feeds.

Main definitions:

* `Text.pieces` — a text, cut behind each line feed;
* `Text.encode` — the bytes of a text;
* `Text.IsLineOf` — a line with or without its line end.

Main results:

* `Text.flatten_pieces` — a text is cut without loss;
* `Text.lineFeed_not_mem_encode` — **no other character has the byte of a line feed**;
* `Terminal.cutLine_encode` — the terminal cuts off the first piece.
-/

import AccMachine.CommandLine.Terminal
import AccMachine.Proofs.Files
import AccMachine.Proofs.Spacing

set_option relaxedAutoImplicit false
set_option autoImplicit false

namespace AccMachine

namespace Text

/-! ### Pieces of a text -/

/-- The text cut behind each of its line feeds; what comes behind the last one is a piece too,
unless it is empty. -/
def pieces : List Char → List (List Char)
  | [] => []
  | c :: rest =>
    if c = '\n' then [c] :: pieces rest
    else
      match pieces rest with
      | [] => [[c]]
      | piece :: later => (c :: piece) :: later

theorem pieces_cons {c : Char} (h : c ≠ '\n') (rest : List Char) :
    pieces (c :: rest) = (c :: (pieces rest).headD []) :: (pieces rest).tail := by
  rw [pieces, if_neg h]
  cases pieces rest <;> rfl

/-- Cutting loses nothing. -/
theorem flatten_pieces (cs : List Char) : (pieces cs).flatten = cs := by
  induction cs with
  | nil => rfl
  | cons c rest ih =>
      by_cases hc : c = '\n'
      · rw [pieces, if_pos hc, List.flatten_cons, ih]
        rfl
      · rw [pieces_cons hc]
        cases hrest : pieces rest with
        | nil =>
            rw [hrest] at ih
            rw [← ih]
            rfl
        | cons piece later =>
            rw [hrest] at ih
            rw [← ih]
            rfl

/-- The later pieces of a text are the pieces of the text that they make up. -/
theorem pieces_flatten_tail (cs : List Char) :
    pieces (pieces cs).tail.flatten = (pieces cs).tail := by
  induction cs with
  | nil => rfl
  | cons c rest ih =>
      by_cases hc : c = '\n'
      · rw [pieces, if_pos hc, List.tail_cons, flatten_pieces]
      · rw [pieces_cons hc, List.tail_cons, ih]

/-! ### Lines without their line ends -/

/-- The line is the piece as it stands, or without the line feed, or without the carriage return and
the line feed, with which the piece ends. -/
def IsLineOf (piece line : String) : Prop :=
  line = piece ∨ line ++ "\n" = piece ∨ line ++ "\r\n" = piece

theorem trimmed_append_blank (line : String) {tail : String}
    (h : tail.toList.all isBlank = true) : trimmed (line ++ tail) = trimmed line := by
  rw [trimmed, trimmed, String.toList_append, trim_append_of_all (List.all_eq_true.1 h)]

/-- A line end makes no difference to the trimmed line. -/
theorem IsLineOf.trimmed {piece line : String} (h : IsLineOf piece line) :
    Text.trimmed line = Text.trimmed piece := by
  rcases h with rfl | rfl | rfl
  · rfl
  · exact (trimmed_append_blank line (by decide +kernel)).symm
  · exact (trimmed_append_blank line (by decide +kernel)).symm

theorem map_trimmed_of_forall₂ {pieces lines : List String}
    (h : List.Forall₂ IsLineOf pieces lines) :
    pieces.map Text.trimmed = lines.map Text.trimmed := by
  induction h with
  | nil => rfl
  | cons hline _ ih => rw [List.map_cons, List.map_cons, hline.trimmed, ih]

/-! ### Bytes -/

/-- The bytes of a text. -/
def encode (cs : List Char) : List UInt8 := cs.flatMap String.utf8EncodeChar

theorem encode_cons (c : Char) (cs : List Char) :
    encode (c :: cs) = String.utf8EncodeChar c ++ encode cs := List.flatMap_cons

theorem encode_eq (text : String) : text.toUTF8.data.toList = encode text.toList := by
  have hbytes : text.toUTF8 = (encode text.toList).toByteArray := String.utf8Encode_toList.symm
  rw [hbytes, List.data_toByteArray]

theorem encode_eq_nil_iff {cs : List Char} : encode cs = [] ↔ cs = [] := by
  cases cs with
  | nil => exact iff_of_true rfl rfl
  | cons c cs =>
      rw [encode_cons, List.append_eq_nil_iff]
      exact iff_of_false (fun h => String.utf8EncodeChar_ne_nil h.1) (List.cons_ne_nil _ _)

/-- The bytes of a text encode that text. -/
theorem decodeText_encode (cs : List Char) :
    FileTree.decodeText ⟨(encode cs).toArray⟩ = .ok (String.ofList cs) := by
  have hbytes : (⟨(encode cs).toArray⟩ : ByteArray) = (String.ofList cs).toUTF8 := by
    rw [ByteArray.ext_iff, String.toUTF8, String.toByteArray_ofList, List.utf8Encode,
      List.data_toByteArray]
    rfl
  rw [hbytes, FileTree.decodeText_toUTF8]

/-- **No other character has the byte of a line feed.** -/
theorem lineFeed_not_mem_encode {c : Char} (h : c ≠ '\n') :
    Terminal.lineFeed ∉ String.utf8EncodeChar c := by
  have hval : c.val.toNat ≠ 10 := by
    intro hval
    exact h (Char.ext (UInt32.toNat_inj.1 hval))
  -- The bytes of a longer encoding all have their highest bit set.
  have hhigh : ∀ n : Nat, 10 < n % 256 → Terminal.lineFeed ≠ UInt8.ofNat n := by
    intro n hn heq
    have hnat := congrArg UInt8.toNat heq
    rw [UInt8.toNat_ofNat'] at hnat
    change 10 = n % 256 at hnat
    omega
  have hlow : c.val.toNat ≤ 127 → Terminal.lineFeed ≠ UInt8.ofNat c.val.toNat := by
    intro hle heq
    have hnat := congrArg UInt8.toNat heq
    rw [UInt8.toNat_ofNat'] at hnat
    change 10 = c.val.toNat % 256 at hnat
    omega
  unfold String.utf8EncodeChar
  dsimp only
  split
  · next hle => simpa using hlow hle
  · split
    · simp only [List.mem_cons, List.not_mem_nil, or_false, not_or]
      exact ⟨hhigh _ (by omega), hhigh _ (by omega)⟩
    · split
      · simp only [List.mem_cons, List.not_mem_nil, or_false, not_or]
        exact ⟨hhigh _ (by omega), hhigh _ (by omega), hhigh _ (by omega)⟩
      · simp only [List.mem_cons, List.not_mem_nil, or_false, not_or]
        exact ⟨hhigh _ (by omega), hhigh _ (by omega), hhigh _ (by omega), hhigh _ (by omega)⟩

end Text

namespace Terminal

/-! ### Cutting off a line -/

theorem cutLine_append_of_not_mem {bytes : List UInt8} (h : lineFeed ∉ bytes)
    (rest : List UInt8) :
    cutLine (bytes ++ rest) = (bytes ++ (cutLine rest).1, (cutLine rest).2) := by
  induction bytes with
  | nil => rfl
  | cons b bytes ih =>
      obtain ⟨hb, hbytes⟩ := not_or.1 (mt List.mem_cons.2 h)
      rw [List.cons_append, cutLine, if_neg (Ne.symm hb), ih hbytes]
      rfl

/-- **The terminal cuts off the first piece of a text**, and the others are left. -/
theorem cutLine_encode (cs : List Char) :
    cutLine (Text.encode cs) =
      (Text.encode ((Text.pieces cs).headD []), Text.encode (Text.pieces cs).tail.flatten) := by
  induction cs with
  | nil => rfl
  | cons c rest ih =>
      by_cases hc : c = '\n'
      · subst hc
        have hbyte : Text.encode ('\n' :: rest) = lineFeed :: Text.encode rest := rfl
        rw [hbyte, cutLine, if_pos rfl, Text.pieces, if_pos rfl, List.tail_cons,
          Text.flatten_pieces]
        rfl
      · rw [Text.encode_cons, cutLine_append_of_not_mem (Text.lineFeed_not_mem_encode hc), ih,
          Text.pieces_cons hc, List.headD_cons, List.tail_cons, Text.encode_cons]

end Terminal

end AccMachine
