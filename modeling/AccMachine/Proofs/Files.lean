/-
**Files that were written.**

Whether a file can be written depends on its path and on what stands there, and not on the text;
and reading a file after it was written gives the text back.  The second needs an argument, since
the path is followed anew through a tree that has changed: it has changed only at the end of the
path, where no directory stands, and only directories are walked through.

Main results:

* `FileTree.write_any` — a file that can be written can be written with any text;
* `FileTree.read_write` — **a file that was written is read back**.
-/

import AccMachine.FileTree

set_option relaxedAutoImplicit false
set_option autoImplicit false

namespace AccMachine.FileTree

/-- A file can be written exactly when its path leads somewhere and no directory stands there. -/
theorem write_eq_ok_iff {t t' : FileTree} {path text : String} :
    t.write path text = .ok t' ↔
      ∃ place, t.resolve path = .ok place ∧ t.find? place ≠ some .directory ∧
        t' = t.set place (.file text.toUTF8) := by
  unfold write
  constructor
  · intro h
    split at h
    · cases h
    · next place hplace =>
        split at h
        · cases h
        · next content hfind =>
            cases h
            exact ⟨place, hplace, by simp [hfind], rfl⟩
        · next hfind =>
            cases h
            exact ⟨place, hplace, by simp [hfind], rfl⟩
  · rintro ⟨place, hplace, hfind, rfl⟩
    simp only [hplace]
    split
    · next hd => exact absurd hd hfind
    · rfl
    · rfl

/-- A file that can be written can be written with any text. -/
theorem write_any {t t' : FileTree} {path text : String} (h : t.write path text = .ok t')
    (text' : String) : ∃ t'', t.write path text' = .ok t'' := by
  obtain ⟨place, hplace, hfind, -⟩ := write_eq_ok_iff.1 h
  exact ⟨_, write_eq_ok_iff.2 ⟨place, hplace, hfind, rfl⟩⟩

/-- A place where no directory stands is not the top. -/
theorem ne_nil_of_find? {t : FileTree} {place : List String}
    (h : t.find? place ≠ some .directory) : place ≠ [] := by
  rintro rfl
  exact h rfl

/-- A walk does not notice a file that is put where no directory stood. -/
theorem walk_set {t : FileTree} {place : List String} (hplace : t.find? place ≠ some .directory)
    (entry : FileEntry) {here there : List String} {names : List String}
    (h : t.walk here names = .ok there) : (t.set place entry).walk here names = .ok there := by
  induction names generalizing here with
  | nil => exact h
  | cons name rest ih =>
      simp only [walk] at h ⊢
      split at h
      · cases h
      · cases h
      · next hhere =>
          -- The walk stands on a directory here, so this is another place.
          have hne : place ≠ here := by
            rintro rfl
            exact hplace hhere
          rw [find?_set t (ne_nil_of_find? hplace), if_neg hne, hhere]
          dsimp only
          split at h
          · next hstay =>
              rw [if_pos hstay]
              exact ih h
          · next hstay =>
              rw [if_neg hstay]
              split at h
              · next hup =>
                  rw [if_pos hup]
                  exact ih h
              · next hup =>
                  rw [if_neg hup]
                  split at h
                  · cases h
                  · next hlong =>
                      rw [if_neg hlong]
                      exact ih h

theorem resolve_set {t : FileTree} {place : List String}
    (hplace : t.find? place ≠ some .directory) (entry : FileEntry) {path : String}
    (h : t.resolve path = .ok place) : (t.set place entry).resolve path = .ok place := by
  unfold resolve at h ⊢
  split at h
  · cases h
  · next hnul =>
      rw [if_neg hnul]
      split at h
      · cases h
      · next hlong =>
          rw [if_neg hlong]
          split at h
          · cases h
          · next hempty =>
              rw [if_neg hempty]
              exact walk_set hplace entry h

/-- The bytes of a text encode that text. -/
theorem decodeText_toUTF8 (text : String) : decodeText text.toUTF8 = .ok text := by
  have hvalid : text.toUTF8.IsValidUTF8 := text.isValidUTF8
  have hdecode : String.fromUTF8? text.toUTF8 = some text := by
    rw [String.fromUTF8?, dif_pos hvalid]
    rfl
  rw [decodeText, hdecode]

/-- **A file that was written is read back.** -/
theorem read_write {t t' : FileTree} {path text : String} (h : t.write path text = .ok t') :
    t'.read path = .ok text := by
  obtain ⟨place, hplace, hfind, rfl⟩ := write_eq_ok_iff.1 h
  have hbytes : (t.set place (.file text.toUTF8)).readBytes path = .ok text.toUTF8 := by
    unfold readBytes
    rw [resolve_set hfind _ hplace]
    dsimp only
    rw [find?_set t (ne_nil_of_find? hfind), if_pos rfl]
  rw [read, hbytes]
  exact decodeText_toUTF8 text

end AccMachine.FileTree
