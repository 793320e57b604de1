/-
**Tables with text keys.**

A table assigns values to finitely many texts.  Storage slots, labels, subroutines and source
texts are all kept in tables.  The entries stand in the order in which their keys first came, so
a table can be listed; every other question is answered through `Table.find?`.

Main definitions:

* `Table` — a list of entries, read through the first entry of a key;
* `Table.find?`, `Table.put`, `Table.erase` — reading, overwriting or adding, and removing.

Main results:

* `Table.find?_put` — after a `put`, the key has the new value and every other key its old one;
* `Table.find?_erase` — after an `erase`, the key has no value and every other key its old one;
* `Table.keys_put` — a `put` adds its key at the end, or leaves the keys as they are.
-/

set_option relaxedAutoImplicit false
set_option autoImplicit false

namespace AccMachine

/-- A finite assignment of values to texts, in the order in which the keys first came. -/
structure Table (α : Type) where
  entries : List (String × α)

namespace Table

variable {α : Type}

/-- The table without entries. -/
def empty : Table α := ⟨[]⟩

instance : EmptyCollection (Table α) := ⟨empty⟩

instance : Inhabited (Table α) := ⟨empty⟩

/-! ### Reading -/

/-- The value of the first entry whose key is `key`. -/
def lookupIn (key : String) : List (String × α) → Option α
  | [] => none
  | (k, v) :: rest => if k = key then some v else lookupIn key rest

/-- The value of `key`, if it has one. -/
def find? (t : Table α) (key : String) : Option α := lookupIn key t.entries

/-- The keys, in the order in which they first came. -/
def keys (t : Table α) : List String := t.entries.map Prod.fst

/-- The number of entries. -/
def size (t : Table α) : Nat := t.entries.length

/-! ### Writing -/

/-- Overwrites the first entry of `key`, or adds an entry for it at the end. -/
def putIn (key : String) (value : α) : List (String × α) → List (String × α)
  | [] => [(key, value)]
  | (k, v) :: rest => if k = key then (k, value) :: rest else (k, v) :: putIn key value rest

/-- Gives `key` the value `value`. -/
def put (t : Table α) (key : String) (value : α) : Table α := ⟨putIn key value t.entries⟩

/-- Removes every entry of `key`. -/
def erase (t : Table α) (key : String) : Table α :=
  ⟨t.entries.filter fun e => e.1 ≠ key⟩

/-- The table of the given entries, a later entry of a key overwriting an earlier one. -/
def ofList (entries : List (String × α)) : Table α :=
  entries.foldl (fun t e => t.put e.1 e.2) empty

/-! ### Reading after writing -/

@[simp] theorem find?_empty (key : String) : (empty : Table α).find? key = none := rfl

theorem lookupIn_putIn (key key' : String) (value : α) (entries : List (String × α)) :
    lookupIn key' (putIn key value entries)
      = if key = key' then some value else lookupIn key' entries := by
  induction entries with
  | nil => rfl
  | cons e rest ih =>
    obtain ⟨k, v⟩ := e
    by_cases hk : k = key
    · subst hk
      simp only [putIn, lookupIn, if_true]
      by_cases h : k = key' <;> simp [h]
    · simp only [putIn, lookupIn, if_neg hk, ih]
      by_cases h : k = key'
      · subst h
        simp [Ne.symm hk]
      · simp [h]

theorem find?_put (t : Table α) (key key' : String) (value : α) :
    (t.put key value).find? key' = if key = key' then some value else t.find? key' :=
  lookupIn_putIn key key' value t.entries

@[simp] theorem find?_put_self (t : Table α) (key : String) (value : α) :
    (t.put key value).find? key = some value := by simp [find?_put]

theorem find?_put_of_ne (t : Table α) {key key' : String} (h : key ≠ key') (value : α) :
    (t.put key value).find? key' = t.find? key' := by simp [find?_put, h]

theorem find?_erase (t : Table α) (key key' : String) :
    (t.erase key).find? key' = if key = key' then none else t.find? key' := by
  obtain ⟨entries⟩ := t
  simp only [find?, erase]
  induction entries with
  | nil => simp [lookupIn]
  | cons e rest ih =>
    obtain ⟨k, v⟩ := e
    by_cases hk : k = key
    · subst hk
      simp only [List.filter_cons, ne_eq, not_true_eq_false, decide_false, Bool.false_eq_true,
        if_false, ih, lookupIn]
      by_cases h : k = key' <;> simp [h]
    · simp only [List.filter_cons, ne_eq, hk, not_false_eq_true, decide_true, if_true, lookupIn, ih]
      by_cases h : k = key'
      · subst h
        simp [Ne.symm hk]
      · simp [h]

/-! ### The keys after writing -/

theorem find?_eq_none_iff (t : Table α) (key : String) : t.find? key = none ↔ key ∉ t.keys := by
  obtain ⟨entries⟩ := t
  simp only [find?, keys]
  induction entries with
  | nil => simp [lookupIn]
  | cons e rest ih =>
    obtain ⟨k, v⟩ := e
    by_cases hk : k = key
    · simp [lookupIn, hk]
    · simp only [lookupIn, if_neg hk, ih, List.map_cons, List.mem_cons, not_or]
      exact ⟨fun h => ⟨Ne.symm hk, h⟩, fun h => h.2⟩

theorem keys_put (t : Table α) (key : String) (value : α) :
    (t.put key value).keys = if key ∈ t.keys then t.keys else t.keys ++ [key] := by
  obtain ⟨entries⟩ := t
  simp only [keys, put]
  induction entries with
  | nil => simp [putIn]
  | cons e rest ih =>
    obtain ⟨k, v⟩ := e
    by_cases hk : k = key
    · simp [putIn, hk]
    · simp only [putIn, if_neg hk, List.map_cons, ih, List.mem_cons, Ne.symm hk, false_or]
      by_cases h : key ∈ rest.map Prod.fst <;> simp [h]

end Table

end AccMachine
