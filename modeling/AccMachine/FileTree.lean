/-
**A tree of files.**

Programs may be read from files, and the dry-run sheet is written to one.  A path is followed
component by component from the working directory, or from the top if it begins with a slash;
`.` and `..` name the directory itself and the one above, and every component but the last must be
a directory.

Main definitions:

* `FileTree` — the files and directories below the top;
* `FileTree.walk` — where a list of path components leads;
* `FileTree.read` — the text of the file that a path names;
* `FileTree.write` — gives the file that a path names a new content;
* `FileTree.install` — adds a file or a directory together with the directories above it.

Main results:

* `FileTree.find?_set` — setting an entry changes that entry and no other.
-/

import AccMachine.Fault

set_option relaxedAutoImplicit false
set_option autoImplicit false

namespace AccMachine

/-- What stands at a place of a file tree. -/
inductive FileEntry where
  | file (content : ByteArray)
  | directory

/-- Files and directories, each with its place: the names on the way from the top. -/
structure FileTree where
  entries : List (List String × FileEntry)

namespace FileTree

/-- The place of the directory where relative paths begin. -/
def workingDirectory : List String := ["work"]

/-- The tree whose only directory is the working directory. -/
def empty : FileTree := ⟨[(workingDirectory, .directory)]⟩

instance : Inhabited FileTree := ⟨empty⟩

/-! ### Places -/

/-- The entry at a place, in a list of entries. -/
def lookupIn (place : List String) : List (List String × FileEntry) → Option FileEntry
  | [] => none
  | (p, e) :: rest => if p = place then some e else lookupIn place rest

/-- The entry at a place; the top is a directory. -/
def find? (t : FileTree) (place : List String) : Option FileEntry :=
  match place with
  | [] => some .directory
  | _ => lookupIn place t.entries

/-- Overwrites the entry at a place, or adds one at the end. -/
def setIn (place : List String) (entry : FileEntry) :
    List (List String × FileEntry) → List (List String × FileEntry)
  | [] => [(place, entry)]
  | (p, e) :: rest => if p = place then (p, entry) :: rest else (p, e) :: setIn place entry rest

/-- Puts an entry at a place. -/
def set (t : FileTree) (place : List String) (entry : FileEntry) : FileTree :=
  ⟨setIn place entry t.entries⟩

theorem lookupIn_setIn (place place' : List String) (entry : FileEntry)
    (entries : List (List String × FileEntry)) :
    lookupIn place' (setIn place entry entries)
      = if place = place' then some entry else lookupIn place' entries := by
  induction entries with
  | nil => rfl
  | cons e rest ih =>
    obtain ⟨p, e⟩ := e
    by_cases hp : p = place
    · subst hp
      simp only [setIn, lookupIn, if_true]
      by_cases h : p = place' <;> simp [h]
    · simp only [setIn, lookupIn, if_neg hp, ih]
      by_cases h : place = place'
      · subst h
        simp [hp]
      · simp [h]

/-- Setting an entry below the top changes that entry and no other. -/
theorem find?_set (t : FileTree) {place : List String} (h : place ≠ []) (place' : List String)
    (entry : FileEntry) :
    (t.set place entry).find? place' = if place = place' then some entry else t.find? place' := by
  cases place' with
  | nil => simp [find?, h]
  | cons name rest => exact lookupIn_setIn place (name :: rest) entry t.entries

/-! ### Paths -/

/-- The largest number of bytes in one component of a path. -/
def maxName : Nat := 255

/-- The largest number of bytes in a path. -/
def maxPath : Nat := 4095

/-- The components of a path, empty ones included. -/
def components (path : String) : List String := (path.toList.splitOn '/').map String.ofList

/-- Follows components from the place `here`, which must be a directory if any component is left.
An empty component, as between two slashes, stays where it is. -/
def walk (t : FileTree) (here : List String) : List String → Except DeviceFault (List String)
  | [] => .ok here
  | name :: rest =>
    match t.find? here with
    | none => .error .notFound
    | some (.file _) => .error .notDirectory
    | some .directory =>
      if name = "" || name = "." then walk t here rest
      else if name = ".." then walk t here.dropLast rest
      else if name.utf8ByteSize > maxName then .error .nameTooLong
      else walk t (here ++ [name]) rest

/-- The place where following a path begins. -/
def start (path : String) : List String :=
  if path.toList.head? = some '/' then [] else workingDirectory

/-- The place that a path names; something need not stand there. -/
def resolve (t : FileTree) (path : String) : Except DeviceFault (List String) :=
  if '\x00' ∈ path.toList then .error .nulInPath
  else if path.utf8ByteSize > maxPath then .error .nameTooLong
  else if path = "" then .error .notFound
  else t.walk (start path) (components path)

/-! ### Reading and writing -/

/-- The bytes of the file that a path names. -/
def readBytes (t : FileTree) (path : String) : Except DeviceFault ByteArray :=
  match t.resolve path with
  | .error fault => .error fault
  | .ok place =>
    match t.find? place with
    | none => .error .notFound
    | some .directory => .error .isDirectory
    | some (.file content) => .ok content

/-- The text that bytes encode. -/
def decodeText (bytes : ByteArray) : Except DeviceFault String :=
  match String.fromUTF8? bytes with
  | some text => .ok text
  | none => .error .notText

/-- The text of the file that a path names. -/
def read (t : FileTree) (path : String) : Except DeviceFault String :=
  match t.readBytes path with
  | .error fault => .error fault
  | .ok content => decodeText content

/-- Gives the file that a path names the content `text`; the file need not exist before. -/
def write (t : FileTree) (path : String) (text : String) : Except DeviceFault FileTree :=
  match t.resolve path with
  | .error fault => .error fault
  | .ok place =>
    match t.find? place with
    | some .directory => .error .isDirectory
    | some (.file _) => .ok (t.set place (.file text.toUTF8))
    | none => .ok (t.set place (.file text.toUTF8))

/-- Puts an entry at a place and a directory at every place above it that is empty. -/
def installAt (t : FileTree) (entry : FileEntry) (here : List String) : List String → FileTree
  | [] => t
  | [name] => t.set (here ++ [name]) entry
  | name :: rest =>
    let next := here ++ [name]
    match t.find? next with
    | none => installAt (t.set next .directory) entry next rest
    | some _ => installAt t entry next rest

/-- Adds a file or directory under a path relative to the working directory, together with the
directories above it. -/
def install (t : FileTree) (path : String) (entry : FileEntry) : FileTree :=
  t.installAt entry workingDirectory
    ((components path).filter fun name => !(name = "" || name = "."))

end FileTree

end AccMachine
