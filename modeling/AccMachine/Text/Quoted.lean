/-
**Quoted texts.**

A text that is quoted inside a message stands between double quotes.  The quote and the backslash
are escaped by a backslash, a few controls have short escapes, and any other character without a
visible form is written by its code point in hexadecimal.

Main definitions:

* `Text.escape` — how one character is written between the quotes;
* `Text.quoted` — the whole quoted text.
-/

import AccMachine.Text.Unprintable

set_option relaxedAutoImplicit false
set_option autoImplicit false

namespace AccMachine.Text

/-- The escape by code point: the hexadecimal digits, lower case and without leading zeros,
between braces. -/
def codePointEscape (c : Char) : List Char :=
  ['\\', 'u', '\x7b'] ++ Nat.toDigits 16 c.toNat ++ ['\x7d']

/-- How a character is written between double quotes. -/
def escape (c : Char) : List Char :=
  if c = '\x00' then ['\\', '0']
  else if c = '\t' then ['\\', 't']
  else if c = '\r' then ['\\', 'r']
  else if c = '\n' then ['\\', 'n']
  else if c = '"' then ['\\', '"']
  else if c = '\\' then ['\\', '\\']
  else if isUnprintable c then codePointEscape c
  else [c]

/-- A text between double quotes, with everything escaped that has no visible form. -/
def quoted (text : String) : String :=
  "\"" ++ String.ofList (text.toList.flatMap escape) ++ "\""

end AccMachine.Text
