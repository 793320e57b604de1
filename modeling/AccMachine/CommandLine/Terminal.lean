/-
**The terminal.**

The console of the command is a pair of streams.  Every output is one line on the output stream;
a line of input is read up to and including its line feed, or up to the end of the input stream,
and must be text.  If the output stream is a terminal, marks and warnings have colours and a
coloured prompt precedes every read.

Main definitions:

* `paint` — a text in one of the terminal's colours;
* `Output.line` — the line in which an output is shown;
* `Terminal` — the two streams;
* `Terminal.cutLine` — the first line of a stream of bytes, and the rest.

Main results:

* `Output.line_plain` — without colours, an output is shown as anywhere else.
-/

import AccMachine.Console
import AccMachine.FileTree

set_option relaxedAutoImplicit false
set_option autoImplicit false

namespace AccMachine

/-! ### Colours -/

/-- The colours of the terminal's palette that are used. -/
inductive Colour where
  | green
  | yellow
  | blue
  deriving DecidableEq, Repr

/-- The number of a colour in the palette. -/
def Colour.code : Colour → String
  | green => "10"
  | yellow => "11"
  | blue => "12"

/-- A text in a colour, after which the colour is as before. -/
def paint (colour : Colour) (text : String) : String :=
  "\x1b[38;5;" ++ colour.code ++ "m" ++ text ++ "\x1b[39m"

/-- The line in which an output is shown, in colours or plain. -/
def Output.line (coloured : Bool) (o : Output) : String :=
  if coloured then
    match o with
    | .value v => paint .blue Output.mark ++ " " ++ Decimal.render v
    | .char c => paint .blue Output.mark ++ " " ++ String.singleton c
    | .warning _ => paint .yellow o.render
    | .trace _ => o.render
  else o.render

/-- Without colours, an output is shown as anywhere else. -/
theorem Output.line_plain (o : Output) : o.line false = o.render := rfl

/-- What is shown before a line is read. -/
def promptText (coloured : Bool) : String := if coloured then paint .green ">" ++ " " else ""

/-! ### Streams -/

/-- The streams of the command: the bytes of the input to come, the text of the output so far,
and whether outputs have colours. -/
structure Terminal where
  stdin : List UInt8
  stdout : String
  coloured : Bool

namespace Terminal

/-- The byte of a line feed. -/
def lineFeed : UInt8 := 10

/-- The bytes up to and including the first line feed, or all of them, and the rest. -/
def cutLine : List UInt8 → List UInt8 × List UInt8
  | [] => ([], [])
  | b :: rest =>
    if b = lineFeed then ([b], rest)
    else
      let cut := cutLine rest
      (b :: cut.1, cut.2)

/-- Shows an output on a line of its own. -/
def emit (t : Terminal) (o : Output) : Except DeviceFault Unit × Terminal :=
  (.ok (), { t with stdout := t.stdout ++ o.line t.coloured ++ "\n" })

/-- Prompts and reads a line. -/
def read (t : Terminal) : Except DeviceFault (Option String) × Terminal :=
  let prompted := t.stdout ++ promptText t.coloured
  match t.stdin with
  | [] => (.ok none, { t with stdout := prompted })
  | b :: rest =>
    let (line, rest) := cutLine (b :: rest)
    ((FileTree.decodeText ⟨line.toArray⟩).map some, ⟨rest, prompted, t.coloured⟩)

instance : Console Terminal := ⟨emit, read⟩

end Terminal

end AccMachine
