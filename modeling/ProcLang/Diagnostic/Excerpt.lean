/-
  Showing an error together with the source line it blames.

      Error: UnexpectedToken (Unexpected token: `;`, did you miss a semicolon?)
      -> final.lang
         |
      20 | var a;
         | -----^

  The line is shown without its indentation and without the white space at its end.  The arrow
  is as long as the bytes between the indentation and the position.  When the source ends
  before the position, only the first two lines are shown.

  Widths are words of 16 bits, and an arrow can be longer than the widest of them.  There is no
  text of such a width: whoever shows the error breaks off in front of the arrow.  So a report
  holds the lines that are written, and tells whether they are all of them.
-/
import ProcLang.Diagnostic
import ProcLang.Source.Line
import ProcLang.Text.CharClass

namespace ProcLang.Diagnostic

open ProcLang.Text ProcLang.Source

/-! ## Widths -/

/-- The largest width. -/
def widthLimit : Nat := 65535

/-- `text`, filled up on the left to `width` characters. -/
def padLeft (fill : Char) (width : Nat) (text : String) : String :=
  String.ofList (List.replicate (width - text.length) fill) ++ text

/-- `text`, filled up on the left to `width` characters, provided that this is a width. -/
def padLeft? (fill : Char) (width : Nat) (text : String) : Option String :=
  if width ≤ widthLimit then some (padLeft fill width text) else none

/-! ## Excerpts -/

/-- What is written to show an error: its lines, and whether it goes on to the last of them. -/
structure Report where
  lines : List String
  complete : Bool
deriving DecidableEq, Repr

/-- Spaces and tabs in front of a line are its indentation. -/
def isIndent (c : Char) : Bool := c = ' ' || c = '\t'

/-- The headline of an error: its name, and its tip in parentheses. -/
def headline (d : Diagnostic) : String :=
  match d.cause.tip with
  | none => "Error: " ++ d.cause.name
  | some tip => "Error: " ++ d.cause.name ++ " (" ++ tip ++ ")"

/-- The width of the arrow to the offset in a line: the bytes between the indentation and the
    offset, and the head of the arrow. -/
def arrowWidth (line : Line) : Nat :=
  line.offset - byteLength (line.text.toList.takeWhile isIndent) + 1

/-- The three lines that quote a source line and point at an offset in it. -/
def excerpt (line : Line) : Report :=
  let number := toString line.number
  -- a number that fits into a word has at most 20 digits, so this is always a width
  let bar := padLeft ' ' (number.length + 2) "|"
  let shown := trimEnd (line.text.toList.dropWhile isIndent)
  let quotation := number ++ " | " ++ String.ofList shown
  match padLeft? '-' (arrowWidth line) "^" with
  | some arrow => ⟨[bar, quotation, bar ++ " " ++ arrow], true⟩
  | none => ⟨[bar, quotation], false⟩

/-- The lines that show `d` against `source`. -/
def report (d : Diagnostic) (source : String) : Report :=
  let opening := [headline d, "-> " ++ d.position.file]
  match lineAt? source d.position.offset with
  | some line => ⟨opening ++ (excerpt line).lines, (excerpt line).complete⟩
  | none => ⟨opening, true⟩

/-- The text that is written to show `d` against `source`, a newline after every line. -/
def render (d : Diagnostic) (source : String) : String :=
  String.join ((report d source).lines.map (· ++ "\n"))

end ProcLang.Diagnostic
