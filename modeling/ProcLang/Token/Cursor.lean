/-
  A place in a source, while it is scanned.

  A cursor holds the text that is still to come, with the byte offset and the line number of
  its first character.  It moves over whole characters only: `advance?` takes a number of bytes
  and refuses to stop inside a character.
-/
import ProcLang.Source.Position
import ProcLang.Text.Utf8

namespace ProcLang

open ProcLang.Text

/-- A place in the source `file`: `rest` is still to come, `offset` bytes lie before it, and it
    starts on line `line`.  Neither number has a limit here.  Positions keep the offset in 32 bits;
    for the line that would make a difference only behind `2 ^ 32 - 1` newlines. -/
structure Cursor where
  file : String
  offset : Nat
  line : Nat
  rest : List Char

namespace Cursor

/-- The beginning of a source, which is the standard input unless it has a name. -/
def start (source : String) (file? : Option String) : Cursor :=
  ⟨file?.getD "stdin", 0, 1, source.toList⟩

/-- The cursor behind `taken`, when `rest` comes after it. -/
def moveOver (c : Cursor) (taken rest : List Char) : Cursor :=
  { c with
    offset := c.offset + byteLength taken
    line := c.line + taken.count '\n'
    rest := rest }

/-- The cursor `n` bytes further on, or at the end of the source if it is nearer. -/
def advance? (c : Cursor) (n : Nat) : Option Cursor :=
  (splitBytes? n c.rest).map fun p => c.moveOver p.1 p.2

/-- True at the end of the source. -/
def atEnd (c : Cursor) : Bool := c.rest.isEmpty

/-- The position of the cursor. -/
def position (c : Cursor) : Position := .ofByte c.offset c.file

/-- The next `n` bytes. -/
def span (c : Cursor) (n : Nat) : Span := ⟨c.position, .ofByte (c.offset + n) c.file⟩

end Cursor
end ProcLang
