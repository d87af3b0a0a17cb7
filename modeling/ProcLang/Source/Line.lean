/-
  The source line that holds a byte position.

  A source is cut after every newline, so each line but perhaps the last ends with one, and the
  lines concatenate to the source (`flatten_lines`).  `lineAt?` walks along the lines and
  spends the position on them.  The place just after the last byte belongs to the last line,
  and the empty source has one empty line.
-/
import ProcLang.Text.Utf8

namespace ProcLang.Source

open ProcLang.Text

/-! ## Lines -/

/-- The text cut after every newline; the empty text has no lines. -/
def lines : List Char → List (List Char)
  | [] => []
  | c :: cs =>
    if c = '\n' then [c] :: lines cs
    else
      match lines cs with
      | [] => [[c]]
      | l :: ls => (c :: l) :: ls

/-- No character is lost when a source is cut into lines. -/
theorem flatten_lines (cs : List Char) : (lines cs).flatten = cs := by
  induction cs with
  | nil => rfl
  | cons c cs ih =>
    simp only [lines]
    split
    · simp [ih]
    · cases h : lines cs with
      | nil => simp [h] at ih; simp [← ih]
      | cons l ls => rw [h] at ih; simp [← ih]

/-! ## Finding a position -/

/-- A line of a source: its number from 1, its text with the newline, and the offset in it of
    the position that was looked for. -/
structure Line where
  number : Nat
  text : String
  offset : Nat
deriving DecidableEq, Repr

/-- Walks from line `l`, of number `n`, to the line that holds offset `p` counted from the
    start of `l`; the last line holds whatever is left. -/
def locate (n p : Nat) (l : List Char) : List (List Char) → Line
  | [] => ⟨n, String.ofList l, p⟩
  | l' :: ls =>
    if p < byteLength l then ⟨n, String.ofList l, p⟩
    else locate (n + 1) (p - byteLength l) l' ls

/-- The line that holds byte `p` of `source`, unless `source` ends before it. -/
def lineAt? (source : String) (p : Nat) : Option Line :=
  if byteLength source.toList < p then none
  else
    match lines source.toList with
    | [] => some ⟨1, "", 0⟩
    | l :: ls => some (locate 1 p l ls)

end ProcLang.Source
