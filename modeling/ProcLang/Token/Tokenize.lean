/-
  A source as a list of tokens.

  The tokens of a source are those of its lexemes, in order, and an end marker.  Scanning stops
  at the first place where no lexeme starts.  `tokensFrom` works its way along a cursor and
  ends because every lexeme takes a character; `tokensFrom_eq` is its step.
-/
import ProcLang.Token.Cursor
import ProcLang.Token.Lexeme

namespace ProcLang

open ProcLang.Text

namespace Lexeme

/-- The cursor behind a lexeme. -/
def after (l : Lexeme) (c : Cursor) : Cursor := c.moveOver l.spelling l.rest

/-- The token that a lexeme at the cursor means, if it means one, in front of `ts`. -/
def emit (l : Lexeme) (c : Cursor) (ts : List Token) : List Token :=
  match l.token? with
  | none => ts
  | some (kind, value) => ⟨kind, value, c.span (byteLength l.spelling), c.line⟩ :: ts

end Lexeme

/-- The tokens from a cursor to the end of its source. -/
def tokensFrom (c : Cursor) : Except Diagnostic (List Token) :=
  if c.atEnd then .ok [.endMarker c.position c.line]
  else
    match _h : Lexeme.scan c.rest with
    | .error cause => .error ⟨cause, c.position⟩
    | .ok l => (tokensFrom (l.after c)).map (l.emit c)
termination_by c.rest.length
decreasing_by exact Lexeme.scan_rest_length_lt _h

/-- The step of scanning, without the bookkeeping of its end. -/
theorem tokensFrom_eq (c : Cursor) :
    tokensFrom c =
      if c.atEnd then .ok [.endMarker c.position c.line]
      else
        match Lexeme.scan c.rest with
        | .error cause => .error ⟨cause, c.position⟩
        | .ok l => (tokensFrom (l.after c)).map (l.emit c) := by
  rw [tokensFrom]
  split
  · rfl
  · split <;> simp_all

/-- The tokens of a source, which is the standard input unless it has a name. -/
def tokenize (source : String) (file? : Option String) : Except Diagnostic (List Token) :=
  tokensFrom (.start source file?)

end ProcLang
