/-
  Lexical and syntax errors: a cause and the position that it blames.

  The cause decides all texts: the name of the error, the tip shown beside it, and the one-line
  description, in which source text is quoted.
-/
import ProcLang.Source.Position
import ProcLang.Text.Quoted

namespace ProcLang

/-- Why a text is not a token list, or a token list no program. -/
inductive Cause where
  /-- No lexeme starts here. -/
  | unrecognised (token : String)
  /-- Another token is needed here. -/
  | unexpected (token : String)
  /-- Another token is needed here, and `message` says which. -/
  | unexpectedFor (token message : String)
  /-- A numeral outside its limits, or no numeral. -/
  | badNumber (token : String)
  /-- A comment without an end. -/
  | unterminatedComment
deriving DecidableEq, Repr

namespace Cause

/-- The name shown for a cause. -/
def name : Cause → String
  | .unrecognised _ => "UnrecognisedToken"
  | .unexpected _ => "UnexpectedToken"
  | .unexpectedFor _ _ => "UnexpectedTokenDetailed"
  | .badNumber _ => "NumberParseError"
  | .unterminatedComment => "UnterminatedComment"

/-- The tip shown beside the name; an unrecognised token has none. -/
def tip : Cause → Option String
  | .unrecognised _ => none
  | .unexpected t => some ("Unexpected token: `" ++ t ++ "`, did you miss a semicolon?")
  | .unexpectedFor t m => some ("Unexpected token: `" ++ t ++ "`, " ++ m)
  | .badNumber t => some ("Invalid number: `" ++ t ++ "`, is it above the integer limit?")
  | .unterminatedComment => some "Comment opened with `/%` is never closed"

/-- The description of a cause in one line. -/
def describe : Cause → String
  | .unrecognised t => "unrecognised token: " ++ Text.quoted t
  | .unexpected t => "unexpected token: " ++ Text.quoted t
  | .unexpectedFor t m => "unexpected token (" ++ Text.quoted m ++ "): " ++ Text.quoted t
  | .badNumber t => "error parsing number: " ++ Text.quoted t
  | .unterminatedComment => "unterminated comment"

end Cause

/-- A lexical or syntax error. -/
structure Diagnostic where
  cause : Cause
  position : Position
deriving DecidableEq, Repr

end ProcLang
