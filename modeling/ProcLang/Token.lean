/-
  Tokens: the words of the language as the grammar sees them.

  A token has a kind, the text it stands for, the bytes it covers and the line on which it
  starts.  `wordKind` tells the reserved words from identifiers, `operators` lists the spelling
  of brackets, punctuation and operators, each spelling before its own beginnings.
-/
import ProcLang.Source.Position

namespace ProcLang

/-! ## Kinds -/

/-- The kinds of token. -/
inductive Kind where
  | eof
  | number | charLiteral | stringLiteral | identifier
  | openBracket | closeBracket | openCurly | closeCurly | openParen | closeParen
  | assignment | equals | not | notEquals
  | less | lessEquals | greater | greaterEquals
  | or | and
  | pipe | ampersand | caret
  | semicolon | colon | comma
  | plus | dash | slash | star
  | procedure | return | var | if | else | while
  | integer | boolean | char | string | intPtr | charPtr
  | true | false | null
deriving DecidableEq, Repr

/-- The name of a kind, as the display form of a token shows it. -/
def Kind.name : Kind → String
  | .eof => "EOF"
  | .number => "Number"
  | .charLiteral => "CharLiteral"
  | .stringLiteral => "StringLiteral"
  | .identifier => "Identifier"
  | .openBracket => "OpenBracket"
  | .closeBracket => "CloseBracket"
  | .openCurly => "OpenCurly"
  | .closeCurly => "CloseCurly"
  | .openParen => "OpenParen"
  | .closeParen => "CloseParen"
  | .assignment => "Assignment"
  | .equals => "Equals"
  | .not => "Not"
  | .notEquals => "NotEquals"
  | .less => "Less"
  | .lessEquals => "LessEquals"
  | .greater => "Greater"
  | .greaterEquals => "GreaterEquals"
  | .or => "Or"
  | .and => "And"
  | .pipe => "Pipe"
  | .ampersand => "Ampersand"
  | .caret => "Caret"
  | .semicolon => "Semicolon"
  | .colon => "Colon"
  | .comma => "Comma"
  | .plus => "Plus"
  | .dash => "Dash"
  | .slash => "Slash"
  | .star => "Star"
  | .procedure => "Procedure"
  | .return => "Return"
  | .var => "Var"
  | .if => "If"
  | .else => "Else"
  | .while => "While"
  | .integer => "Integer"
  | .boolean => "Boolean"
  | .char => "Char"
  | .string => "String"
  | .intPtr => "IntPtr"
  | .charPtr => "CharPtr"
  | .true => "True"
  | .false => "False"
  | .null => "Null"

/-! ## Spelling -/

/-- The reserved words. -/
def reserved : List (String × Kind) :=
  [("procedure", .procedure), ("return", .return), ("var", .var), ("if", .if), ("else", .else),
   ("while", .while), ("integer", .integer), ("boolean", .boolean), ("char", .char),
   ("string", .string), ("intptr", .intPtr), ("charptr", .charPtr), ("true", .true),
   ("false", .false), ("null", .null)]

/-- A word is an identifier unless it is reserved. -/
def wordKind (word : String) : Kind := (reserved.lookup word).getD .identifier

/-- The fixed spellings of brackets, punctuation and operators.  A spelling that begins with
    another one stands before it, so the first that fits is the longest. -/
def operators : List (String × Kind) :=
  [("[", .openBracket), ("]", .closeBracket), ("\x7b", .openCurly), ("\x7d", .closeCurly),
   ("(", .openParen), (")", .closeParen), ("==", .equals), ("!=", .notEquals), ("!", .not),
   ("=", .assignment), ("<=", .lessEquals), ("<", .less), (">=", .greaterEquals),
   (">", .greater), ("||", .or), ("|", .pipe), ("&&", .and), ("&", .ampersand), ("^", .caret),
   (";", .semicolon), (":", .colon), (",", .comma), ("+", .plus), ("-", .dash), ("/", .slash),
   ("*", .star)]

/-! ## Tokens -/

/-- A token.  The value of a literal is what it denotes: no quotes, escapes decoded.  Lines are
    counted from 1 and, other than offsets, without a limit: a line of 32 bits is passed only by
    a source with `2 ^ 32 - 1` newlines or more. -/
structure Token where
  kind : Kind
  value : String
  span : Span
  line : Nat
deriving DecidableEq, Repr

/-- The end marker that closes every token list. -/
def Token.endMarker (position : Position) (line : Nat) : Token :=
  ⟨.eof, "EOF", ⟨position, position⟩, line⟩

/-- The display form of a token. -/
def Token.display (t : Token) : String :=
  "Token \x7b\nkind: " ++ t.kind.name ++ ",\nvalue: " ++ t.value ++ "\x7d"

end ProcLang
