/-
  The lexical grammar.

  `IsLexeme word m`: the characters `word` are a lexeme of one of the classes, and mean `m`, which
  is the kind and the value of a token, or nothing for white space.  The classes say nothing of
  what stands behind a lexeme.  That is left to the rule by which lexemes are taken off a text:

  * `Takes word rest m` — in front of `word ++ rest` the lexeme `word` is taken.  A comment is
                          taken up to its first end; any other lexeme is the longest one of all
                          classes that the text begins with;
  * `Stuck cs cause`    — nothing can be taken off `cs`, and `cause` is named for that
                          (`Blames`).

  No function of the scanner is used, but for its character classes and tables.
-/
import ProcLang.Proofs.Lexical.FirstChar

namespace ProcLang.Lexeme

open ProcLang.Text

/-! ## Lexemes -/

/-- The character that stands behind the backslash of an escape, and what the escape denotes. -/
inductive Escape : Char → Char → Prop
  | newline : Escape 'n' '\n'
  | tab : Escape 't' '\t'
  | nul : Escape '0' '\x00'
  | quote : Escape '\x27' '\x27'
  | backslash : Escape '\x5c' '\x5c'

/-- Identifiers and reserved words: a letter or underscore, then letters, digits, underscores. -/
def IsWord (cs : List Char) : Prop :=
  ∃ d ds, cs = d :: ds ∧ isWordStart d = true ∧ ∀ e ∈ ds, isWordPart e = true

/-- The spellings of the character `c` between single quotes. -/
inductive IsQuoted (c : Char) : List Char → Prop
  | plain (hquote : c ≠ '\x27') (hslash : c ≠ '\x5c') : IsQuoted c ['\x27', c, '\x27']
  | escape {e : Char} (h : Escape e c) : IsQuoted c ['\x27', '\x5c', e, '\x27']

/-- The lexemes of all classes, with what they mean. -/
inductive IsLexeme : List Char → Option (Kind × String) → Prop
  | blank {cs : List Char} (hne : cs ≠ []) (h : ∀ c ∈ cs, isBlank c = true) : IsLexeme cs none
  | reserved {cs : List Char} {k : Kind} (h : IsWord cs)
      (hk : (String.ofList cs, k) ∈ reserved) : IsLexeme cs (some (k, String.ofList cs))
  | identifier {cs : List Char} (h : IsWord cs)
      (hk : ∀ k, (String.ofList cs, k) ∉ ProcLang.reserved) :
      IsLexeme cs (some (.identifier, String.ofList cs))
  | decimal {cs : List Char} (hne : cs ≠ []) (h : ∀ c ∈ cs, c.isDigit = true) :
      IsLexeme cs (some (.number, String.ofList cs))
  | hexadecimal {x : Char} {cs : List Char} (hx : x = 'x' ∨ x = 'X') (hne : cs ≠ [])
      (h : ∀ c ∈ cs, isHexDigit c = true) :
      IsLexeme ('0' :: x :: cs) (some (.number, String.ofList ('0' :: x :: cs)))
  | char {c : Char} {cs : List Char} (h : IsQuoted c cs) :
      IsLexeme cs (some (.charLiteral, String.singleton c))
  | string {cs : List Char} (h : ∀ c ∈ cs, isStringPart c = true) :
      IsLexeme ('"' :: (cs ++ ['"'])) (some (.stringLiteral, String.ofList cs))
  | operator {s : String} {k : Kind} (h : (s, k) ∈ operators) : IsLexeme s.toList (some (k, s))

/-! ## Comments -/

/-- The text has the end of a comment in it. -/
def HasEnd (cs : List Char) : Prop := ['%', '/'] <:+: cs

/-- Whole comments: the end is the first one behind the opening. -/
inductive IsComment : List Char → Prop
  | mk {body : List Char} (h : ¬ HasEnd body) : IsComment ('/' :: '%' :: (body ++ ['%', '/']))

/-! ## Taking a lexeme off a text -/

/-- From the text `word ++ rest` the lexeme `word` is taken, and means `m`. -/
inductive Takes : List Char → List Char → Option (Kind × String) → Prop
  | comment {word rest : List Char} (h : IsComment word) : Takes word rest none
  | longest {word rest : List Char} {m : Option (Kind × String)}
      (hcomment : ¬ StartsComment (word ++ rest)) (h : IsLexeme word m)
      (hmax : ∀ word' m', IsLexeme word' m' → word' <+: word ++ rest →
        word'.length ≤ word.length) : Takes word rest m

/-- A lexeme is still taken when the text ends earlier. -/
theorem Takes.cut {word rest more : List Char} {m : Option (Kind × String)}
    (h : Takes word (rest ++ more) m) : Takes word rest m := by
  cases h with
  | comment h => exact .comment h
  | longest hcomment h hmax =>
    rw [← List.append_assoc] at hcomment hmax
    refine .longest (fun hstart => hcomment (hstart.trans (List.prefix_append _ _))) h ?_
    intro word' m' hlexeme hpre
    exact hmax word' m' hlexeme (hpre.trans (List.prefix_append _ _))

/-- A character in single quotes behind a backslash, other than a newline, that makes no
    escape. -/
inductive IsUnknownEscape : List Char → Prop
  | mk {e : Char} (hline : e ≠ '\n') (h : ∀ c, ¬ Escape e c) :
      IsUnknownEscape ['\x27', '\x5c', e, '\x27']

/-- Why nothing can be taken off a text. -/
inductive Blames : List Char → Cause → Prop
  | comment {cs : List Char} (h : ¬ HasEnd cs) : Blames ('/' :: '%' :: cs) .unterminatedComment
  | escape {word rest : List Char} (h : IsUnknownEscape word) :
      Blames (word ++ rest) (.unrecognised (String.ofList word))
  | character {c : Char} {cs : List Char} (hcomment : ¬ StartsComment (c :: cs))
      (hescape : ∀ word, IsUnknownEscape word → ¬ word <+: c :: cs) :
      Blames (c :: cs) (.unrecognised (String.singleton c))

/-- Nothing can be taken off a text that has not come to its end, and `cause` is named. -/
structure Stuck (cs : List Char) (cause : Cause) : Prop where
  ne_nil : cs ≠ []
  not_takes : ∀ word rest m, word ++ rest = cs → ¬ Takes word rest m
  blames : Blames cs cause

end ProcLang.Lexeme
