/-
  One lexeme at the front of a text.

  `Lexeme.scan cs` takes the lexeme that `cs` starts with.  A lexeme is spelled by the
  characters it takes, and means a token or, for white space and comments, nothing.  Its first
  character tells its class, with one exception: `/` opens a comment when `%` follows.

  * `scan_append`          — the spelling and the rest make up the text;
  * `scan_spelling_ne_nil` — a lexeme takes at least one character, so scanning ends.
-/
import ProcLang.Diagnostic
import ProcLang.Text.CharClass
import ProcLang.Text.Numeral
import ProcLang.Token

namespace ProcLang

open ProcLang.Text

/-- A lexeme, together with the text that follows it. -/
structure Lexeme where
  /-- The kind and value of the token; `none` for what only separates tokens. -/
  token? : Option (Kind × String)
  spelling : List Char
  rest : List Char

namespace Lexeme

/-! ## Character classes -/

/-- Letters and the underscore start words. -/
def isWordStart (c : Char) : Bool := c.isAlpha || c = '_'

/-- Words go on with letters, digits and underscores. -/
def isWordPart (c : Char) : Bool := c.isAlphanum || c = '_'

/-- Hexadecimal digits, in either case. -/
def isHexDigit (c : Char) : Bool := (digitValue? 16 c).isSome

/-- The characters that a string literal can hold. -/
def isStringPart (c : Char) : Bool := c ≠ '"' && c ≠ '\n'

/-! ## The classes of lexemes -/

/-- The longest run of characters of class `p` at the front of `cs`, after `front`. -/
def run (token? : List Char → Option (Kind × String)) (front : List Char) (p : Char → Bool)
    (cs : List Char) : Lexeme :=
  let spelling := front ++ cs.takeWhile p
  ⟨token? spelling, spelling, cs.dropWhile p⟩

/-- The text up to and including the first end of a comment, and the rest. -/
def closeComment? : List Char → Option (List Char × List Char)
  | [] => none
  | '%' :: '/' :: rest => some (['%', '/'], rest)
  | c :: cs => (closeComment? cs).map fun p => (c :: p.1, p.2)

/-- A comment, of which `cs` is the text behind the opening `/%`. -/
def comment (cs : List Char) : Except Cause Lexeme :=
  match closeComment? cs with
  | some (text, rest) => .ok ⟨none, '/' :: '%' :: text, rest⟩
  | none => .error .unterminatedComment

/-- The token that a word means. -/
def word (spelling : List Char) : Option (Kind × String) :=
  some (wordKind (String.ofList spelling), String.ofList spelling)

/-- The token that a numeral means. -/
def numeral (spelling : List Char) : Option (Kind × String) :=
  some (.number, String.ofList spelling)

/-- A number: hexadecimal digits after `0x` or `0X`, if there are any, or else decimal digits. -/
def number (cs : List Char) : Lexeme :=
  match cs with
  | '0' :: x :: d :: ds =>
    if (x = 'x' || x = 'X') && isHexDigit d then run numeral ['0', x] isHexDigit (d :: ds)
    else run numeral [] Char.isDigit cs
  | cs => run numeral [] Char.isDigit cs

/-- The character that an escape in a character literal denotes. -/
def unescape? : Char → Option Char
  | 'n' => some '\n'
  | 't' => some '\t'
  | '0' => some '\x00'
  | '\x27' => some '\x27'
  | '\x5c' => some '\x5c'
  | _ => none

/-- A character literal, of which `cs` is the text behind the opening quote: an escape that is
    known, or one character other than a quote or a backslash, and the closing quote.  An
    escape that is not known is blamed as a whole, except for a newline behind the backslash. -/
def charLiteral (cs : List Char) : Except Cause Lexeme :=
  match cs with
  | '\x5c' :: c :: '\x27' :: rest =>
    let spelling := ['\x27', '\x5c', c, '\x27']
    match unescape? c with
    | some d => .ok ⟨some (.charLiteral, String.singleton d), spelling, rest⟩
    | none =>
      if c = '\n' then .error (.unrecognised "'")
      else .error (.unrecognised (String.ofList spelling))
  | c :: '\x27' :: rest =>
    if c = '\x27' || c = '\x5c' then .error (.unrecognised "'")
    else .ok ⟨some (.charLiteral, String.singleton c), ['\x27', c, '\x27'], rest⟩
  | _ => .error (.unrecognised "'")

/-- A string literal, of which `cs` is the text behind the opening quote. -/
def stringLiteral (cs : List Char) : Except Cause Lexeme :=
  let text := cs.takeWhile isStringPart
  match cs.dropWhile isStringPart with
  | '"' :: rest =>
    .ok ⟨some (.stringLiteral, String.ofList text), '"' :: (text ++ ['"']), rest⟩
  | _ => .error (.unrecognised "\"")

/-- The first fixed spelling that `cs` starts with. -/
def operator (cs : List Char) : Except Cause Lexeme :=
  match operators.find? fun o => o.1.toList.isPrefixOf cs with
  | some o => .ok ⟨some (o.2, o.1), o.1.toList, cs.drop o.1.toList.length⟩
  | none => .error (.unrecognised (String.ofList (cs.take 1)))

/-! ## Scanning -/

/-- The lexeme at the front of `cs`. -/
def scan (cs : List Char) : Except Cause Lexeme :=
  match cs with
  | [] => .error (.unrecognised "")
  | '/' :: '%' :: rest => comment rest
  | '\x27' :: rest => charLiteral rest
  | '"' :: rest => stringLiteral rest
  | c :: rest =>
    if isBlank c then .ok (run (fun _ => none) [] isBlank (c :: rest))
    else if isWordStart c then .ok (run word [] isWordPart (c :: rest))
    else if c.isDigit then .ok (number (c :: rest))
    else operator (c :: rest)

/-! ## A lexeme is a non-empty part of the text -/

/-- A run and what it leaves make up the text. -/
@[simp] theorem run_append (t : List Char → Option (Kind × String)) (front : List Char)
    (p : Char → Bool) (cs : List Char) :
    (run t front p cs).spelling ++ (run t front p cs).rest = front ++ cs := by
  simp [run]

/-- A run that begins in its class takes a character. -/
theorem run_spelling_ne_nil (t : List Char → Option (Kind × String)) {p : Char → Bool}
    {c : Char} (h : p c = true) (cs : List Char) : (run t [] p (c :: cs)).spelling ≠ [] := by
  simp [run, h]

/-- The comment and what is behind it make up the text behind its opening. -/
theorem append_of_closeComment? {cs text rest : List Char}
    (h : closeComment? cs = some (text, rest)) : text ++ rest = cs := by
  fun_induction closeComment? cs generalizing text with
  | case1 => simp at h
  | case2 r =>
    obtain ⟨rfl, rfl⟩ := Prod.mk.inj (Option.some.inj h)
    rfl
  | case3 c cs _ ih =>
    obtain ⟨p, hp, he⟩ := Option.map_eq_some_iff.1 h
    obtain ⟨rfl, rfl⟩ := Prod.mk.inj he
    simp [ih hp]

/-- A comment takes its opening, and leaves the rest of the text. -/
theorem comment_append {cs : List Char} {l : Lexeme} (h : comment cs = .ok l) :
    l.spelling ++ l.rest = '/' :: '%' :: cs ∧ l.spelling ≠ [] := by
  unfold comment at h
  split at h
  · rename_i text rest he
    obtain rfl := Except.ok.inj h
    simp [append_of_closeComment? he]
  · simp at h

/-- A number takes its first digit, and leaves the rest of the text. -/
theorem number_append {c : Char} (hc : c.isDigit = true) (cs : List Char) :
    (number (c :: cs)).spelling ++ (number (c :: cs)).rest = c :: cs ∧
      (number (c :: cs)).spelling ≠ [] := by
  unfold number
  split
  · rename_i x d ds he
    split
    · rw [he]
      exact ⟨by simp, by simp [run]⟩
    · exact ⟨by simp, run_spelling_ne_nil _ hc _⟩
  · exact ⟨by simp, run_spelling_ne_nil _ hc _⟩

/-- A character literal takes its quotes, and leaves the rest of the text. -/
theorem charLiteral_append {cs : List Char} {l : Lexeme} (h : charLiteral cs = .ok l) :
    l.spelling ++ l.rest = '\x27' :: cs ∧ l.spelling ≠ [] := by
  unfold charLiteral at h
  split at h
  · split at h
    · obtain rfl := Except.ok.inj h
      simp
    · split at h <;> simp at h
  · split at h
    · simp at h
    · obtain rfl := Except.ok.inj h
      simp
  · simp at h

/-- A string literal takes its quotes, and leaves the rest of the text. -/
theorem stringLiteral_append {cs : List Char} {l : Lexeme} (h : stringLiteral cs = .ok l) :
    l.spelling ++ l.rest = '"' :: cs ∧ l.spelling ≠ [] := by
  unfold stringLiteral at h
  split at h
  · rename_i rest he
    obtain rfl := Except.ok.inj h
    refine ⟨?_, by simp⟩
    have := List.takeWhile_append_dropWhile (p := isStringPart) (l := cs)
    rw [he] at this
    simpa using this
  · simp at h

/-- An operator takes its spelling, and leaves the rest of the text. -/
theorem operator_append {cs : List Char} {l : Lexeme} (h : operator cs = .ok l) :
    l.spelling ++ l.rest = cs ∧ l.spelling ≠ [] := by
  unfold operator at h
  split at h
  · rename_i o ho
    obtain rfl := Except.ok.inj h
    have hs := List.find?_some ho
    have hne : ∀ o ∈ operators, o.1.toList ≠ [] := by decide
    obtain ⟨rest, rfl⟩ := List.isPrefixOf_iff_prefix.1 hs
    exact ⟨by simp, hne o (List.mem_of_find?_eq_some ho)⟩
  · simp at h

/-- Whatever is scanned takes a character, and leaves the rest of the text. -/
theorem scan_append_and_ne_nil {cs : List Char} {l : Lexeme} (h : scan cs = .ok l) :
    l.spelling ++ l.rest = cs ∧ l.spelling ≠ [] := by
  -- one lemma for each class of lexemes
  unfold scan at h
  split at h
  · simp at h
  · exact comment_append h
  · exact charLiteral_append h
  · exact stringLiteral_append h
  · split at h
    · rename_i hb
      obtain rfl := Except.ok.inj h
      exact ⟨by simp, run_spelling_ne_nil _ hb _⟩
    · split at h
      · rename_i hw
        obtain rfl := Except.ok.inj h
        refine ⟨by simp, run_spelling_ne_nil _ ?_ _⟩
        simp only [isWordStart, Bool.or_eq_true, decide_eq_true_eq] at hw
        simp only [isWordPart, Char.isAlphanum, Bool.or_eq_true, decide_eq_true_eq]
        exact hw.imp Or.inl id
      · split at h
        · rename_i hd
          obtain rfl := Except.ok.inj h
          exact number_append hd _
        · exact operator_append h

/-- The spelling of a lexeme and the rest behind it make up the text. -/
theorem scan_append {cs : List Char} {l : Lexeme} (h : scan cs = .ok l) :
    l.spelling ++ l.rest = cs := (scan_append_and_ne_nil h).1

/-- A lexeme takes at least one character. -/
theorem scan_spelling_ne_nil {cs : List Char} {l : Lexeme} (h : scan cs = .ok l) :
    l.spelling ≠ [] := (scan_append_and_ne_nil h).2

/-- What follows a lexeme is shorter than what it was taken from. -/
theorem scan_rest_length_lt {cs : List Char} {l : Lexeme} (h : scan cs = .ok l) :
    l.rest.length < cs.length := by
  have := List.length_pos_iff.2 (scan_spelling_ne_nil h)
  rw [← scan_append h, List.length_append]
  omega

end Lexeme
end ProcLang
