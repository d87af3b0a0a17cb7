/-
  Errors point into the source.

  An error of `tokenize` lies where the scanner stands, and one of `parse` at the start of a token
  that the grammar refuses.  Both places are boundaries of characters in the source, so a line of
  the source can be shown for them, and its number is the one that the scanner has counted up to
  there (`error_points_into_source`).  The exception is an error at the end of a source that ends
  with a newline: the line that begins there is empty, and the one in front of it is shown.

  The number and the text of the line are always written.  The arrow below them is left out when
  it would be too wide, and such errors there are (`report_longError`).
-/
import ProcLang.Proofs.Grammar.Wall
import ProcLang.Proofs.Layout
import ProcLang.Proofs.Lexical.Tiling
import ProcLang.Proofs.Report
import ProcLang.Proofs.Source.Line

namespace ProcLang

open Grammar ProcLang.Source ProcLang.Text

/-! ## Where the scanner stands -/

/-- The scanner comes from the cursor `c` to another one, lexeme by lexeme. -/
inductive Cursor.ScansTo (c : Cursor) : Cursor → Prop
  | refl : c.ScansTo c
  | step {e : Cursor} {l : Lexeme} (h : c.ScansTo e) (hscan : Lexeme.scan e.rest = .ok l) :
      c.ScansTo (l.after e)

/-- A boundary between lexemes is a place where the scanner comes by. -/
theorem Munched.scansTo {source : String} {file? : Option String} {pre rest : List Char}
    {ts : List Token} (h : Munched (file?.getD "stdin") source.toList pre rest ts) :
    (Cursor.start source file?).ScansTo (.behind (file?.getD "stdin") pre rest) := by
  induction h with
  | start => exact .refl
  | @step pre word rest ts m h htakes ih =>
    rw [← Lexeme.after_behind m]
    exact ih.step (Lexeme.scan_of_takes htakes)

/-! ## Where tokens begin -/

/-- A token that tiles a text begins in front of a part of it. -/
theorem Tiled.exists_start {file : String} {pre : List Char} {ts : List Token}
    (h : Tiled file pre ts) : ∀ t ∈ ts, t.kind ≠ .eof ∧ ∃ p q, p ++ q = pre ∧ q ≠ [] ∧
      t.span.start = ⟨byteLength p, file⟩ ∧ t.line = 1 + p.count '\n' := by
  -- text behind the tokens makes no difference
  have hmore : ∀ {pre word : List Char} {t : Token},
      (∃ p q, p ++ q = pre ∧ q ≠ [] ∧ t.span.start = ⟨byteLength p, file⟩ ∧
        t.line = 1 + p.count '\n') →
      ∃ p q, p ++ q = pre ++ word ∧ q ≠ [] ∧ t.span.start = ⟨byteLength p, file⟩ ∧
        t.line = 1 + p.count '\n' := by
    rintro _ word t ⟨p, q, rfl, hne, hplace⟩
    exact ⟨p, q ++ word, (List.append_assoc p q word).symm,
      List.append_ne_nil_of_left_ne_nil hne word, hplace⟩
  induction h with
  | nil => exact fun t ht => absurd ht List.not_mem_nil
  | blank _ _ ih | comment _ _ ih => exact fun t ht => ⟨(ih t ht).1, hmore (ih t ht).2⟩
  | @token pre word ts u _ hne hkind _ hcovers ih =>
    intro t ht
    rcases List.mem_append.mp ht with ht | ht
    · exact ⟨(ih t ht).1, hmore (ih t ht).2⟩
    · obtain rfl := List.mem_singleton.mp ht
      exact ⟨hkind, pre, word, rfl, hne, hcovers.start, hcovers.line⟩

/-- Each token of a source begins at a boundary of characters, on the line that the newlines in
    front of it give.  Only the end marker has nothing of the source behind its start. -/
theorem exists_start_of_tokenize {source : String} {file? : Option String} {ts : List Token}
    (hlt : source.utf8ByteSize < 4294967296) (h : tokenize source file? = .ok ts) {t : Token}
    (ht : t ∈ ts) : ∃ pre rest, pre ++ rest = source.toList ∧ (rest = [] ↔ t.kind = .eof) ∧
      t.span.start = ⟨byteLength pre, file?.getD "stdin"⟩ ∧ t.line = 1 + pre.count '\n' := by
  have hshort : byteLength source.toList < 4294967296 := by
    rw [byteLength_toList]
    exact hlt
  obtain ⟨us, hus, rfl⟩ := exists_munched_of_tokenize h
  rcases List.mem_append.mp ht with ht | ht
  · obtain ⟨hkind, pre, rest, happend, hne, hplace⟩ := (hus.tiled hshort).exists_start t ht
    exact ⟨pre, rest, happend, iff_of_false hne hkind, hplace⟩
  · obtain rfl := List.mem_singleton.mp ht
    exact ⟨source.toList, [], List.append_nil _, iff_of_true rfl rfl, positionBehind_eq hshort, rfl⟩

/-! ## What the grammar blames -/

/-- An error of `parse` blames one of the tokens. -/
theorem exists_blamed_of_parse {file : String} {ts : List Token} (hend : Ended ts)
    {d : Diagnostic} (h : parse file ts = .error d) : ∃ t ∈ ts, d.Blames file t := by
  obtain ⟨u, hu⟩ := parse_eq_error_iff.mp h
  obtain ⟨us, hus, ⟨t, ht, hblames⟩, -⟩ := (confined_program _).stops hu
  rw [file_ofTokens] at hblames
  refine ⟨t, ?_, hblames⟩
  obtain ⟨vs, m, rfl, hm⟩ := hend
  have htokens := hus.tokens_eq
  rw [ofTokens_of_getLast? file List.getLast?_concat hm] at htokens
  rw [htokens]
  -- it is passed, or it is the token where the run stops
  rcases List.mem_append.mp ht with ht | ht
  · exact List.mem_append_left _ ht
  · rw [List.mem_singleton.mp ht]
    exact List.mem_append_right _ List.mem_cons_self

/-! ## The shown line -/

/-- The characters in front of a boundary, as a string. -/
theorem exists_string_of_append {source : String} {pre rest : List Char}
    (h : pre ++ rest = source.toList) :
    ∃ front back : String, front ++ back = source ∧ byteLength pre = front.utf8ByteSize := by
  refine ⟨String.ofList pre, String.ofList rest, ?_, ?_⟩
  · rw [← String.ofList_append, h, String.ofList_toList]
  · rw [← byteLength_toList, String.toList_ofList]

/-- An error at a boundary of characters has a line, on which as many newlines lie in front. -/
theorem exists_line_of_position {source file : String} {pre rest : List Char} {d : Diagnostic}
    (h : pre ++ rest = source.toList) (hpos : d.position = ⟨byteLength pre, file⟩) :
    d.position.file = file ∧
    (∃ front back : String, front ++ back = source ∧ d.position.offset = front.utf8ByteSize) ∧
    ∃ l, lineAt? source d.position.offset = some l ∧ l.number + unshown pre rest =
      1 + pre.count '\n' := by
  obtain ⟨front, back, happend, hlength⟩ := exists_string_of_append h
  obtain ⟨l, hl, hnumber⟩ := exists_lineAt? h
  have hoffset : d.position.offset = byteLength pre := by rw [hpos]
  rw [← hoffset] at hl
  exact ⟨by rw [hpos], ⟨front, back, happend, hoffset.trans hlength⟩, l, hl, hnumber⟩

/-- **Errors point into the source.**  Every error of the scanner or the grammar, on a source of
    less than `2 ^ 32` bytes, is in the file of the source, at a boundary of characters.  There is
    a line of the source for it.  Below the headline and the file, a bar is written, the number and
    the text of the line, and an arrow with a dash for each byte up to the error; an arrow of more
    than 65535 characters is not written, and nothing behind it.

    The number is the line of the scanner where it fails, or of the token that is refused; but the
    end of a source behind a newline is shown on the line in front. -/
theorem error_points_into_source {source : String} {file? : Option String} {d : Diagnostic}
    (hlt : source.utf8ByteSize < 4294967296)
    (h : tokenize source file? = .error d ∨
      ∃ ts, tokenize source file? = .ok ts ∧ parse (file?.getD "stdin") ts = .error d) :
    d.position.file = file?.getD "stdin" ∧
    (∃ front back : String, front ++ back = source ∧ d.position.offset = front.utf8ByteSize) ∧
    ∃ l, lineAt? source d.position.offset = some l ∧
      d.report source =
        (if l.shownBytes < 65535 then
          ⟨[d.headline, "-> " ++ file?.getD "stdin", l.numberBar,
            toString l.number ++ " | " ++ String.ofList l.shownText,
            l.numberBar ++ " " ++ String.ofList (List.replicate l.shownBytes '-') ++ "^"], true⟩
        else
          ⟨[d.headline, "-> " ++ file?.getD "stdin", l.numberBar,
            toString l.number ++ " | " ++ String.ofList l.shownText], false⟩) ∧
      ((∃ c, (Cursor.start source file?).ScansTo c ∧ c.atEnd = false ∧
          Lexeme.scan c.rest = .error d.cause ∧ d.position = c.position ∧ l.number = c.line) ∨
        ∃ ts t, tokenize source file? = .ok ts ∧ t ∈ ts ∧ d.cause.Quotes t.value ∧
          d.position = t.span.start ∧
          (if t.kind = .eof ∧ source.toList.getLast? = some '\n' then l.number + 1
            else l.number) = t.line) := by
  rcases h with h | ⟨ts, htokens, h⟩
  · obtain ⟨pre, rest, us, cause, hus, hstuck, rfl⟩ := exists_stuck_of_tokenize h
    have hshort : byteLength pre < 4294967296 := by
      rw [← byteLength_toList, ← hus.append_eq, byteLength_append] at hlt
      omega
    obtain ⟨hfile, hboundary, l, hl, hnumber⟩ :=
      exists_line_of_position (d := ⟨cause, positionBehind (file?.getD "stdin") pre⟩)
        hus.append_eq (positionBehind_eq hshort)
    have hreport := Diagnostic.report_of_lineAt? hl
    rw [hfile] at hreport
    rw [unshown_of_ne_nil _ hstuck.ne_nil] at hnumber
    refine ⟨hfile, hboundary, l, hl, hreport, Or.inl ⟨_, hus.scansTo, ?_, ?_, rfl, hnumber⟩⟩
    · simpa [Cursor.atEnd, Cursor.behind] using hstuck.ne_nil
    · exact (Lexeme.scan_eq_error_iff hstuck.ne_nil).mpr hstuck
  · obtain ⟨t, ht, hblames⟩ := exists_blamed_of_parse (ended_of_tokenize htokens) h
    obtain ⟨pre, rest, happend, hend, hstart, hline⟩ := exists_start_of_tokenize hlt htokens ht
    have hpos : d.position = ⟨byteLength pre, file?.getD "stdin"⟩ := by
      have hfile : d.position.file = file?.getD "stdin" := by
        rcases hblames.file with hfile | hfile
        · exact hfile
        · rw [hfile, hstart]
      have hoffset : d.position.offset = byteLength pre := by rw [hblames.offset, hstart]
      rw [← hfile, ← hoffset]
    obtain ⟨hfile, hboundary, l, hl, hnumber⟩ := exists_line_of_position happend hpos
    have hreport := Diagnostic.report_of_lineAt? hl
    rw [hfile] at hreport
    refine ⟨hfile, hboundary, l, hl, hreport, Or.inr ⟨ts, t, htokens, ht, hblames.quotes,
      hpos.trans hstart.symm, ?_⟩⟩
    -- behind a newline at the end of the source no line is left to be shown
    rw [hline, ← hnumber]
    by_cases hk : t.kind = .eof
    · obtain rfl := hend.mpr hk
      rw [← happend, List.append_nil, unshown]
      simp only [hk, true_and]
      split <;> rfl
    · rw [unshown_of_ne_nil _ fun hnil => hk (hend.mp hnil), if_neg fun hand => hk hand.1]
      rfl

/-- A comment with a character of two bytes, and a procedure that breaks off on line 2, with a
    newline behind it. -/
def unfinishedSource : String := "/%é%/\nprocedure\n"

/-- The tokens of the unfinished source: one keyword, and the end marker on the third line. -/
def unfinishedTokens : List Token :=
  [⟨.procedure, "procedure", ⟨⟨7, "stdin"⟩, ⟨16, "stdin"⟩⟩, 2⟩, .endMarker ⟨17, "stdin"⟩ 3]

/-- The error at the end marker, where a name is missing. -/
def unfinishedError : Diagnostic :=
  ⟨.unexpectedFor "EOF" "expected procedure name", ⟨17, "stdin"⟩⟩

/-- The end is refused on line 3, and line 2 is shown for it. -/
theorem error_points_into_source_end :
    unfinishedSource.utf8ByteSize < 4294967296 ∧
    tokenize unfinishedSource none = .ok unfinishedTokens ∧
    parse "stdin" unfinishedTokens = .error unfinishedError ∧
    lineAt? unfinishedSource 17 = some ⟨2, "procedure\n", 10⟩ ∧
    unfinishedError.report unfinishedSource =
      ⟨["Error: UnexpectedTokenDetailed (Unexpected token: `EOF`, expected procedure name)",
        "-> stdin", "  |", "2 | procedure", "  | ----------^"], true⟩ := by
  have hlt : unfinishedSource.utf8ByteSize < 4294967296 := by decide
  have htokens : tokenize unfinishedSource none = .ok unfinishedTokens := by decide +kernel
  have hparse : parse "stdin" unfinishedTokens = .error unfinishedError := by rfl
  obtain ⟨-, -, l, hl, hreport, -⟩ :=
    error_points_into_source hlt (Or.inr ⟨_, htokens, hparse⟩)
  have hline : lineAt? unfinishedSource 17 = some ⟨2, "procedure\n", 10⟩ := by decide +kernel
  obtain rfl := Option.some.inj (hl.symm.trans hline)
  exact ⟨hlt, htokens, hparse, hline, hreport.trans (by decide +kernel)⟩

/-- Not every error is shown to the end.  Behind a word of 70000 letters the arrow to the error is
    too wide, and the report breaks off with the text of the line. -/
theorem report_longError :
    (longSource 70000).utf8ByteSize < 4294967296 ∧
    tokenize (longSource 70000) none = .error (longError 70000 "stdin") ∧
    (longError 70000 "stdin").report (longSource 70000) =
      ⟨["Error: UnrecognisedToken", "-> stdin", "  |",
        "1 | " ++ longSource 70000], false⟩ := by
  have hlt : (longSource 70000).utf8ByteSize < 4294967296 := by
    rw [longSource, ← byteLength_toList, String.toList_ofList, byteLength_append,
      byteLength_replicate]
    decide
  refine ⟨hlt, tokenize_longSource (by decide) (by decide) none, ?_⟩
  obtain ⟨l, hl, hwide⟩ := overlong_longError (n := 70000) (by decide) "stdin"
  rw [Diagnostic.report_of_lineAt? hl, if_neg (Nat.not_lt.mpr hwide)]
  obtain rfl := Option.some.inj (hl.symm.trans (lineAt?_longSource 70000))
  rw [shownText_longSource (by decide), String.ofList_toList]
  rfl

end ProcLang
