/-
  The reader decides the grammar.

  On tokens that are made as the scanner makes them, `parse` succeeds exactly when the tokens up
  to the first end marker are derived, and it returns the tree of the derivation, of which there
  is one (`parse_eq_ok_iff_derived`).  Completeness, soundness and unambiguity are put together
  on the stream that `parse` runs over; what is left to do here is to see that this stream holds
  the given tokens, with an end marker of the right line behind them.
-/
import ProcLang.Proofs.Grammar.Sound
import ProcLang.Proofs.Grammar.Unambiguous

namespace ProcLang.Grammar

open Concrete Parse ProcLang.Stream

/-- The tokens before the first end marker. -/
def beforeEnd (tokens : List Token) : List Token := tokens.takeWhile (·.kind ≠ .eof)

/-- The line of the first end marker, which is put on the line of the last token where it is
    missing, or on the first line when there are no tokens. -/
def endLine (tokens : List Token) : Nat :=
  match tokens.find? (·.kind = .eof) with
  | some t => t.line
  | none => (tokens.getLast?.map Token.line).getD 1

/-- The end marker that is put behind `tokens` where it is missing: at the end and on the line of
    the last token, or at the start of the first line when there are no tokens. -/
def missingEnd (file : String) (tokens : List Token) : Token :=
  .endMarker ⟨(tokens.getLast?.map fun t => t.span.stop.offset).getD 0, file⟩
    ((tokens.getLast?.map Token.line).getD 1)

/-- The first end marker of `tokens`, or the one that is put behind them. -/
def firstEnd (file : String) (tokens : List Token) : Token :=
  (tokens.find? (·.kind = .eof)).getD (missingEnd file tokens)

/-- Without an end marker in the end, one is put behind the tokens. -/
theorem ofTokens_append_missingEnd (file : String) {tokens : List Token}
    (h : ∀ t ∈ tokens.getLast?, t.kind ≠ .eof) :
    ofTokens file (tokens ++ [missingEnd file tokens]) = ofTokens file tokens := by
  cases tokens with
  | nil => rfl
  | cons t ts =>
    have hlast : (t :: ts).getLast? = some (ts.getLastD t) := by
      rw [List.getLast?_cons, ← List.getLastD_eq_getLast?]
    have hne : (ts.getLastD t).kind ≠ .eof := h _ hlast
    have hmissing : missingEnd file (t :: ts) =
        .endMarker ⟨(ts.getLastD t).span.stop.offset, file⟩ (ts.getLastD t).line := by
      rw [missingEnd, hlast]
      rfl
    have hend : ((ts ++ [missingEnd file (t :: ts)]).getLastD t).kind = .eof := by
      rw [List.getLastD_concat]
      rfl
    rw [List.cons_append, ofTokens, dif_pos hend, ofTokens, dif_neg hne]
    simp only [hmissing]

/-- Tokens with an end marker behind them are used as they are. -/
theorem ofTokens_of_getLast? (file : String) {tokens : List Token} {t : Token}
    (h : tokens.getLast? = some t) (ht : t.kind = .eof) :
    (ofTokens file tokens).tokens = tokens := by
  cases tokens with
  | nil => cases h
  | cons x xs =>
    rw [List.getLast?_cons, ← List.getLastD_eq_getLast?] at h
    rw [ofTokens, dif_pos (by rw [Option.some.inj h, ht])]
    rfl

/-- The stream over `tokens` holds them, and the missing end marker behind them if there is one. -/
theorem tokens_ofTokens (file : String) (tokens : List Token) :
    (ofTokens file tokens).tokens = tokens ∨
      (ofTokens file tokens).tokens = tokens ++ [missingEnd file tokens] := by
  by_cases h : ∀ t ∈ tokens.getLast?, t.kind ≠ .eof
  · refine Or.inr ?_
    rw [← ofTokens_append_missingEnd file h]
    exact ofTokens_of_getLast? file List.getLast?_concat rfl
  · obtain ⟨t, ht⟩ := Classical.not_forall.mp h
    obtain ⟨hlast, ht⟩ := Classical.not_imp.mp ht
    exact Or.inl (ofTokens_of_getLast? file hlast (Classical.not_not.mp ht))

/-- An end marker put behind does not change what is in front of the first one. -/
theorem beforeEnd_append {m : Token} (hm : m.kind = .eof) (tokens : List Token) :
    beforeEnd (tokens ++ [m]) = beforeEnd tokens := by
  induction tokens with
  | nil => simp [beforeEnd, hm]
  | cons t ts ih =>
    unfold beforeEnd at *
    rw [List.cons_append, List.takeWhile_cons, List.takeWhile_cons, ih]

/-- The first end marker has the line that the grammar gives to the end. -/
theorem line_firstEnd (file : String) (tokens : List Token) :
    (firstEnd file tokens).line = endLine tokens := by
  unfold firstEnd endLine
  cases tokens.find? (·.kind = .eof) <;> rfl

/-- In front of the stream over `tokens` lie those before the first end marker, and behind them
    this one. -/
theorem exists_passes_firstEnd (file : String) (tokens : List Token) :
    ∃ t, (ofTokens file tokens).Passes (beforeEnd tokens) t ∧ t.current.kind = .eof ∧
      t.current = firstEnd file tokens := by
  obtain ⟨t, ht, he⟩ := exists_passes_takeWhile (ofTokens file tokens)
  have hfound : (ofTokens file tokens).tokens.find? (·.kind = .eof) = some t.current := by
    rw [ht.tokens_eq, List.find?_append, List.find?_eq_none.mpr]
    · simp [Stream.tokens, he]
    · intro x hx
      simpa using ht.ne_eof_of_mem x hx
  refine ⟨t, ?_, he, ?_⟩
  · rcases tokens_ofTokens file tokens with h | h
    · rw [h] at ht
      exact ht
    · rw [h] at ht
      rw [← beforeEnd_append (m := missingEnd file tokens) rfl tokens]
      exact ht
  · rcases tokens_ofTokens file tokens with h | h
    · rw [h] at hfound
      rw [firstEnd, hfound, Option.getD_some]
    · have hmissing : [missingEnd file tokens].find? (·.kind = .eof) =
          some (missingEnd file tokens) := rfl
      rw [h, List.find?_append, hmissing, Option.or_some] at hfound
      exact (Option.some.inj hfound).symm

/-- In front of the stream over a token list lie the tokens before the end, and the end marker
    behind them stands on the line of the end. -/
theorem exists_passes_beforeEnd (file : String) (tokens : List Token) :
    ∃ t, (ofTokens file tokens).Passes (beforeEnd tokens) t ∧ t.current.kind = .eof ∧
      t.current.line = endLine tokens := by
  obtain ⟨t, ht, he, hfirst⟩ := exists_passes_firstEnd file tokens
  exact ⟨t, ht, he, by rw [hfirst, line_firstEnd]⟩

/-- `parse` succeeds when the run of the program reader does. -/
theorem parse_eq_ok_iff {file : String} {tokens : List Token} {p : Program} :
    parse file tokens = .ok p ↔ ∃ t, program (ofTokens file tokens) = .ok p t := by
  unfold parse
  cases program (ofTokens file tokens) with
  | ok q t => simp
  | error d t => simp

/-- `parse` fails when the run of the program reader does, with its error. -/
theorem parse_eq_error_iff {file : String} {tokens : List Token} {d : Diagnostic} :
    parse file tokens = .error d ↔ ∃ t, program (ofTokens file tokens) = .error d t := by
  unfold parse
  cases program (ofTokens file tokens) with
  | ok q t => simp
  | error e t => simp

/-- Derived tokens are read, whatever is behind the end. -/
theorem parse_of_yield (file : String) {tokens : List Token} {d : ProgramText}
    (hd : d.yield = beforeEnd tokens) : parse file tokens = .ok (d.tree (endLine tokens)) := by
  obtain ⟨t, ht, he, hline⟩ := exists_passes_beforeEnd file tokens
  rw [← hd] at ht
  rw [← hline]
  exact parse_eq_ok_iff.mpr ⟨t, d.program_eq ht he⟩

/-- **The reader decides the grammar.**  A program is read exactly when the tokens before the
    end have a derivation; what is returned is its tree, and there is no other derivation. -/
theorem parse_eq_ok_iff_derived (file : String) (tokens : List Token)
    (h : ∀ t ∈ beforeEnd tokens, t.Lexical) :
    (∀ p, parse file tokens = .ok p ↔
      ∃ d : ProgramText, d.yield = beforeEnd tokens ∧ d.tree (endLine tokens) = p) ∧
    ∀ d d' : ProgramText, d.yield = beforeEnd tokens → d'.yield = beforeEnd tokens → d = d' := by
  obtain ⟨t, ht, he, hline⟩ := exists_passes_beforeEnd file tokens
  have hbefore := ht.eq_takeWhile he
  -- a token in front of the stream lies before the first end marker
  have hlex : (ofTokens file tokens).Lexical := by
    intro ts u hu x hx
    refine h x ?_
    rw [hbefore, hu.takeWhile_eq]
    exact List.mem_append_left _ hx
  refine ⟨fun p => ⟨?_, ?_⟩, ?_⟩
  · intro hp
    obtain ⟨u, hu⟩ := parse_eq_ok_iff.mp hp
    obtain ⟨d, hd, hpass, hend⟩ := exists_programText hlex hu
    have hyield : d.yield = beforeEnd tokens := (hpass.eq_takeWhile hend).trans hbefore.symm
    rw [hyield] at hpass
    obtain rfl : u = t := hpass.unique ht
    exact ⟨d, hyield, by rw [← hline, hd]⟩
  · rintro ⟨d, hd, rfl⟩
    exact parse_of_yield file hd
  · intro d d' hd hd'
    have hpass := ht
    rw [← hd] at ht
    rw [← hd'] at hpass
    exact (d.oneWay d' _ t t ht hpass he he).1

/-- A procedure on line 1 that returns `0x1F - 2 - 'c'` on line 2, and the end on line 3. -/
def sampleTokens : List Token :=
  let token (line : Nat) (kind : Kind) (value : String) : Token :=
    ⟨kind, value, ⟨⟨0, "f"⟩, ⟨0, "f"⟩⟩, line⟩
  [token 1 .procedure "procedure", token 1 .identifier "Main", token 1 .openParen "(",
    token 1 .closeParen ")", token 1 .return "return", token 1 .integer "integer",
    token 1 .openCurly "\x7b", token 2 .return "return", token 2 .number "0x1F",
    token 2 .dash "-", token 2 .number "2", token 2 .dash "-", token 2 .charLiteral "c",
    token 2 .semicolon ";", token 3 .closeCurly "\x7d", token 3 .eof "EOF"]

/-- What the sample tokens mean. -/
def sampleProgram : Program :=
  let difference := Expr.binary (.bare 2) .minus
    (.binary (.bare 2) .minus (.integer (.bare 2) 31) (.integer (.bare 2) 2)) (.char (.bare 2) 'c')
  ⟨[.mk ⟨"Main", [], ⟨.integer, .bare 1⟩, .bare 1⟩
    (.mk [] [] [] ⟨difference, .bare 2⟩ (.bare 1))], .bare 3⟩

/-- The sample tokens are made as the scanner makes them. -/
theorem lexical_sampleTokens : ∀ t ∈ beforeEnd sampleTokens, t.Lexical := by
  have hhex : Text.Numeral "0x1F".toList 31 :=
    .hexadecimal (Or.inl rfl) (.snoc (.digit (d := 1) (by decide)) (d := 15) (by decide))
  have hdec : Text.Numeral "2".toList 2 := .decimal (.digit (by decide))
  have hall : ∀ t ∈ beforeEnd sampleTokens,
      (t.kind = .number → t.value = "0x1F" ∨ t.value = "2") ∧
        (t.kind = .charLiteral → t.value.toList = ['c']) := by decide
  intro t ht
  refine ⟨fun hk => ?_, fun hk => ⟨'c', (hall t ht).2 hk⟩⟩
  rcases (hall t ht).1 hk with hv | hv
  · exact ⟨31, by rw [hv]; exact hhex⟩
  · exact ⟨2, by rw [hv]; exact hdec⟩

/-- The differences of the sample group to the left. -/
theorem parse_eq_ok_iff_derived_sample :
    (∀ t ∈ beforeEnd sampleTokens, t.Lexical) ∧
    parse "f" sampleTokens = .ok sampleProgram ∧
    ∃ d : ProgramText, d.yield = beforeEnd sampleTokens ∧ d.tree 3 = sampleProgram := by
  have hp : parse "f" sampleTokens = .ok sampleProgram := by rfl
  have hd := ((parse_eq_ok_iff_derived "f" sampleTokens lexical_sampleTokens).1 _).mp hp
  exact ⟨lexical_sampleTokens, hp, hd⟩

end ProcLang.Grammar
