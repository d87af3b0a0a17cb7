/-
  A source is cut into lexemes from its front, each the one that the grammar takes.

  `Munched file source pre rest ts`: lexemes were taken off `source` one after the other, up to
  the boundary between `pre` and `rest`, and mean the tokens `ts`.  Where the tokens lie is told
  by `pre` alone: `Token.mark` counts its bytes and its newlines.

  A boundary is left by the next lexeme, or it is the end of the source, or nothing can be taken
  there (`Munched.stops`).  The tokens of the source, or its error, can be told at every boundary
  (`Munched.tokensFrom_eq`), so both are decided by the boundary where the cutting stops
  (`tokenize_munches`).  What is in front of a boundary is cut in the same way when it is a
  source of its own (`Munched.cut`).
-/
import ProcLang.Proofs.Lexical.Longest
import ProcLang.Token.Tokenize

namespace ProcLang

open Lexeme ProcLang.Text

/-! ## Places behind a part of the source -/

/-- The position behind the characters `pre` of a source. -/
def positionBehind (file : String) (pre : List Char) : Position :=
  .ofByte (byteLength pre) file

/-- The number of the line on which `pre` ends. -/
def lineBehind (pre : List Char) : Nat := 1 + pre.count '\n'

/-- The token that the lexeme `word` behind `pre` means, if it means one. -/
def Token.mark (file : String) (pre word : List Char) (m : Option (Kind × String)) : List Token :=
  m.toList.map fun (kind, value) =>
    ⟨kind, value, ⟨positionBehind file pre, positionBehind file (pre ++ word)⟩, lineBehind pre⟩

/-- The end marker behind `pre`. -/
def Token.endBehind (file : String) (pre : List Char) : Token :=
  .endMarker (positionBehind file pre) (lineBehind pre)

/-! ## Boundaries -/

/-- Lexemes were taken off `source` up to the boundary between `pre` and `rest`, and mean the
    tokens `ts`. -/
inductive Munched (file : String) (source : List Char) :
    List Char → List Char → List Token → Prop
  | start : Munched file source [] source []
  | step {pre word rest : List Char} {ts : List Token} {m : Option (Kind × String)}
      (h : Munched file source pre (word ++ rest) ts) (htakes : Takes word rest m) :
      Munched file source (pre ++ word) rest (ts ++ Token.mark file pre word m)

namespace Munched

variable {file : String} {source pre rest : List Char} {ts : List Token}

/-- A boundary cuts the source in two. -/
theorem append_eq (h : Munched file source pre rest ts) : pre ++ rest = source := by
  induction h with
  | start => rfl
  | step _ _ ih => rw [List.append_assoc, ih]

/-- The first part of a source is cut at the same boundaries. -/
theorem cut (h : Munched file source pre rest ts) :
    ∀ {mid more : List Char}, rest = mid ++ more → Munched file (pre ++ mid) pre mid ts := by
  induction h with
  | start =>
    rintro mid more rfl
    exact .start
  | step h htakes ih =>
    rintro mid more rfl
    rename_i pre word ts m
    have hmid := ih (List.append_assoc word mid more).symm
    rw [← List.append_assoc] at hmid
    exact .step hmid htakes.cut

end Munched

/-! ## Scanning from a boundary -/

/-- The cursor at the boundary between `pre` and `rest`. -/
def Cursor.behind (file : String) (pre rest : List Char) : Cursor :=
  ⟨file, byteLength pre, lineBehind pre, rest⟩

/-- At the end there is the end marker. -/
theorem tokensFrom_behind_nil (file : String) (pre : List Char) :
    tokensFrom (.behind file pre []) = .ok [Token.endBehind file pre] := by
  rw [tokensFrom_eq]
  rfl

/-- Behind a lexeme comes the boundary behind its characters. -/
theorem Lexeme.after_behind (m : Option (Kind × String)) (file : String)
    (pre word rest : List Char) :
    (⟨m, word, rest⟩ : Lexeme).after (.behind file pre (word ++ rest)) =
      .behind file (pre ++ word) rest := by
  simp [Lexeme.after, Cursor.moveOver, Cursor.behind, lineBehind, Nat.add_assoc]

/-- A lexeme that the grammar takes is scanned, and its token comes first. -/
theorem tokensFrom_behind_of_takes {file : String} {pre word rest : List Char}
    {m : Option (Kind × String)} (h : Takes word rest m) :
    tokensFrom (.behind file pre (word ++ rest)) =
      (tokensFrom (.behind file (pre ++ word) rest)).map (Token.mark file pre word m ++ ·) := by
  have hscan := scan_of_takes h
  have hne : word ++ rest ≠ [] :=
    List.append_ne_nil_of_left_ne_nil (scan_spelling_ne_nil hscan) rest
  have hemit : (⟨m, word, rest⟩ : Lexeme).emit (.behind file pre (word ++ rest)) =
      (Token.mark file pre word m ++ ·) := by
    funext ts
    cases m with
    | none => rfl
    | some p =>
      simp [Lexeme.emit, Token.mark, Cursor.span, Cursor.position, Cursor.behind, positionBehind]
  have hrest : (Cursor.behind file pre (word ++ rest)).rest = word ++ rest := rfl
  rw [tokensFrom_eq, if_neg (by simpa [Cursor.atEnd, Cursor.behind] using hne), hrest, hscan]
  dsimp only
  rw [Lexeme.after_behind, hemit]

/-- An error of the scanner lies at the boundary in front of it. -/
theorem tokensFrom_behind_of_error {file : String} {pre rest : List Char} {cause : Cause}
    (hne : rest ≠ []) (h : scan rest = .error cause) :
    tokensFrom (.behind file pre rest) = .error ⟨cause, positionBehind file pre⟩ := by
  have hrest : (Cursor.behind file pre rest).rest = rest := rfl
  rw [tokensFrom_eq, if_neg (by simpa [Cursor.atEnd, Cursor.behind] using hne), hrest, h]
  rfl

namespace Munched

variable {file : String} {source pre rest : List Char} {ts : List Token}

/-- The outcome for the source can be told at every boundary. -/
theorem tokensFrom_eq (h : Munched file source pre rest ts) :
    tokensFrom (.behind file [] source) =
      (tokensFrom (.behind file pre rest)).map (ts ++ ·) := by
  induction h with
  | start => cases tokensFrom (.behind file [] source) <;> rfl
  | step h htakes ih =>
    rw [ih, tokensFrom_behind_of_takes htakes]
    cases tokensFrom (.behind file _ _) with
    | error d => rfl
    | ok us => exact congrArg Except.ok (List.append_assoc _ _ us).symm

/-- At the end of the source its tokens are those that were taken, and an end marker. -/
theorem tokens_eq (h : Munched file source source [] ts) :
    tokensFrom (.behind file [] source) = .ok (ts ++ [Token.endBehind file source]) := by
  rw [h.tokensFrom_eq, tokensFrom_behind_nil]
  rfl

/-- Where nothing can be taken, the source has an error. -/
theorem error_eq (h : Munched file source pre rest ts) {cause : Cause} (hstuck : Stuck rest cause) :
    tokensFrom (.behind file [] source) = .error ⟨cause, positionBehind file pre⟩ := by
  have hscan := (scan_eq_error_iff hstuck.ne_nil).mpr hstuck
  rw [h.tokensFrom_eq, tokensFrom_behind_of_error hstuck.ne_nil hscan]
  rfl

end Munched

/-- From every boundary, lexemes are taken up to the end of the source or up to an error. -/
theorem Munched.stops {file : String} {source pre rest : List Char} {ts : List Token}
    (h : Munched file source pre rest ts) :
    (∃ ts', Munched file source source [] ts') ∨
      ∃ pre' rest' ts' cause, Munched file source pre' rest' ts' ∧ Stuck rest' cause := by
  by_cases hne : rest = []
  · subst hne
    have happend := h.append_eq
    rw [List.append_nil] at happend
    exact Or.inl ⟨ts, happend ▸ h⟩
  · cases hscan : scan rest with
    | ok l =>
      have hlt := scan_rest_length_lt hscan
      obtain ⟨rfl, htakes⟩ := scan_eq_ok_iff.mp hscan
      exact (h.step htakes).stops
    | error cause => exact Or.inr ⟨pre, rest, ts, cause, h, (scan_eq_error_iff hne).mp hscan⟩
termination_by rest.length

/-! ## The tokens of a source -/

/-- A source that has tokens is cut into lexemes up to its end. -/
theorem exists_munched_of_tokenize {source : String} {file? : Option String} {ts : List Token}
    (h : tokenize source file? = .ok ts) :
    ∃ us, Munched (file?.getD "stdin") source.toList source.toList [] us ∧
      ts = us ++ [Token.endBehind (file?.getD "stdin") source.toList] := by
  rcases Munched.start.stops with ⟨us, hus⟩ | ⟨pre, rest, us, cause, hus, hstuck⟩
  · exact ⟨us, hus, Except.ok.inj (h.symm.trans hus.tokens_eq)⟩
  · cases h.symm.trans (hus.error_eq hstuck)

/-- A source that has an error is cut into lexemes up to a place where none can be taken. -/
theorem exists_stuck_of_tokenize {source : String} {file? : Option String} {d : Diagnostic}
    (h : tokenize source file? = .error d) :
    ∃ pre rest us cause, Munched (file?.getD "stdin") source.toList pre rest us ∧
      Stuck rest cause ∧ d = ⟨cause, positionBehind (file?.getD "stdin") pre⟩ := by
  rcases Munched.start.stops with ⟨us, hus⟩ | ⟨pre, rest, us, cause, hus, hstuck⟩
  · cases h.symm.trans hus.tokens_eq
  · exact ⟨pre, rest, us, cause, hus, hstuck,
      Except.error.inj (h.symm.trans (hus.error_eq hstuck))⟩

/-- The scanner cuts every source as the lexical grammar does.  It has tokens when the cutting
    comes to the end of the source, and they are those of the lexemes; it has an error when the
    cutting gets stuck, and the error lies at the boundary where that happens; and what is in
    front of a boundary has, on its own, the tokens that were taken up to it. -/
theorem tokenize_munches (source : String) (file? : Option String) :
    (∀ ts, tokenize source file? = .ok ts ↔
      ∃ us, Munched (file?.getD "stdin") source.toList source.toList [] us ∧
        ts = us ++ [Token.endBehind (file?.getD "stdin") source.toList]) ∧
    (∀ d, tokenize source file? = .error d ↔
      ∃ pre rest us cause, Munched (file?.getD "stdin") source.toList pre rest us ∧
        Stuck rest cause ∧ d = ⟨cause, positionBehind (file?.getD "stdin") pre⟩) ∧
    ∀ pre rest us, Munched (file?.getD "stdin") source.toList pre rest us →
      tokenize (String.ofList pre) file? =
        .ok (us ++ [Token.endBehind (file?.getD "stdin") pre]) := by
  refine ⟨?_, ?_, ?_⟩
  · intro ts
    refine ⟨exists_munched_of_tokenize, ?_⟩
    rintro ⟨us, hus, rfl⟩
    exact hus.tokens_eq
  · intro d
    refine ⟨exists_stuck_of_tokenize, ?_⟩
    rintro ⟨pre, rest, us, cause, hus, hstuck, rfl⟩
    exact hus.error_eq hstuck
  · intro pre rest us hus
    have hcut : Munched (file?.getD "stdin") (pre ++ []) pre [] us := hus.cut rfl
    rw [List.append_nil] at hcut
    have htokens := hcut.tokens_eq
    rw [tokenize, Cursor.start, String.toList_ofList]
    exact htokens

end ProcLang
