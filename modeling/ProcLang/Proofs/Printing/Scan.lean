/-
  Scanning words that were written down.

  Nothing that is written behind a word can be taken for a part of it, as long as a space comes
  first; so a word is scanned as what it means (`scan_spelling`), and a text of words becomes a
  list of tokens that mean these words, and an end marker (`tokenize_spaced`).

  A symbol is scanned by running the scanner on its spelling.  For any other word the class of
  its first character decides which run of characters is taken.
-/
import Mathlib.Data.List.Forall2
import ProcLang.Proofs.Lexical.Longest
import ProcLang.Proofs.Printing.Printer
import ProcLang.Token.Tokenize

namespace ProcLang

open Lexeme ProcLang.Text

/-- The words that a program consists of. -/
def Word.Good : Word → Prop
  | symbol k => ProcLang.symbol k ≠ ""
  | name x => IsName x
  | text s => IsText s
  | number _ | char _ => True

/-- Nothing comes next, or a space. -/
def AtGap (cs : List Char) : Prop := cs = [] ∨ ∃ ds, cs = ' ' :: ds

/-! ## Single words -/

/-- A run of characters ends at a gap. -/
theorem run_eq (token? : List Char → Option (Kind × String)) {p : Char → Bool}
    {cs rest : List Char} (h : ∀ c ∈ cs, p c = true) (hp : p ' ' = false) (hr : AtGap rest) :
    run token? [] p (cs ++ rest) = ⟨token? cs, cs, rest⟩ := by
  have hend : rest.takeWhile p = [] ∧ rest.dropWhile p = rest := by
    rcases hr with rfl | ⟨ds, rfl⟩
    · exact ⟨rfl, rfl⟩
    · simp [hp]
  unfold run
  rw [List.takeWhile_append_of_pos h, List.dropWhile_append_of_pos h, hend.1, hend.2]
  simp

/-- A symbol is scanned as its kind: no spelling that fits and is longer can come of the space
    behind it. -/
theorem scan_symbol {k : Kind} (hk : symbol k ≠ "") {rest : List Char} (hr : AtGap rest) :
    scan ((symbol k).toList ++ rest) = .ok ⟨some (k, symbol k), (symbol k).toList, rest⟩ := by
  rcases hr with rfl | ⟨ds, rfl⟩
  · cases k
    all_goals first | exact absurd rfl hk | rfl
  · cases k
    all_goals first | exact absurd rfl hk | rfl

/-- A word that is no symbol is an identifier. -/
theorem wordKind_of_free {x : String} (h : ∀ k, symbol k ≠ x) : wordKind x = .identifier := by
  have hall : ∀ p ∈ reserved, symbol p.2 = p.1 := by decide
  refine wordKind_of_forall_notMem ?_
  intro k hk
  exact h k (hall (x, k) hk)

/-- A name is scanned as an identifier, as it is no reserved word. -/
theorem scan_name {x : String} (h : IsName x) {rest : List Char} (hr : AtGap rest) :
    scan (x.toList ++ rest) = .ok ⟨some (.identifier, x), x.toList, rest⟩ := by
  obtain ⟨c, cs, hx, hc, hcs⟩ := h.shape
  have hstart : isWordStart c = true := by simpa [isWordStart] using hc
  have hall : ∀ d ∈ x.toList, isWordPart d = true := by
    intro d hd
    rw [hx] at hd
    rcases List.mem_cons.mp hd with rfl | hd
    · simp only [isWordPart, Char.isAlphanum, Bool.or_eq_true, decide_eq_true_eq]
      exact hc.imp_left Or.inl
    · simpa [isWordPart] using hcs d hd
  have hrun := run_eq word hall (by decide) hr
  rw [hx, List.cons_append] at hrun ⊢
  rw [scan_of_isWordPart (hall c (by rw [hx]; exact List.mem_cons_self)), if_pos hstart, hrun, ← hx]
  simp only [word, String.ofList_toList, wordKind_of_free h.free]

/-- Decimal digits are taken as a decimal number: no base mark can follow them. -/
theorem number_eq {c : Char} {cs rest : List Char} (h : ∀ d ∈ c :: cs, d.isDigit = true)
    (hr : AtGap rest) : number (c :: cs ++ rest) = ⟨numeral (c :: cs), c :: cs, rest⟩ := by
  have hrun := run_eq numeral h (by decide) hr
  unfold number
  split
  · rename_i x d ds heq
    -- the second character is a digit, or the space behind the number
    have hx : x.isDigit = true ∨ x = ' ' := by
      have htail := (List.cons.inj heq).2
      cases cs with
      | nil =>
        rcases hr with rfl | ⟨es, rfl⟩
        · cases htail
        · exact Or.inr (List.cons.inj htail).1.symm
      | cons e es =>
        obtain rfl := (List.cons.inj htail).1
        exact Or.inl (h _ (by simp))
    have hno : ¬ (((x = 'x' || x = 'X') && isHexDigit d) = true) := by
      intro hmark
      simp only [Bool.and_eq_true, Bool.or_eq_true, decide_eq_true_eq] at hmark
      rcases hmark.1 with rfl | rfl
      · exact absurd hx (by decide)
      · exact absurd hx (by decide)
    rw [if_neg hno]
    exact hrun
  · exact hrun

/-- A number written with digits is scanned as a whole. -/
theorem scan_number (n : Nat) {rest : List Char} (hr : AtGap rest) :
    scan (Nat.toDigits 10 n ++ rest) =
      .ok ⟨some (.number, String.ofList (Nat.toDigits 10 n)), Nat.toDigits 10 n, rest⟩ := by
  have hall : ∀ d ∈ Nat.toDigits 10 n, d.isDigit = true := fun d hd =>
    Nat.isDigit_of_mem_toDigits (by decide) (by decide) hd
  cases hn : Nat.toDigits 10 n with
  | nil => exact absurd hn Nat.toDigits_ne_nil
  | cons c cs =>
    rw [hn] at hall
    have hc := hall c List.mem_cons_self
    have hnumber := number_eq hall hr
    rw [List.cons_append] at hnumber ⊢
    rw [scan_of_isDigit hc, hnumber]
    rfl

/-- A character is written as one of its spellings. -/
theorem isQuoted_spellChar (c : Char) : IsQuoted c (Word.spellChar c) := by
  by_cases hc : c = '\x27' ∨ c = '\x5c'
  · rcases hc with rfl | rfl
    · exact .escape .quote
    · exact .escape .backslash
  · have hspell : Word.spellChar c = ['\x27', c, '\x27'] := if_neg hc
    rw [hspell]
    exact .plain (fun h => hc (Or.inl h)) fun h => hc (Or.inr h)

/-- A text in double quotes is scanned as a string literal, whatever stands behind it. -/
theorem scan_text {s : String} (h : IsText s) (rest : List Char) :
    scan ('"' :: (s.toList ++ ['"']) ++ rest) =
      .ok ⟨some (.stringLiteral, s), '"' :: (s.toList ++ ['"']), rest⟩ := by
  have hall : ∀ c ∈ s.toList, isStringPart c = true := by
    intro c hc
    simpa [isStringPart] using h c hc
  rw [scan_of_isString hall, String.ofList_toList]

/-- A word is scanned as what it means. -/
theorem scan_spelling {w : Word} (h : w.Good) {rest : List Char} (hr : AtGap rest) :
    scan (w.spelling ++ rest) = .ok ⟨some (w.kind, w.value), w.spelling, rest⟩ := by
  cases w with
  | symbol k => exact scan_symbol h hr
  | name x => exact scan_name h hr
  | number n =>
    simp only [Word.spelling, Word.value, Word.kind, String.toList_ofList]
    exact scan_number n hr
  | char c => exact scan_of_isQuoted (isQuoted_spellChar c) rest
  | text s => exact scan_text h rest

/-! ## Texts -/

/-- The token stands for the word. -/
def Token.Means (t : Token) (w : Word) : Prop := t.kind = w.kind ∧ t.value = w.value

/-- The tokens stand for the words, one by one. -/
abbrev TokensMean : List Token → List Word → Prop := List.Forall₂ Token.Means

/-- No word stands for an end marker. -/
theorem Word.Good.kind_ne_eof {w : Word} (h : w.Good) : w.kind ≠ .eof := by
  cases w with
  | symbol k =>
    rintro rfl
    exact h rfl
  | name _ => exact nofun
  | number _ => exact nofun
  | char _ => exact nofun
  | text _ => exact nofun

/-- None of the tokens that stand for words is an end marker. -/
theorem TokensMean.kind_ne_eof {ts : List Token} {ws : List Word} (h : TokensMean ts ws)
    (hws : ∀ w ∈ ws, w.Good) : ∀ t ∈ ts, t.kind ≠ .eof := by
  induction h with
  | nil => exact nofun
  | cons ht _ ih =>
    obtain ⟨hw, hws⟩ := List.forall_mem_cons.mp hws
    refine List.forall_mem_cons.mpr ⟨?_, ih hws⟩
    rw [ht.1]
    exact hw.kind_ne_eof

/-- A word at the cursor becomes one token, which stands for it. -/
theorem tokensFrom_word {w : Word} (h : w.Good) {c : Cursor} {rest : List Char}
    (hc : c.rest = w.spelling ++ rest) (hr : AtGap rest) :
    ∃ (t : Token) (c' : Cursor), t.Means w ∧ c'.rest = rest ∧
      tokensFrom c = (tokensFrom c').map (t :: ·) := by
  have hscan := scan_spelling h hr
  have hne : c.rest ≠ [] := by
    rw [hc]
    exact List.append_ne_nil_of_left_ne_nil (scan_spelling_ne_nil hscan) rest
  let l : Lexeme := ⟨some (w.kind, w.value), w.spelling, rest⟩
  refine ⟨⟨w.kind, w.value, c.span (byteLength l.spelling), c.line⟩, l.after c, ⟨rfl, rfl⟩, rfl, ?_⟩
  rw [tokensFrom_eq, if_neg (by simpa [Cursor.atEnd] using hne), hc, hscan]
  rfl

/-- White space means no token, so a word does not begin with it. -/
theorem spelling_eq_cons {w : Word} (h : w.Good) :
    ∃ c cs, w.spelling = c :: cs ∧ isBlank c = false := by
  have hscan := scan_spelling h (Or.inl rfl)
  cases hw : w.spelling with
  | nil => exact absurd hw (scan_spelling_ne_nil hscan)
  | cons c cs =>
    refine ⟨c, cs, rfl, ?_⟩
    cases hc : isBlank c with
    | false => rfl
    | true =>
      rw [hw, List.append_nil, scan_of_isBlank hc] at hscan
      exact absurd (congrArg Lexeme.token? (Except.ok.inj hscan)) nofun

/-- A space in front of a word is passed over. -/
theorem tokensFrom_space {w : Word} (h : w.Good) {c : Cursor} {rest : List Char}
    (hc : c.rest = ' ' :: (w.spelling ++ rest)) :
    ∃ c' : Cursor, c'.rest = w.spelling ++ rest ∧ tokensFrom c = tokensFrom c' := by
  obtain ⟨d, ds, hw, hd⟩ := spelling_eq_cons h
  let l : Lexeme := ⟨none, [' '], w.spelling ++ rest⟩
  have hscan : scan c.rest = .ok l := by
    rw [hc, scan_of_isBlank (by decide), run]
    simp [l, hw, hd, show isBlank ' ' = true by decide]
  refine ⟨l.after c, rfl, ?_⟩
  rw [tokensFrom_eq, if_neg (by simp [Cursor.atEnd, hc]), hscan]
  show (tokensFrom (l.after c)).map id = _
  cases tokensFrom (l.after c) <;> rfl

/-- In front of each word there is a space, so what is written behind a word begins with one. -/
theorem atGap_flatMap (ws : List Word) : AtGap (ws.flatMap fun w => ' ' :: w.spelling) := by
  cases ws with
  | nil => exact Or.inl rfl
  | cons w ws => exact Or.inr ⟨_, rfl⟩

/-- Words with a space in front of each are scanned one after the other, up to the end marker. -/
theorem tokensFrom_flatMap {ws : List Word} (h : ∀ w ∈ ws, w.Good) {c : Cursor}
    (hc : c.rest = ws.flatMap fun w => ' ' :: w.spelling) :
    ∃ (ts : List Token) (m : Token), tokensFrom c = .ok (ts ++ [m]) ∧ m.kind = .eof ∧
      TokensMean ts ws := by
  induction ws generalizing c with
  | nil =>
    refine ⟨[], .endMarker c.position c.line, ?_, rfl, .nil⟩
    rw [tokensFrom_eq, if_pos (by rw [Cursor.atEnd, hc]; rfl)]
    rfl
  | cons w ws ih =>
    have hw : w.Good := h w List.mem_cons_self
    -- over the space, then over the word; the rest has a space in front of it again
    obtain ⟨c₁, hc₁, hspace⟩ := tokensFrom_space hw hc
    obtain ⟨t, c₂, ht, hc₂, hword⟩ := tokensFrom_word hw hc₁ (atGap_flatMap ws)
    obtain ⟨ts, m, hts, hm, hmeans⟩ := ih (fun v hv => h v (List.mem_cons_of_mem _ hv)) hc₂
    refine ⟨t :: ts, m, ?_, hm, .cons ht hmeans⟩
    rw [hspace, hword, hts]
    rfl

/-- A text of words becomes the tokens that stand for the words, and an end marker. -/
theorem tokenize_spaced {ws : List Word} (h : ∀ w ∈ ws, w.Good) (file? : Option String) :
    ∃ (ts : List Token) (m : Token),
      tokenize (String.ofList (spaced ws)) file? = .ok (ts ++ [m]) ∧ m.kind = .eof ∧
      TokensMean ts ws := by
  cases ws with
  | nil => exact tokensFrom_flatMap h String.toList_ofList
  | cons w ws =>
    have hstart : (Cursor.start (String.ofList (spaced (w :: ws))) file?).rest =
        w.spelling ++ ws.flatMap fun v => ' ' :: v.spelling := by
      show (String.ofList (spaced (w :: ws))).toList = _
      rw [String.toList_ofList]
      rfl
    obtain ⟨t, c, ht, hc, hword⟩ := tokensFrom_word (h w List.mem_cons_self) hstart
      (atGap_flatMap ws)
    obtain ⟨ts, m, hts, hm, hmeans⟩ :=
      tokensFrom_flatMap (fun v hv => h v (List.mem_cons_of_mem _ hv)) hc
    refine ⟨t :: ts, m, ?_, hm, .cons ht hmeans⟩
    rw [tokenize, hword, hts]
    rfl

end ProcLang
