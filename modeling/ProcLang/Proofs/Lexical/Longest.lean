/-
  The scanner takes the longest lexeme.

  The scanner picks the class of a lexeme by the first character, and among the operators it
  takes the first of a table that fits.  Both choices are right for the lexical grammar:

  * `isLexeme_of_scan`         — what is scanned is a lexeme of the grammar;
  * `exists_scan_of_isLexeme`  — where the grammar has a lexeme, one that is at least as long is
                                 scanned;
  * `scan_eq_ok_iff`           — so the scanner takes what the grammar takes;
  * `scan_eq_error_iff`        — it fails where the grammar takes nothing, with the cause that
                                 the grammar names.
-/
import Mathlib.Data.List.Infix
import ProcLang.Proofs.Lexical.Grammar

namespace ProcLang.Lexeme

open ProcLang.Text

/-! ## Comments -/

/-- A comment is closed at the first place where it can be. -/
theorem closeComment?_append {body : List Char} (h : ¬ HasEnd body) (rest : List Char) :
    closeComment? (body ++ '%' :: '/' :: rest) = some (body ++ ['%', '/'], rest) := by
  induction body with
  | nil => rfl
  | cons c body ih =>
    obtain ⟨hfront, hbody⟩ := not_or.mp (mt List.infix_cons_iff.mpr h)
    have hno : ∀ cs, c :: (body ++ '%' :: '/' :: rest) ≠ '%' :: '/' :: cs := by
      intro cs heq
      obtain ⟨rfl, htail⟩ := List.cons.inj heq
      cases body with
      | nil => exact absurd (List.cons.inj htail).1 (by decide)
      | cons d body =>
        obtain rfl := (List.cons.inj htail).1
        exact hfront ⟨body, rfl⟩
    rw [List.cons_append, closeComment?]
    · rw [ih hbody]
      rfl
    · intro cs hc htail
      exact hno cs (by rw [hc, htail])

/-- A comment that has an end somewhere is closed. -/
theorem hasEnd_of_closeComment? {cs : List Char} (h : HasEnd cs) : closeComment? cs ≠ none := by
  fun_induction closeComment? cs with
  | case1 => exact absurd (List.infix_nil.mp h) (List.cons_ne_nil _ _)
  | case2 rest => exact Option.some_ne_none _
  | case3 c cs hno ih =>
    rcases List.infix_cons_iff.mp h with ⟨rest, heq⟩ | h
    · exact (hno rest (List.cons.inj heq).1.symm (List.cons.inj heq).2.symm).elim
    · simpa using ih h

/-- The end that is found is the first one. -/
theorem of_closeComment? {cs text rest : List Char} (h : closeComment? cs = some (text, rest)) :
    ∃ body, text = body ++ ['%', '/'] ∧ ¬ HasEnd body := by
  fun_induction closeComment? cs generalizing text with
  | case1 => cases h
  | case2 => exact ⟨[], (Prod.mk.inj (Option.some.inj h)).1.symm, by simp [HasEnd]⟩
  | case3 c cs hno ih =>
    obtain ⟨p, hp, he⟩ := Option.map_eq_some_iff.mp h
    obtain ⟨rfl, rfl⟩ := Prod.mk.inj he
    obtain ⟨body, hbody, hend⟩ := ih hp
    refine ⟨c :: body, by rw [hbody]; rfl, ?_⟩
    rintro hcons
    rcases List.infix_cons_iff.mp hcons with ⟨tail, heq⟩ | hcons
    · -- the end would have been taken one character earlier
      obtain ⟨rfl, rfl⟩ := List.cons.inj heq
      have hcs := append_of_closeComment? hp
      rw [hbody] at hcs
      exact hno _ rfl hcs.symm
    · exact hend hcons

/-- A whole comment is scanned as a comment. -/
theorem scan_of_isComment {word : List Char} (h : IsComment word) (rest : List Char) :
    scan (word ++ rest) = .ok ⟨none, word, rest⟩ := by
  obtain ⟨hend⟩ := h
  rename_i body
  have happend : '/' :: '%' :: (body ++ ['%', '/']) ++ rest =
      '/' :: '%' :: (body ++ '%' :: '/' :: rest) := by simp
  rw [happend]
  show comment (body ++ '%' :: '/' :: rest) = _
  rw [comment, closeComment?_append hend]

/-- What is scanned as a comment is one. -/
theorem isComment_of_comment {cs : List Char} {l : Lexeme} (h : comment cs = .ok l) :
    IsComment l.spelling ∧ l.token? = none := by
  unfold comment at h
  split at h
  · rename_i text rest hclose
    obtain rfl := Except.ok.inj h
    obtain ⟨body, rfl, hbody⟩ := of_closeComment? hclose
    exact ⟨.mk hbody, rfl⟩
  · cases h

/-- A comment without an end is the cause that the grammar names. -/
theorem blames_of_comment {cs : List Char} {cause : Cause} (h : comment cs = .error cause) :
    Blames ('/' :: '%' :: cs) cause := by
  unfold comment at h
  split at h
  · cases h
  · rename_i hclose
    obtain rfl := Except.error.inj h
    exact .comment fun hend => hasEnd_of_closeComment? hend hclose

/-! ## Runs of characters -/

/-- A run of characters takes at least any lexeme that is made of such characters. -/
theorem length_le_of_run {p : Char → Bool} {word cs : List Char} (h : ∀ c ∈ word, p c = true)
    (hword : word <+: cs) : word.length ≤ (cs.takeWhile p).length := by
  obtain ⟨rest, rfl⟩ := hword
  rw [List.takeWhile_append_of_pos h, List.length_append]
  omega

/-- Characters that a run has taken are of its class. -/
theorem of_mem_takeWhile {p : Char → Bool} {cs : List Char} :
    ∀ c ∈ cs.takeWhile p, p c = true := fun c hc =>
  (List.all_eq_true.mp List.all_takeWhile) c hc

/-! ## Words -/

/-- A reserved word has the kind of its entry. -/
theorem wordKind_of_mem {s : String} {k : Kind} (h : (s, k) ∈ reserved) : wordKind s = k := by
  have hall : ∀ p ∈ reserved, wordKind p.1 = p.2 := by decide
  exact hall (s, k) h

/-- All other words are identifiers. -/
theorem wordKind_of_forall_notMem {s : String} (h : ∀ k, (s, k) ∉ reserved) :
    wordKind s = .identifier := by
  have hnone : reserved.lookup s = none := by
    rw [List.lookup_eq_none_iff]
    rintro ⟨x, k⟩ hp
    simp only [bne_iff_ne, ne_eq]
    rintro rfl
    exact h k hp
  rw [wordKind, hnone]
  rfl

/-- A word is reserved exactly when it is in the table. -/
theorem isLexeme_word {cs : List Char} (h : IsWord cs) : IsLexeme cs (word cs) := by
  by_cases hk : ∃ k, (String.ofList cs, k) ∈ reserved
  · obtain ⟨k, hk⟩ := hk
    rw [word, wordKind_of_mem hk]
    exact .reserved h hk
  · have hfree : ∀ k, (String.ofList cs, k) ∉ reserved := fun k h => hk ⟨k, h⟩
    rw [word, wordKind_of_forall_notMem hfree]
    exact .identifier h hfree

/-! ## Numbers -/

/-- What is scanned as a number is a lexeme of the grammar. -/
theorem isLexeme_number {c : Char} (h : c.isDigit = true) (cs : List Char) :
    IsLexeme (number (c :: cs)).spelling (number (c :: cs)).token? := by
  have hdecimal : IsLexeme (run numeral [] Char.isDigit (c :: cs)).spelling
      (run numeral [] Char.isDigit (c :: cs)).token? :=
    .decimal (run_spelling_ne_nil _ h _) of_mem_takeWhile
  unfold number
  split
  · split
    · rename_i x d ds heq hmark
      simp only [Bool.and_eq_true, Bool.or_eq_true, decide_eq_true_eq] at hmark
      refine .hexadecimal hmark.1 ?_ of_mem_takeWhile
      rw [List.takeWhile_cons_of_pos hmark.2]
      exact List.cons_ne_nil _ _
    · exact hdecimal
  · exact hdecimal

/-- Behind a base mark and a digit, the digits of base 16 are taken. -/
theorem number_of_hexadecimal {x d : Char} (hx : x = 'x' ∨ x = 'X') (hd : isHexDigit d = true)
    (cs : List Char) :
    number ('0' :: x :: d :: cs) = run numeral ['0', x] isHexDigit (d :: cs) :=
  if_pos (by simpa using ⟨hx, hd⟩)

/-! ## Literals in quotes -/

/-- The table of escapes is that of the grammar. -/
theorem unescape?_eq_some_iff {e c : Char} : unescape? e = some c ↔ Escape e c := by
  constructor
  · intro h
    unfold unescape? at h
    split at h
    · exact Option.some.inj h ▸ .newline
    · exact Option.some.inj h ▸ .tab
    · exact Option.some.inj h ▸ .nul
    · exact Option.some.inj h ▸ .quote
    · exact Option.some.inj h ▸ .backslash
    · cases h
  · rintro ⟨⟩ <;> rfl

/-- What is scanned as a character literal is one. -/
theorem isLexeme_of_charLiteral {cs : List Char} {l : Lexeme} (h : charLiteral cs = .ok l) :
    IsLexeme l.spelling l.token? := by
  unfold charLiteral at h
  split at h
  · split at h
    · rename_i d hescape
      obtain rfl := Except.ok.inj h
      exact .char (.escape (unescape?_eq_some_iff.mp hescape))
    · split at h <;> cases h
  · split at h
    · cases h
    · rename_i hplain
      obtain rfl := Except.ok.inj h
      simp only [Bool.or_eq_true, decide_eq_true_eq, not_or] at hplain
      exact .char (.plain hplain.1 hplain.2)
  · cases h

/-- A character in quotes is scanned as a character literal. -/
theorem scan_of_isQuoted {c : Char} {word : List Char} (h : IsQuoted c word) (rest : List Char) :
    scan (word ++ rest) = .ok ⟨some (.charLiteral, String.singleton c), word, rest⟩ := by
  cases h with
  | plain hquote hslash =>
    show charLiteral (c :: '\x27' :: rest) = _
    unfold charLiteral
    split
    · rename_i heq
      exact absurd (List.cons.inj heq).1 hslash
    · rename_i heq
      obtain ⟨rfl, htail⟩ := List.cons.inj heq
      obtain rfl := (List.cons.inj htail).2
      rw [if_neg (by simpa using ⟨hquote, hslash⟩)]
    · rename_i hno
      exact (hno c rest rfl).elim
  | escape hescape =>
    rename_i e
    show charLiteral ('\x5c' :: e :: '\x27' :: rest) = _
    simp only [charLiteral, unescape?_eq_some_iff.mpr hescape]

/-- The shape of an escape that stands for no character. -/
theorem isUnknownEscape_shape {word cs : List Char} (h : IsUnknownEscape word)
    (hword : word <+: cs) :
    ∃ e rest, cs = '\x27' :: '\x5c' :: e :: '\x27' :: rest ∧ e ≠ '\n' ∧
      word = ['\x27', '\x5c', e, '\x27'] := by
  obtain ⟨rest, rfl⟩ := hword
  obtain ⟨hline, -⟩ := h
  exact ⟨_, rest, rfl, hline, rfl⟩

/-- The first character is blamed where no unknown escape stands. -/
theorem blames_of_no_escape {c : Char} {cs : List Char} (hcomment : ¬ StartsComment (c :: cs))
    (hno : ∀ e rest, c :: cs = '\x27' :: '\x5c' :: e :: '\x27' :: rest → e = '\n') :
    Blames (c :: cs) (.unrecognised (String.singleton c)) := by
  refine .character hcomment ?_
  intro word hword hpre
  obtain ⟨e, rest, heq, hline, -⟩ := isUnknownEscape_shape hword hpre
  exact hline (hno e rest heq)

/-- A character literal that fails does so for the cause that the grammar names: the escape where
    there is one, and else the quote. -/
theorem blames_of_charLiteral {cs : List Char} {cause : Cause}
    (h : charLiteral cs = .error cause) : Blames ('\x27' :: cs) cause := by
  have hcomment : ¬ StartsComment ('\x27' :: cs) := not_startsComment_of_ne (by decide) cs
  unfold charLiteral at h
  split at h
  · -- an escape with its closing quote
    rename_i e rest
    split at h
    · cases h
    · rename_i hunknown
      have hno : ∀ c, ¬ Escape e c := by
        intro c hc
        rw [unescape?_eq_some_iff.mpr hc] at hunknown
        cases hunknown
      split at h
      · rename_i hline
        obtain rfl := Except.error.inj h
        refine blames_of_no_escape hcomment ?_
        intro e' rest' heq
        simp only [List.cons.injEq, true_and] at heq
        exact heq.1 ▸ hline
      · rename_i hline
        obtain rfl := Except.error.inj h
        exact .escape (.mk hline hno)
  · -- one character with its closing quote
    rename_i c rest hshape
    split at h
    · obtain rfl := Except.error.inj h
      refine blames_of_no_escape hcomment ?_
      intro e rest' heq
      obtain ⟨hc, -, hrest⟩ : c = '\x5c' ∧ '\x27' = e ∧ rest = '\x27' :: rest' := by
        simpa using heq
      exact (hshape rest' hc hrest).elim
    · cases h
  · -- no closing quote where it should be
    rename_i hshape _
    obtain rfl := Except.error.inj h
    refine blames_of_no_escape hcomment ?_
    intro e rest heq
    exact (hshape e rest (List.cons.inj heq).2).elim

/-- A text in double quotes is scanned as a string literal. -/
theorem scan_of_isString {text : List Char} (h : ∀ c ∈ text, isStringPart c = true)
    (rest : List Char) :
    scan ('"' :: (text ++ ['"']) ++ rest) =
      .ok ⟨some (.stringLiteral, String.ofList text), '"' :: (text ++ ['"']), rest⟩ := by
  have hquote : isStringPart '"' = false := by decide
  have happend : text ++ ['"'] ++ rest = text ++ '"' :: rest := by simp
  show stringLiteral (text ++ ['"'] ++ rest) = _
  rw [happend]
  unfold stringLiteral
  rw [List.takeWhile_append_of_pos h, List.dropWhile_append_of_pos h]
  simp [hquote]

/-- What is scanned as a string literal is one. -/
theorem isLexeme_of_stringLiteral {cs : List Char} {l : Lexeme} (h : stringLiteral cs = .ok l) :
    IsLexeme l.spelling l.token? := by
  unfold stringLiteral at h
  split at h
  · obtain rfl := Except.ok.inj h
    exact .string of_mem_takeWhile
  · cases h

/-- A string literal without an end is blamed on its quote. -/
theorem blames_of_stringLiteral {cs : List Char} {cause : Cause}
    (h : stringLiteral cs = .error cause) : Blames ('"' :: cs) cause := by
  unfold stringLiteral at h
  split at h
  · cases h
  · obtain rfl := Except.error.inj h
    refine blames_of_no_escape (not_startsComment_of_ne (by decide) cs) ?_
    intro e rest heq
    exact absurd (List.cons.inj heq).1 (by decide)

/-! ## Operators -/

/-- No spelling of an operator begins with one that stands before it in the table. -/
theorem pairwise_operators :
    operators.Pairwise fun o o' => ¬ o.1.toList <+: o'.1.toList := by decide

/-- The character begins none of the other lexemes. -/
def isOperatorStart (c : Char) : Bool :=
  !isBlank c && !isWordStart c && !c.isDigit && c != '\x27' && c != '"'

/-- Operators begin with a character that begins no other lexeme. -/
theorem operator_shape {o : String × Kind} (h : o ∈ operators) :
    ∃ c cs, o.1.toList = c :: cs ∧ isBlank c = false ∧ isWordStart c = false ∧
      c.isDigit = false ∧ c ≠ '\x27' ∧ c ≠ '"' := by
  have hall : ∀ o ∈ operators, (o.1.toList.head?.any isOperatorStart) = true := by decide
  obtain ⟨c, hhead, hc⟩ := (Option.any_eq_true _ _).mp (hall o h)
  obtain ⟨cs, hcs⟩ := List.head?_eq_some_iff.mp hhead
  simp only [isOperatorStart, Bool.and_eq_true, Bool.not_eq_true', bne_iff_ne] at hc
  obtain ⟨⟨⟨⟨hblank, hstart⟩, hdigit⟩, hquote⟩, hdouble⟩ := hc
  exact ⟨c, cs, hcs, hblank, hstart, hdigit, hquote, hdouble⟩

/-- What is scanned as an operator is one of the table. -/
theorem isLexeme_of_operator {cs : List Char} {l : Lexeme} (h : operator cs = .ok l) :
    IsLexeme l.spelling l.token? := by
  unfold operator at h
  split at h
  · rename_i o ho
    obtain rfl := Except.ok.inj h
    exact .operator (List.mem_of_find?_eq_some ho)
  · cases h

/-- The first operator that fits is the longest one. -/
theorem operator_of_mem {o : String × Kind} (h : o ∈ operators) {cs : List Char}
    (hword : o.1.toList <+: cs) :
    ∃ l, operator cs = .ok l ∧ o.1.toList.length ≤ l.spelling.length ∧
      (l.spelling = o.1.toList → l.token? = some (o.2, o.1)) := by
  cases hfind : operators.find? fun o => o.1.toList.isPrefixOf cs with
  | none =>
    have hnone := List.find?_eq_none.mp hfind o h
    exact absurd (List.isPrefixOf_iff_prefix.mpr hword) hnone
  | some o' =>
    refine ⟨⟨some (o'.2, o'.1), o'.1.toList, cs.drop o'.1.toList.length⟩, ?_, ?_⟩
    · rw [operator, hfind]
    · obtain ⟨hfits, before, behind, hsplit, hbefore⟩ := List.find?_eq_some_iff_append.mp hfind
      have hpair := pairwise_operators
      rw [hsplit] at h hpair
      rcases List.mem_append.mp h with hmem | hmem
      · have hno := hbefore o hmem
        rw [List.isPrefixOf_iff_prefix.mpr hword] at hno
        cases hno
      · rcases List.mem_cons.mp hmem with rfl | hmem
        · exact ⟨Nat.le_refl _, fun _ => rfl⟩
        · -- `o` stands behind the one that was found, so it does not begin with it
          have hno := (List.pairwise_cons.mp (List.pairwise_append.mp hpair).2.1).1 o hmem
          have hlt : o.1.toList.length < o'.1.toList.length := by
            rw [← Nat.not_le]
            intro hle
            exact hno (List.prefix_of_prefix_length_le
              (List.isPrefixOf_iff_prefix.mp hfits) hword hle)
          refine ⟨Nat.le_of_lt hlt, ?_⟩
          intro heq
          exact absurd (congrArg List.length heq).symm (Nat.ne_of_lt hlt)

/-! ## All classes -/

/-- What is scanned is a lexeme of the grammar. -/
theorem isLexeme_of_scan {cs : List Char} {l : Lexeme} (hcomment : ¬ StartsComment cs)
    (h : scan cs = .ok l) : IsLexeme l.spelling l.token? := by
  unfold scan at h
  split at h
  · cases h
  · exact absurd ⟨_, rfl⟩ hcomment
  · exact isLexeme_of_charLiteral h
  · exact isLexeme_of_stringLiteral h
  · split at h
    · rename_i hblank
      obtain rfl := Except.ok.inj h
      exact .blank (run_spelling_ne_nil _ hblank _) of_mem_takeWhile
    · split at h
      · rename_i c cs _ _ _ _ hstart
        obtain rfl := Except.ok.inj h
        refine isLexeme_word ⟨c, cs.takeWhile isWordPart, ?_, hstart, of_mem_takeWhile⟩
        exact List.takeWhile_cons_of_pos (isWordPart_of_isWordStart hstart)
      · split at h
        · rename_i hdigit
          obtain rfl := Except.ok.inj h
          exact isLexeme_number hdigit _
        · exact isLexeme_of_operator h

/-- At least the lexeme `word` is scanned off `cs`, and as what it means if nothing longer is. -/
def Reaches (cs word : List Char) (m : Option (Kind × String)) : Prop :=
  ∃ l, scan cs = .ok l ∧ word.length ≤ l.spelling.length ∧ (l.spelling = word → l.token? = m)

/-- The scanner has taken just this word. -/
theorem Reaches.of_eq {cs word : List Char} {l : Lexeme} (h : scan cs = .ok l)
    (hword : l.spelling = word) : Reaches cs word l.token? :=
  ⟨l, h, Nat.le_of_eq (congrArg List.length hword.symm), fun _ => rfl⟩

/-- A run takes at least the word in front of it, if the word is of its class. -/
theorem Reaches.of_run {t : List Char → Option (Kind × String)} {p : Char → Bool}
    {cs word : List Char} (h : scan cs = .ok (run t [] p cs)) (hp : ∀ c ∈ word, p c = true)
    (hword : word <+: cs) : Reaches cs word (t word) :=
  ⟨_, h, length_le_of_run hp hword, fun heq => congrArg t heq⟩

/-- A word is scanned as far as it goes, or further. -/
theorem IsWord.reaches {word cs : List Char} (h : IsWord word) (hword : word <+: cs) :
    Reaches cs word (Lexeme.word word) := by
  obtain ⟨d, ds, rfl, hd, hds⟩ := h
  obtain ⟨rest, rfl⟩ := hword
  have hall : ∀ e ∈ d :: ds, isWordPart e = true :=
    List.forall_mem_cons.mpr ⟨isWordPart_of_isWordStart hd, hds⟩
  refine .of_run ?_ hall ⟨rest, rfl⟩
  rw [List.cons_append, scan_of_isWordPart (isWordPart_of_isWordStart hd), if_pos hd]

/-- A text that begins with a digit is scanned as a number. -/
theorem scan_of_isDigit {c : Char} (h : c.isDigit = true) (cs : List Char) :
    scan (c :: cs) = .ok (number (c :: cs)) := by
  rw [scan_of_isWordPart (isWordPart_of_isDigit h), if_neg (by simp [isWordStart_of_isDigit h]),
    if_pos h]

/-- A hexadecimal number is longer than the decimal number that it begins with, which is `0`. -/
theorem reaches_of_decimal {word cs : List Char} (hne : word ≠ [])
    (h : ∀ c ∈ word, c.isDigit = true) (hword : word <+: cs) :
    Reaches cs word (numeral word) := by
  obtain ⟨d, ds, rfl⟩ := List.exists_cons_of_ne_nil hne
  have hd : d.isDigit = true := h d List.mem_cons_self
  obtain ⟨rest, rfl⟩ := hword
  have hscan : scan (d :: ds ++ rest) = .ok (number (d :: ds ++ rest)) := scan_of_isDigit hd _
  have hdecimal : scan (d :: ds ++ rest) = .ok (run numeral [] Char.isDigit (d :: ds ++ rest)) →
      Reaches (d :: ds ++ rest) (d :: ds) (numeral (d :: ds)) := fun hrun =>
    .of_run hrun h ⟨rest, rfl⟩
  generalize hcs : d :: ds ++ rest = cs at hscan hdecimal
  unfold number at hscan
  split at hscan
  · rename_i x e es
    split at hscan
    · rename_i hmark
      simp only [Bool.and_eq_true, Bool.or_eq_true, decide_eq_true_eq] at hmark
      -- the base mark is no digit, so the decimal number ends in front of it
      have hshort : ds = [] := by
        cases ds with
        | nil => rfl
        | cons y ys =>
          have hx : y = x := (List.cons.inj (List.cons.inj hcs).2).1
          have hy : y.isDigit = true := h y (by simp)
          rcases hmark.1 with rfl | rfl
          · exact absurd (hx ▸ hy) (by decide)
          · exact absurd (hx ▸ hy) (by decide)
      refine ⟨_, hscan, ?_, ?_⟩
      · simp [hshort, run]
      · intro heq
        simp [hshort, run] at heq
    · exact hdecimal hscan
  · exact hdecimal hscan

/-- Digits of base 16 are scanned as far as they go, or further. -/
theorem reaches_of_hexadecimal {x : Char} {word cs : List Char} (hx : x = 'x' ∨ x = 'X')
    (hne : word ≠ []) (h : ∀ c ∈ word, isHexDigit c = true) (hword : '0' :: x :: word <+: cs) :
    Reaches cs ('0' :: x :: word) (numeral ('0' :: x :: word)) := by
  obtain ⟨d, ds, rfl⟩ := List.exists_cons_of_ne_nil hne
  obtain ⟨rest, rfl⟩ := hword
  have hscan : scan ('0' :: x :: (d :: ds) ++ rest) =
      .ok (run numeral ['0', x] isHexDigit (d :: ds ++ rest)) := by
    refine (scan_of_isDigit (by decide) _).trans (congrArg Except.ok ?_)
    exact number_of_hexadecimal hx (h d List.mem_cons_self) _
  refine ⟨_, hscan, ?_, fun heq => congrArg numeral heq⟩
  have hrun := length_le_of_run h ⟨rest, rfl⟩
  simpa [run] using hrun

/-- An operator is scanned as far as it goes, or as a longer one. -/
theorem reaches_of_operator {o : String × Kind} (h : o ∈ operators) {cs : List Char}
    (hword : o.1.toList <+: cs) (hcomment : ¬ StartsComment cs) :
    Reaches cs o.1.toList (some (o.2, o.1)) := by
  obtain ⟨l, hl, hlength, htoken⟩ := operator_of_mem h hword
  refine ⟨l, ?_, hlength, htoken⟩
  obtain ⟨c, ds, hcons, hblank, hstart, hdigit, hquote, hdouble⟩ := operator_shape h
  obtain ⟨rest, rfl⟩ := hword
  rw [hcons, List.cons_append] at hl hcomment ⊢
  rw [scan_cons hquote hdouble hcomment, if_neg (by simp [hblank]), if_neg (by simp [hstart]),
    if_neg (by simp [hdigit]), hl]

/-- Where the grammar has a lexeme, one that is at least as long is scanned. -/
theorem exists_scan_of_isLexeme {word cs : List Char} {m : Option (Kind × String)}
    (h : IsLexeme word m) (hword : word <+: cs) (hcomment : ¬ StartsComment cs) :
    Reaches cs word m := by
  cases h with
  | blank hne h =>
    obtain ⟨c, ds, rfl⟩ := List.exists_cons_of_ne_nil hne
    obtain ⟨rest, rfl⟩ := hword
    exact .of_run (t := fun _ => none) (scan_of_isBlank (h c List.mem_cons_self) _) h ⟨rest, rfl⟩
  | reserved h hk => exact wordKind_of_mem hk ▸ h.reaches hword
  | identifier h hk => exact wordKind_of_forall_notMem hk ▸ h.reaches hword
  | decimal hne h => exact reaches_of_decimal hne h hword
  | hexadecimal hx hne h => exact reaches_of_hexadecimal hx hne h hword
  | char h =>
    obtain ⟨rest, rfl⟩ := hword
    exact .of_eq (scan_of_isQuoted h rest) rfl
  | string h =>
    obtain ⟨rest, rfl⟩ := hword
    exact .of_eq (scan_of_isString h rest) rfl
  | operator h => exact reaches_of_operator h hword hcomment

/-! ## What the scanner takes, and what it blames -/

/-- What is scanned is what the grammar takes. -/
theorem takes_of_scan {cs : List Char} {l : Lexeme} (h : scan cs = .ok l) :
    Takes l.spelling l.rest l.token? := by
  have happend := scan_append h
  by_cases hcomment : StartsComment cs
  · obtain ⟨rest, rfl⟩ := hcomment
    obtain ⟨hword, htoken⟩ := isComment_of_comment (show comment rest = .ok l from h)
    rw [htoken]
    exact .comment hword
  · refine .longest (by rwa [happend]) (isLexeme_of_scan hcomment h) ?_
    intro word' m' hlexeme hpre
    rw [happend] at hpre
    obtain ⟨l', hl', hlength, -⟩ := exists_scan_of_isLexeme hlexeme hpre hcomment
    obtain rfl := Except.ok.inj (h.symm.trans hl')
    exact hlength

/-- What the grammar takes is scanned. -/
theorem scan_of_takes {word rest : List Char} {m : Option (Kind × String)}
    (h : Takes word rest m) : scan (word ++ rest) = .ok ⟨m, word, rest⟩ := by
  cases h with
  | comment h => exact scan_of_isComment h rest
  | longest hcomment h hmax =>
    obtain ⟨⟨m', word', rest'⟩, hscan, hlength, htoken⟩ :=
      exists_scan_of_isLexeme h ⟨rest, rfl⟩ hcomment
    have happend : word' ++ rest' = word ++ rest := scan_append hscan
    have hle : word'.length ≤ word.length :=
      hmax _ _ (isLexeme_of_scan hcomment hscan) ⟨rest', happend⟩
    obtain ⟨rfl, rfl⟩ := List.append_inj happend (Nat.le_antisymm hle hlength)
    obtain rfl : m' = m := htoken rfl
    exact hscan

/-- The scanner takes what the grammar takes. -/
theorem scan_eq_ok_iff {cs : List Char} {l : Lexeme} :
    scan cs = .ok l ↔ l.spelling ++ l.rest = cs ∧ Takes l.spelling l.rest l.token? := by
  constructor
  · exact fun h => ⟨scan_append h, takes_of_scan h⟩
  · rintro ⟨rfl, h⟩
    exact scan_of_takes h

/-- A character that begins no lexeme is blamed. -/
theorem blames_of_operator {c : Char} {cs : List Char} {cause : Cause}
    (hcomment : ¬ StartsComment (c :: cs)) (hquote : c ≠ '\x27')
    (h : operator (c :: cs) = .error cause) : Blames (c :: cs) cause := by
  unfold operator at h
  split at h
  · cases h
  · obtain rfl := Except.error.inj h
    have hfirst : String.ofList ((c :: cs).take 1) = String.singleton c :=
      String.singleton_eq_ofList.symm
    rw [hfirst]
    refine blames_of_no_escape hcomment ?_
    intro e rest heq
    exact absurd (List.cons.inj heq).1 hquote

/-- The scanner fails for a cause that the grammar names. -/
theorem blames_of_scan {c : Char} {cs : List Char} {cause : Cause}
    (h : scan (c :: cs) = .error cause) : Blames (c :: cs) cause := by
  by_cases hcomment : StartsComment (c :: cs)
  · obtain ⟨rest, hrest⟩ := hcomment
    rw [← hrest] at h ⊢
    exact blames_of_comment h
  by_cases hquote : c = '\x27'
  · subst hquote
    exact blames_of_charLiteral h
  by_cases hdouble : c = '"'
  · subst hdouble
    exact blames_of_stringLiteral h
  -- runs of characters do not fail, so only an operator can be missing
  · rw [scan_cons hquote hdouble hcomment] at h
    split at h
    · cases h
    · split at h
      · cases h
      · split at h
        · cases h
        · exact blames_of_operator hcomment hquote h

/-- At most one cause is named. -/
theorem Blames.unique {cs ds : List Char} {cause cause' : Cause} (h : Blames cs cause)
    (h' : Blames ds cause') (heq : cs = ds) : cause = cause' := by
  cases h with
  | comment _ =>
    cases h' with
    | comment _ => rfl
    | escape h' =>
      obtain ⟨e, rest, hshape, -, -⟩ := isUnknownEscape_shape h' ⟨_, heq.symm⟩
      exact absurd (List.cons.inj hshape).1 (by decide)
    | character hcomment _ => exact absurd ⟨_, heq⟩ hcomment
  | escape h =>
    cases h' with
    | comment _ =>
      obtain ⟨e, rest, hshape, -, -⟩ := isUnknownEscape_shape h ⟨_, heq⟩
      exact absurd (List.cons.inj hshape).1 (by decide)
    | escape h' =>
      obtain ⟨e, rest, hshape, -, rfl⟩ := isUnknownEscape_shape h ⟨_, rfl⟩
      obtain ⟨e', rest', hshape', -, rfl⟩ := isUnknownEscape_shape h' ⟨_, heq.symm⟩
      obtain ⟨rfl, -⟩ : e' = e ∧ rest' = rest := by simpa using (hshape.symm.trans hshape').symm
      rfl
    | character _ hescape => exact absurd ⟨_, heq⟩ (hescape _ h)
  | character hcomment hescape =>
    cases h' with
    | comment _ => exact absurd ⟨_, heq.symm⟩ hcomment
    | escape h' => exact absurd ⟨_, heq.symm⟩ (hescape _ h')
    | character _ _ => rw [(List.cons.inj heq).1]

/-- The scanner fails where the grammar takes nothing, with the cause that the grammar names. -/
theorem scan_eq_error_iff {cs : List Char} {cause : Cause} (hne : cs ≠ []) :
    scan cs = .error cause ↔ Stuck cs cause := by
  obtain ⟨c, cs, rfl⟩ := List.exists_cons_of_ne_nil hne
  constructor
  · intro h
    refine ⟨hne, ?_, blames_of_scan h⟩
    intro word rest m heq htakes
    have hscan := scan_of_takes htakes
    rw [heq, h] at hscan
    cases hscan
  · rintro ⟨-, hno, hblames⟩
    cases hscan : scan (c :: cs) with
    | ok l =>
      obtain ⟨happend, htakes⟩ := scan_eq_ok_iff.mp hscan
      exact absurd htakes (hno _ _ _ happend)
    | error cause' => rw [(blames_of_scan hscan).unique hblames rfl]

end ProcLang.Lexeme
