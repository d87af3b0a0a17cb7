/-
  Separators are insignificant, and scanning is compositional.

  A gap is a text of white space and whole comments (`IsGap`).  Behind a source that has tokens,
  a gap that is not empty keeps everything that follows away from them: the tokens of the source
  come first, and then those of the text behind the gap as if it were a source of its own, only
  that its places are counted from the end of the gap (`tokenize_separated`).

  Three facts meet here.

  1. **No lexeme reaches into a gap.**  What a gap begins with is white space or the `/` of a
     comment.  Neither is part of a word or a number, and no operator has `/` behind another
     character; a literal in quotes could only go on if its quote had been open, and then the
     source would have no tokens (`Takes.extend`).  White space is the one exception: it is
     taken together with the white space behind it, and means nothing either way.
  2. **A gap can be passed over** one character or comment at a time (`tokensFrom_behind_gap`).
  3. **Places count from the front.**  The outcome at a place does not depend on what is in
     front of it, but for the bytes and newlines there (`tokensFrom_behind_append`).
-/
import Mathlib.Data.List.TakeWhile
import ProcLang.Proofs.Lexical.Tiling

namespace ProcLang

open Lexeme ProcLang.Text

/-! ## Gaps -/

/-- A text of white space and whole comments. -/
inductive IsGap : List Char → Prop
  | nil : IsGap []
  | blank {c : Char} {cs : List Char} (hc : isBlank c = true) (h : IsGap cs) : IsGap (c :: cs)
  | comment {word cs : List Char} (hword : IsComment word) (h : IsGap cs) : IsGap (word ++ cs)

/-- The text begins with white space or with a comment. -/
def Separates (cs : List Char) : Prop :=
  (∃ c ds, cs = c :: ds ∧ isBlank c = true) ∨ StartsComment cs

/-- A comment begins as comments do, whatever follows. -/
theorem Lexeme.IsComment.startsComment {word : List Char} (h : IsComment word) (rest : List Char) :
    StartsComment (word ++ rest) := by
  obtain ⟨-⟩ := h
  exact ⟨_, rfl⟩

/-- A gap that is not empty begins with white space or a comment. -/
theorem IsGap.separates {s : List Char} (h : IsGap s) (hne : s ≠ []) (rest : List Char) :
    Separates (s ++ rest) := by
  cases h with
  | nil => exact absurd rfl hne
  | blank hc _ => exact Or.inl ⟨_, _, rfl, hc⟩
  | comment hword _ =>
    rw [List.append_assoc]
    exact Or.inr (hword.startsComment _)

/-- The character that a separating text begins with. -/
theorem Separates.head {g : List Char} (h : Separates g) :
    ∃ c ds, g = c :: ds ∧ (isBlank c = true ∨ c = '/') := by
  rcases h with ⟨c, ds, rfl, hc⟩ | ⟨ds, rfl⟩
  · exact ⟨c, ds, rfl, Or.inl hc⟩
  · exact ⟨'/', '%' :: ds, rfl, Or.inr rfl⟩

/-! ## No lexeme reaches into a gap -/

/-- A hexadecimal digit could go on a word. -/
theorem isWordPart_of_isHexDigit {c : Char} (h : isHexDigit c = true) : isWordPart c = true := by
  have hlt : c.toNat < 128 := by
    have hle : ∀ z : Char, c ≤ z → z.toNat < 128 → c.toNat < 128 := fun _ hz hz' =>
      Nat.lt_of_le_of_lt hz hz'
    unfold isHexDigit digitValue? at h
    split at h
    · rename_i hc
      exact hle '9' hc.2 (by decide)
    · split at h
      · rename_i hc
        exact hle 'f' hc.2 (by decide)
      · split at h
        · rename_i hc
          exact hle 'F' hc.2 (by decide)
        · cases h
  have hall : ∀ n < 128, isHexDigit (Char.ofNat n) = true → isWordPart (Char.ofNat n) = true := by
    decide
  have hc := hall c.toNat hlt
  rw [Char.ofNat_toNat] at hc
  exact hc h

/-- What a separating text begins with is no part of a word or a number. -/
theorem not_isWordPart {c : Char} (h : isBlank c = true ∨ c = '/') : isWordPart c ≠ true := by
  intro hword
  obtain ⟨hblank, hslash, -, -⟩ := of_isWordPart hword
  rcases h with h | h
  · rw [hblank] at h
    cases h
  · exact hslash h

/-- Of the characters in quotes, only the first one can begin a separating text. -/
theorem Lexeme.IsQuoted.not_separator {e : Char} {word : List Char} (h : IsQuoted e word) :
    ∀ c ∈ word.tail.tail, ¬ (isBlank c = true ∨ c = '/') := by
  have hquote : ¬ (isBlank '\x27' = true ∨ '\x27' = '/') := by decide
  cases h with
  | plain _ _ => exact List.forall_mem_singleton.mpr hquote
  | escape he =>
    refine List.forall_mem_cons.mpr ⟨?_, List.forall_mem_singleton.mpr hquote⟩
    cases he <;> decide

/-- A character that begins a separating text is in a lexeme only behind white space, behind an
    opening quote, or within a string literal. -/
theorem Lexeme.IsLexeme.front {front rest : List Char} {c : Char} {m : Option (Kind × String)}
    (h : IsLexeme (front ++ c :: rest) m) (hc : isBlank c = true ∨ c = '/') (hne : front ≠ []) :
    (∀ d ∈ front, isBlank d = true) ∨ front = ['\x27'] ∨
      ∃ ds, front = '"' :: ds ∧ ∀ d ∈ ds, isStringPart d = true := by
  -- `c` is not the first character, and no lexeme but a blank one or a quoted one has it further
  -- behind
  obtain ⟨f, fs, rfl⟩ := List.exists_cons_of_ne_nil hne
  have hmem : c ∈ fs ++ c :: rest := by simp
  have hpart := not_isWordPart hc
  generalize hword : f :: fs ++ c :: rest = word at h
  cases h with
  | blank _ h =>
    refine Or.inl fun d hd => h d ?_
    rw [← hword]
    exact List.mem_append_left _ hd
  | reserved h _ | identifier h _ =>
    obtain ⟨d, ds, heq, -, hds⟩ := h
    have htail : fs ++ c :: rest = ds := (List.cons.inj (hword.trans heq)).2
    exact absurd (hds c (htail ▸ hmem)) hpart
  | decimal _ h =>
    have hdigit : c.isDigit = true := h c (hword ▸ List.mem_cons_of_mem f hmem)
    exact absurd (isWordPart_of_isDigit hdigit) hpart
  | hexadecimal hx _ h =>
    have htail : fs ++ c :: rest = _ := (List.cons.inj hword).2
    rw [htail] at hmem
    rcases List.mem_cons.mp hmem with rfl | hmem
    · rcases hx with rfl | rfl
      · exact absurd (by decide) hpart
      · exact absurd (by decide) hpart
    · exact absurd (isWordPart_of_isHexDigit (h c hmem)) hpart
  | char h =>
    cases fs with
    | nil =>
      have hquote : f = '\x27' := by cases h <;> exact (List.cons.inj hword).1
      exact Or.inr (Or.inl (congrArg (fun d => [d]) hquote))
    | cons g gs => exact absurd hc (h.not_separator c (by rw [← hword]; simp))
  | string h =>
    obtain ⟨rfl, htail⟩ := List.cons.inj hword
    refine Or.inr (Or.inr ⟨fs, rfl, ?_⟩)
    have hlength := congrArg List.length htail
    have hpre : fs <+: _ := List.prefix_of_prefix_length_le ⟨_, htail⟩ (List.prefix_append _ _)
      (by simp at hlength; omega)
    exact fun d hd => h d (hpre.mem hd)
  | operator h =>
    have hall : ∀ o ∈ operators,
        (o.1.toList.tail.all fun d => !isBlank d && d != '/') = true := by decide
    have hinside := List.all_eq_true.mp (hall _ h) c
    rw [← hword] at hinside
    have hother := hinside hmem
    simp only [Bool.and_eq_true, Bool.not_eq_true', bne_iff_ne] at hother
    rcases hc with hblank | hslash
    · rw [hblank] at hother
      cases hother.1
    · exact absurd hslash hother.2

/-! ## Nothing changes in front of a gap -/

/-- An open quote has no lexeme. -/
theorem scan_of_open {front : List Char}
    (h : front = ['\x27'] ∨ ∃ ds, front = '"' :: ds ∧ ∀ d ∈ ds, isStringPart d = true) :
    ∃ cause, scan front = .error cause := by
  rcases h with rfl | ⟨ds, rfl, hds⟩
  · exact ⟨_, rfl⟩
  · refine ⟨.unrecognised "\"", ?_⟩
    show stringLiteral ds = _
    have hend : ds.dropWhile isStringPart = [] := List.dropWhile_eq_nil_iff.mpr hds
    unfold stringLiteral
    rw [hend]

/-- White space is taken as a whole, and means nothing. -/
theorem Lexeme.Takes.of_blank {word rest : List Char} {m : Option (Kind × String)}
    (h : Takes word rest m) (hblank : ∀ c ∈ word ++ rest, isBlank c = true) :
    rest = [] ∧ m = none := by
  have hscan := scan_of_takes h
  have hne : word ++ rest ≠ [] :=
    List.append_ne_nil_of_left_ne_nil (scan_spelling_ne_nil hscan) rest
  obtain ⟨c, cs, hcs⟩ := List.exists_cons_of_ne_nil hne
  rw [hcs] at hscan hblank
  rw [scan_of_isBlank (hblank c List.mem_cons_self)] at hscan
  have hrun := Lexeme.mk.inj (Except.ok.inj hscan)
  exact ⟨hrun.2.2 ▸ List.dropWhile_eq_nil_iff.mpr hblank, hrun.1.symm⟩

/-- A lexeme is still taken when a gap follows the text, unless all of the text is white
    space. -/
theorem Lexeme.Takes.extend {word rest g : List Char} {m : Option (Kind × String)}
    (h : Takes word rest m) (hblank : ¬ ∀ c ∈ word ++ rest, isBlank c = true)
    (hg : Separates g) : Takes word (rest ++ g) m := by
  have hscan := scan_of_takes h
  have hne : word ++ rest ≠ [] :=
    List.append_ne_nil_of_left_ne_nil (scan_spelling_ne_nil hscan) rest
  cases h with
  | comment h => exact .comment h
  | longest hcomment h hmax =>
    obtain ⟨c, ds, rfl, hc⟩ := hg.head
    generalize hfront : word ++ rest = front at *
    have happend : word ++ (rest ++ c :: ds) = front ++ c :: ds := by
      rw [← List.append_assoc, hfront]
    refine .longest ?_ h ?_ <;> rw [happend]
    · intro hstart
      by_cases hlength : 2 ≤ front.length
      · exact hcomment (List.prefix_of_prefix_length_le hstart (List.prefix_append _ _) hlength)
      · -- the `%` of the comment would be what the gap begins with
        obtain ⟨f, fs, rfl⟩ := List.exists_cons_of_ne_nil hne
        obtain rfl : fs = [] := by simpa using hlength
        obtain ⟨es, heq⟩ := hstart
        obtain rfl : '%' = c := (List.cons.inj (List.cons.inj heq).2).1
        exact absurd hc (by decide)
    · intro word' m' hlexeme hpre
      by_cases hlength : word'.length ≤ front.length
      · exact hmax word' m' hlexeme
          (List.prefix_of_prefix_length_le hpre (List.prefix_append _ _) hlength)
      · exfalso
        obtain ⟨es, rfl⟩ : front <+: word' :=
          List.prefix_of_prefix_length_le (List.prefix_append _ _) hpre (by omega)
        cases es with
        | nil => simp at hlength
        | cons e es =>
          have hlast : e :: es <+: c :: _ := (List.prefix_append_right_inj _).mp hpre
          obtain rfl : e = c := (List.cons_prefix_cons.mp hlast).1
          rcases hlexeme.front hc hne with hall | hopen
          · exact hblank hall
          · obtain ⟨cause, herror⟩ := scan_of_open hopen
            rw [herror] at hscan
            cases hscan

/-! ## Passing over a gap -/

/-- A lexeme that means nothing is passed over. -/
theorem tokensFrom_behind_of_takes_none {file : String} {pre word rest : List Char}
    (h : Takes word rest none) :
    tokensFrom (.behind file pre (word ++ rest)) =
      tokensFrom (.behind file (pre ++ word) rest) := by
  rw [tokensFrom_behind_of_takes h]
  show (tokensFrom (.behind file (pre ++ word) rest)).map id = _
  cases tokensFrom (.behind file (pre ++ word) rest) <;> rfl

/-- White space in front of a text can be passed over, however much of it the text begins
    with. -/
theorem tokensFrom_behind_blanks {file : String} {pre cs : List Char} (rest : List Char)
    (h : ∀ c ∈ cs, isBlank c = true) :
    tokensFrom (.behind file pre (cs ++ rest)) = tokensFrom (.behind file (pre ++ cs) rest) := by
  -- both sides are the outcome behind all of the white space
  have hrun : ∀ pre ds, tokensFrom (.behind file pre ds) =
      tokensFrom (.behind file (pre ++ ds.takeWhile isBlank) (ds.dropWhile isBlank)) := by
    intro pre ds
    have hsplit := List.takeWhile_append_dropWhile (p := isBlank) (l := ds)
    cases ds with
    | nil => rw [List.takeWhile_nil, List.dropWhile_nil, List.append_nil]
    | cons d ds =>
      by_cases hd : isBlank d = true
      · have htakes : Takes ((d :: ds).takeWhile isBlank) ((d :: ds).dropWhile isBlank) none :=
          takes_of_scan (scan_of_isBlank hd ds)
        rw [← tokensFrom_behind_of_takes_none htakes, hsplit]
      · rw [List.takeWhile_cons_of_neg hd, List.dropWhile_cons_of_neg hd, List.append_nil]
  rw [hrun pre, hrun (pre ++ cs), List.takeWhile_append_of_pos h, List.dropWhile_append_of_pos h,
    List.append_assoc]

/-- A gap can be passed over: it has no tokens. -/
theorem tokensFrom_behind_gap {file : String} {pre s : List Char} (h : IsGap s)
    (rest : List Char) :
    tokensFrom (.behind file pre (s ++ rest)) = tokensFrom (.behind file (pre ++ s) rest) := by
  induction h generalizing pre with
  | nil => rw [List.append_nil, List.nil_append]
  | @blank c cs hc _ ih =>
    have hblank : tokensFrom (.behind file pre ([c] ++ (cs ++ rest))) =
        tokensFrom (.behind file (pre ++ [c]) (cs ++ rest)) :=
      tokensFrom_behind_blanks (cs ++ rest) (List.forall_mem_singleton.mpr hc)
    calc tokensFrom (.behind file pre (c :: cs ++ rest))
        = tokensFrom (.behind file (pre ++ [c]) (cs ++ rest)) := hblank
      _ = tokensFrom (.behind file (pre ++ [c] ++ cs) rest) := ih
      _ = tokensFrom (.behind file (pre ++ c :: cs) rest) := by
        rw [List.append_assoc, List.singleton_append]
  | @comment word cs hword _ ih =>
    calc tokensFrom (.behind file pre (word ++ cs ++ rest))
        = tokensFrom (.behind file pre (word ++ (cs ++ rest))) := by rw [List.append_assoc]
      _ = tokensFrom (.behind file (pre ++ word) (cs ++ rest)) :=
        tokensFrom_behind_of_takes_none (.comment hword)
      _ = tokensFrom (.behind file (pre ++ word ++ cs) rest) := ih
      _ = tokensFrom (.behind file (pre ++ (word ++ cs)) rest) := by rw [List.append_assoc]

/-- The lexemes of a source are taken in the same way when a gap follows it. -/
theorem Munched.tokensFrom_append {file : String} {source pre rest : List Char} {ts : List Token}
    (h : Munched file source pre rest ts) {g : List Char} (hg : Separates g) :
    tokensFrom (.behind file [] (source ++ g)) =
      (tokensFrom (.behind file pre (rest ++ g))).map (ts ++ ·) := by
  induction h with
  | start => cases tokensFrom (.behind file [] (source ++ g)) <;> rfl
  | @step pre word rest ts m h htakes ih =>
    have hstep : tokensFrom (.behind file pre (word ++ rest ++ g)) =
        (tokensFrom (.behind file (pre ++ word) (rest ++ g))).map
          (Token.mark file pre word m ++ ·) := by
      by_cases hblank : ∀ c ∈ word ++ rest, isBlank c = true
      · -- the white space at the end of the source is taken together with that of the gap
        obtain ⟨rfl, rfl⟩ := htakes.of_blank hblank
        rw [List.append_nil] at hblank ⊢
        rw [tokensFrom_behind_blanks g hblank, List.nil_append]
        cases tokensFrom (.behind file (pre ++ word) g) <;> rfl
      · rw [List.append_assoc]
        exact tokensFrom_behind_of_takes (htakes.extend hblank hg)
    rw [ih, hstep]
    cases tokensFrom (.behind file (pre ++ word) (rest ++ g)) with
    | error d => rfl
    | ok us => exact congrArg Except.ok (List.append_assoc ts _ us).symm

/-! ## Places further on -/

/-- The position `n` bytes further on. -/
def Position.shift (n : Nat) (p : Position) : Position := .ofByte (p.offset + n) p.file

/-- The token `n` bytes and `lines` lines further on. -/
def Token.shift (n lines : Nat) (t : Token) : Token :=
  { t with span := ⟨t.span.start.shift n, t.span.stop.shift n⟩, line := t.line + lines }

/-- The diagnostic `n` bytes further on. -/
def Diagnostic.shift (n : Nat) (d : Diagnostic) : Diagnostic :=
  { d with position := d.position.shift n }

/-- Below the limit of 32 bits, shifting is adding. -/
theorem Position.shift_eq {n : Nat} {p : Position} (h : p.offset + n < 4294967296) :
    p.shift n = ⟨p.offset + n, p.file⟩ := by
  rw [shift, ofByte, Nat.mod_eq_of_lt h]

/-- A position is counted from any text in front of it. -/
theorem positionBehind_append (file : String) (p q : List Char) :
    positionBehind file (p ++ q) = (positionBehind file q).shift (byteLength p) := by
  simp only [positionBehind, Position.shift, Position.ofByte, byteLength_append, Nat.mod_add_mod,
    Nat.add_comm (byteLength p)]

/-- A line is counted from any text in front of it. -/
theorem lineBehind_append (p q : List Char) :
    lineBehind (p ++ q) = lineBehind q + p.count '\n' := by
  simp only [lineBehind, List.count_append]
  omega

/-- The token of a lexeme lies behind any text in front of it. -/
theorem Token.mark_append (file : String) (p q word : List Char) (m : Option (Kind × String)) :
    Token.mark file (p ++ q) word m =
      (Token.mark file q word m).map (Token.shift (byteLength p) (p.count '\n')) := by
  cases m with
  | none => rfl
  | some k =>
    simp only [Token.mark, Token.shift, Option.toList_some, List.map_cons, List.map_nil,
      List.append_assoc, positionBehind_append file p, lineBehind_append p]

/-- The outcome with its places further on. -/
def shifted (n lines : Nat) : Except Diagnostic (List Token) → Except Diagnostic (List Token)
  | .ok ts => .ok (ts.map (Token.shift n lines))
  | .error d => .error (d.shift n)

/-- What stands in front of a place moves the outcome, and changes nothing else. -/
theorem tokensFrom_behind_append (file : String) (p q rest : List Char) :
    tokensFrom (.behind file (p ++ q) rest) =
      shifted (byteLength p) (p.count '\n') (tokensFrom (.behind file q rest)) := by
  by_cases hne : rest = []
  · subst hne
    rw [tokensFrom_behind_nil, tokensFrom_behind_nil]
    simp only [shifted, Token.endBehind, Token.endMarker, Token.shift, positionBehind_append,
      lineBehind_append, List.map_cons, List.map_nil]
  · cases hscan : scan rest with
    | error cause =>
      rw [tokensFrom_behind_of_error hne hscan, tokensFrom_behind_of_error hne hscan,
        positionBehind_append]
      rfl
    | ok l =>
      have hlt := scan_rest_length_lt hscan
      obtain ⟨rfl, htakes⟩ := scan_eq_ok_iff.mp hscan
      rw [tokensFrom_behind_of_takes htakes, tokensFrom_behind_of_takes htakes, List.append_assoc,
        tokensFrom_behind_append file p (q ++ l.spelling) l.rest, Token.mark_append]
      cases tokensFrom (.behind file (q ++ l.spelling) l.rest) with
      | error d => rfl
      | ok us => exact congrArg Except.ok List.map_append.symm
termination_by rest.length

/-! ## Sources with a gap between them -/

/-- A token that was taken is no end marker, and its places are in the source. -/
theorem Munched.within {file : String} {source pre rest : List Char} {ts : List Token}
    (h : Munched file source pre rest ts) :
    ∀ t ∈ ts, t.kind ≠ .eof ∧ t.span.start.offset ≤ byteLength source ∧
      t.span.stop.offset ≤ byteLength source := by
  induction h with
  | start => exact nofun
  | @step pre word rest ts m h htakes ih =>
    have hlength : byteLength (pre ++ word) ≤ byteLength source := by
      rw [← (h.step htakes).append_eq, byteLength_append _ rest]
      omega
    have hoffset : ∀ n, n % 4294967296 ≤ n := fun n => Nat.mod_le n _
    intro t ht
    rcases List.mem_append.mp ht with ht | ht
    · exact ih t ht
    · obtain ⟨⟨k, v⟩, hm, rfl⟩ := List.mem_map.mp ht
      obtain rfl := Option.mem_toList.mp hm
      have hkind := (htakes.isLexeme.spelledBy (t := ⟨k, v, ⟨positionBehind file pre,
        positionBehind file (pre ++ word)⟩, lineBehind pre⟩) rfl rfl).2.1
      refine ⟨hkind, (hoffset _).trans ?_, (hoffset _).trans hlength⟩
      rw [byteLength_append] at hlength
      omega

/-- Every place in an outcome is in the source. -/
theorem places_of_tokenize (source : String) (file? : Option String) :
    (∀ ts, tokenize source file? = .ok ts → ∀ t ∈ ts, ∀ p ∈ [t.span.start, t.span.stop],
      p.offset ≤ source.utf8ByteSize) ∧
    ∀ d, tokenize source file? = .error d → d.position.offset ≤ source.utf8ByteSize := by
  rw [← byteLength_toList]
  constructor
  · intro ts hts t ht p hp
    obtain ⟨us, hus, rfl⟩ := exists_munched_of_tokenize hts
    rcases List.mem_append.mp ht with ht | ht
    · obtain ⟨-, hstart, hstop⟩ := hus.within t ht
      rcases List.mem_pair.mp hp with rfl | rfl
      · exact hstart
      · exact hstop
    · obtain rfl := List.mem_singleton.mp ht
      rcases List.mem_pair.mp hp with rfl | rfl
      · exact Nat.mod_le _ _
      · exact Nat.mod_le _ _
  · intro d hd
    obtain ⟨pre, rest, us, cause, hus, -, rfl⟩ := exists_stuck_of_tokenize hd
    refine (Nat.mod_le _ _).trans ?_
    rw [← hus.append_eq, byteLength_append]
    omega

/-- Behind a source that has tokens and a gap that is not empty, every text is scanned as if it
    were a source of its own: its tokens follow those of the first source, or its error is the
    error of the whole, at places that are further on by the bytes and lines in front of it.  In
    a source of less than `2 ^ 32` bytes these places do not wrap around, and with less than
    `2 ^ 32 - 1` newlines the lines are words of 32 bits. -/
theorem tokenize_separated {a s : String} {file? : Option String} {ts : List Token}
    (ha : tokenize a file? = .ok ts) (hs : IsGap s.toList) (hne : s ≠ "") (b : String) :
    ∃ us e, ts = us ++ [e] ∧ e.kind = .eof ∧ (∀ t ∈ us, t.kind ≠ .eof) ∧
      (∀ vs, tokenize b file? = .ok vs → tokenize (a ++ s ++ b) file? =
        .ok (us ++ vs.map (Token.shift (a ++ s).utf8ByteSize ((a ++ s).toList.count '\n')))) ∧
      (∀ d, tokenize b file? = .error d →
        tokenize (a ++ s ++ b) file? = .error (d.shift (a ++ s).utf8ByteSize)) ∧
      ((a ++ s ++ b).utf8ByteSize < 4294967296 →
        (∀ vs, tokenize b file? = .ok vs → ∀ t ∈ vs, ∀ p ∈ [t.span.start, t.span.stop],
          p.shift (a ++ s).utf8ByteSize = ⟨p.offset + (a ++ s).utf8ByteSize, p.file⟩) ∧
        ∀ d, tokenize b file? = .error d → d.position.shift (a ++ s).utf8ByteSize =
          ⟨d.position.offset + (a ++ s).utf8ByteSize, d.position.file⟩) ∧
      ((a ++ s ++ b).toList.count '\n' < 4294967295 → ∀ vs, tokenize b file? = .ok vs →
        ∀ t ∈ vs, t.line + (a ++ s).toList.count '\n' < 4294967296) := by
  obtain ⟨us, hus, rfl⟩ := exists_munched_of_tokenize ha
  have hgap : s.toList ≠ [] := fun h => hne (String.toList_eq_nil_iff.mp h)
  -- one equation for tokens and errors alike: the tokens of `a`, and behind them what `b` gives,
  -- shifted
  have hwhole : tokenize (a ++ s ++ b) file? =
      (shifted (a ++ s).utf8ByteSize ((a ++ s).toList.count '\n') (tokenize b file?)).map
        (us ++ ·) := by
    have hsource : (a ++ s ++ b).toList = a.toList ++ (s.toList ++ b.toList) := by
      rw [String.toList_append, String.toList_append, List.append_assoc]
    have hshift := tokensFrom_behind_append (file?.getD "stdin") (a ++ s).toList [] b.toList
    rw [List.append_nil, byteLength_toList] at hshift
    calc tokenize (a ++ s ++ b) file?
        = tokensFrom (.behind (file?.getD "stdin") [] (a.toList ++ (s.toList ++ b.toList))) := by
          rw [tokenize, Cursor.start, hsource]
          rfl
      _ = (tokensFrom (.behind (file?.getD "stdin") a.toList (s.toList ++ b.toList))).map
            (us ++ ·) := hus.tokensFrom_append (hs.separates hgap b.toList)
      _ = (tokensFrom (.behind (file?.getD "stdin") (a ++ s).toList b.toList)).map (us ++ ·) := by
          rw [tokensFrom_behind_gap hs, String.toList_append]
      _ = _ := by
          rw [hshift]
          rfl
  refine ⟨us, _, rfl, rfl, fun t ht => (hus.within t ht).1, ?_, ?_, ?_, ?_⟩
  · intro vs hvs
    rw [hwhole, hvs]
    rfl
  · intro d hd
    rw [hwhole, hd]
    rfl
  · intro hlt
    obtain ⟨htokens, herror⟩ := places_of_tokenize b file?
    rw [String.utf8ByteSize_append] at hlt
    constructor
    · intro vs hvs t ht p hp
      have hp := htokens vs hvs t ht p hp
      exact Position.shift_eq (by omega)
    · intro d hd
      have hd := herror d hd
      exact Position.shift_eq (by omega)
  · -- `b` has a line for each of its newlines at most, and the text has those of `a` and `s`
    -- besides
    intro hcount vs hvs t ht
    have hline := line_le_of_tokenize hvs t ht
    rw [String.toList_append, List.count_append] at hcount
    omega

/-- A comment keeps the `|` in front of it and the `|` behind it from being one `||`, and its
    `/` from being taken for a slash. -/
theorem tokenize_separated_pipes :
    tokenize "x|" none = .ok
      [⟨.identifier, "x", ⟨⟨0, "stdin"⟩, ⟨1, "stdin"⟩⟩, 1⟩,
       ⟨.pipe, "|", ⟨⟨1, "stdin"⟩, ⟨2, "stdin"⟩⟩, 1⟩,
       ⟨.eof, "EOF", ⟨⟨2, "stdin"⟩, ⟨2, "stdin"⟩⟩, 1⟩] ∧
    IsGap "/%\n%/".toList ∧ "/%\n%/" ≠ "" ∧
    tokenize ("x|" ++ "/%\n%/" ++ "|y") none = .ok
      [⟨.identifier, "x", ⟨⟨0, "stdin"⟩, ⟨1, "stdin"⟩⟩, 1⟩,
       ⟨.pipe, "|", ⟨⟨1, "stdin"⟩, ⟨2, "stdin"⟩⟩, 1⟩,
       ⟨.pipe, "|", ⟨⟨7, "stdin"⟩, ⟨8, "stdin"⟩⟩, 2⟩,
       ⟨.identifier, "y", ⟨⟨8, "stdin"⟩, ⟨9, "stdin"⟩⟩, 2⟩,
       ⟨.eof, "EOF", ⟨⟨9, "stdin"⟩, ⟨9, "stdin"⟩⟩, 2⟩] := by
  have ha : tokenize "x|" none = .ok
      [⟨.identifier, "x", ⟨⟨0, "stdin"⟩, ⟨1, "stdin"⟩⟩, 1⟩,
       ⟨.pipe, "|", ⟨⟨1, "stdin"⟩, ⟨2, "stdin"⟩⟩, 1⟩,
       ⟨.eof, "EOF", ⟨⟨2, "stdin"⟩, ⟨2, "stdin"⟩⟩, 1⟩] := by decide +kernel
  have hb : tokenize "|y" none = .ok
      [⟨.pipe, "|", ⟨⟨0, "stdin"⟩, ⟨1, "stdin"⟩⟩, 1⟩,
       ⟨.identifier, "y", ⟨⟨1, "stdin"⟩, ⟨2, "stdin"⟩⟩, 1⟩,
       ⟨.eof, "EOF", ⟨⟨2, "stdin"⟩, ⟨2, "stdin"⟩⟩, 1⟩] := by decide +kernel
  have hcomment : IsComment ('/' :: '%' :: (['\n'] ++ ['%', '/'])) :=
    .mk (fun h => absurd h.length_le (by decide))
  have hs : IsGap "/%\n%/".toList := .comment hcomment .nil
  have hne : "/%\n%/" ≠ "" := by decide
  obtain ⟨us, e, hts, -, -, hok, -⟩ := tokenize_separated ha hs hne "|y"
  refine ⟨ha, hs, hne, ?_⟩
  rw [hok _ hb]
  have hsplit : us ++ [e] = [_, _] ++ [_] := hts.symm
  obtain ⟨rfl, -⟩ := List.append_inj' hsplit rfl
  decide +kernel

end ProcLang
