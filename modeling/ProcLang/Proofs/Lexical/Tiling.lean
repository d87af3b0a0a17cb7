/-
  Tokens tile their source.

  `Tiled file pre ts`: the text `pre` is put together, piece by piece, from white space, whole
  comments and the spellings of the tokens `ts`, in this order, and every token knows the bytes
  that its piece covers and the line on which it starts.  As the pieces are characters, no piece
  ends inside of one; as they follow each other, no two tokens overlap.

  The pieces are the lexemes that were taken off the source (`Munched.tiled`), so all of a source
  that has tokens is tiled by them, up to the end marker (`tokenize_tiles`).
-/
import ProcLang.Proofs.Lexical.Munch

namespace ProcLang

open Lexeme ProcLang.Text

/-! ## Spans and spellings -/

/-- The token lies on the characters `word` behind the first part `pre` of `file`. -/
structure Token.Covers (t : Token) (file : String) (pre word : List Char) : Prop where
  start : t.span.start = ⟨byteLength pre, file⟩
  stop : t.span.stop = ⟨byteLength pre + byteLength word, file⟩
  line : t.line = 1 + pre.count '\n'

/-- The characters `word` are what the token looks like in a source. -/
inductive Token.SpelledBy (t : Token) : List Char → Prop
  | string (hk : t.kind = .stringLiteral) : SpelledBy t ('"' :: (t.value.toList ++ ['"']))
  | char {c : Char} {word : List Char} (hk : t.kind = .charLiteral)
      (hv : t.value = String.singleton c) (hword : IsQuoted c word) : SpelledBy t word
  | verbatim (hs : t.kind ≠ .stringLiteral) (hc : t.kind ≠ .charLiteral) :
      SpelledBy t t.value.toList

/-- The text is made of white space, whole comments and the tokens. -/
inductive Tiled (file : String) : List Char → List Token → Prop
  | nil : Tiled file [] []
  | blank {pre word : List Char} {ts : List Token} (h : Tiled file pre ts)
      (hblank : ∀ c ∈ word, isBlank c = true) : Tiled file (pre ++ word) ts
  | comment {pre word : List Char} {ts : List Token} (h : Tiled file pre ts)
      (hcomment : IsComment word) : Tiled file (pre ++ word) ts
  | token {pre word : List Char} {ts : List Token} {t : Token} (h : Tiled file pre ts)
      (hne : word ≠ []) (hkind : t.kind ≠ .eof) (hspelled : t.SpelledBy word)
      (hcovers : t.Covers file pre word) : Tiled file (pre ++ word) (ts ++ [t])

/-! ## Lexemes are pieces -/

/-- A lexeme that means a token is not empty, and spells it. -/
theorem Lexeme.IsLexeme.spelledBy {word : List Char} {k : Kind} {v : String}
    (h : IsLexeme word (some (k, v))) {t : Token} (hkind : t.kind = k) (hvalue : t.value = v) :
    word ≠ [] ∧ t.kind ≠ .eof ∧ t.SpelledBy word := by
  -- a token whose value is its spelling
  have hverbatim : ∀ {k : Kind}, t.kind = k → t.value = String.ofList word →
      (k ≠ .eof ∧ k ≠ .stringLiteral ∧ k ≠ .charLiteral) →
      t.kind ≠ .eof ∧ t.SpelledBy word := by
    rintro k rfl hvalue ⟨heof, hs, hc⟩
    have hspelled := Token.SpelledBy.verbatim hs hc
    rw [hvalue, String.toList_ofList] at hspelled
    exact ⟨heof, hspelled⟩
  cases h with
  | reserved h hk =>
    have hall : ∀ p ∈ ProcLang.reserved, p.2 ≠ .eof ∧ p.2 ≠ .stringLiteral ∧
        p.2 ≠ .charLiteral := by decide
    obtain ⟨d, ds, rfl, -, -⟩ := h
    exact ⟨List.cons_ne_nil d ds, hverbatim hkind hvalue (hall _ hk)⟩
  | identifier h _ =>
    obtain ⟨d, ds, rfl, -, -⟩ := h
    exact ⟨List.cons_ne_nil d ds, hverbatim hkind hvalue (by decide)⟩
  | decimal hne _ => exact ⟨hne, hverbatim hkind hvalue (by decide)⟩
  | hexadecimal _ _ _ => exact ⟨List.cons_ne_nil _ _, hverbatim hkind hvalue (by decide)⟩
  | char h =>
    refine ⟨?_, by rw [hkind]; decide, .char hkind hvalue h⟩
    cases h <;> exact List.cons_ne_nil _ _
  | string _ =>
    have hspelled := Token.SpelledBy.string hkind
    rw [hvalue, String.toList_ofList] at hspelled
    exact ⟨List.cons_ne_nil _ _, by rw [hkind]; decide, hspelled⟩
  | operator h =>
    have hall : ∀ o ∈ operators, o.2 ≠ .eof ∧ o.2 ≠ .stringLiteral ∧ o.2 ≠ .charLiteral := by
      decide
    obtain ⟨c, cs, hcons, -⟩ := operator_shape h
    refine ⟨by rw [hcons]; exact List.cons_ne_nil c cs, hverbatim hkind ?_ (hall _ h)⟩
    rw [String.ofList_toList]
    exact hvalue

/-- A lexeme that means no token is white space or a comment. -/
theorem Lexeme.Takes.gap {word rest : List Char} (h : Takes word rest none) :
    (∀ c ∈ word, isBlank c = true) ∨ IsComment word := by
  cases h with
  | comment h => exact Or.inr h
  | longest _ h _ =>
    cases h with
    | blank _ h => exact Or.inl h

/-- What is taken and means a token is a lexeme for that token. -/
theorem Lexeme.Takes.isLexeme {word rest : List Char} {p : Kind × String}
    (h : Takes word rest (some p)) : IsLexeme word (some p) := by
  cases h with
  | longest _ h _ => exact h

/-- A token that was taken off a source is a lexeme. -/
theorem Munched.exists_isLexeme {file : String} {source pre rest : List Char} {ts : List Token}
    (h : Munched file source pre rest ts) {t : Token} (ht : t ∈ ts) :
    ∃ word, IsLexeme word (some (t.kind, t.value)) := by
  induction h with
  | start => cases ht
  | @step _ word _ _ _ _ htakes ih =>
    rcases List.mem_append.mp ht with ht | ht
    · exact ih ht
    · obtain ⟨⟨k, v⟩, hm, rfl⟩ := List.mem_map.mp ht
      obtain rfl := Option.mem_toList.mp hm
      exact ⟨word, htakes.isLexeme⟩

/-- The tokens of a source are lexemes, but for the end marker. -/
theorem exists_isLexeme_of_tokenize {source : String} {file? : Option String} {ts : List Token}
    (h : tokenize source file? = .ok ts) {t : Token} (ht : t ∈ ts) (hk : t.kind ≠ .eof) :
    ∃ word, IsLexeme word (some (t.kind, t.value)) := by
  obtain ⟨us, hus, rfl⟩ := exists_munched_of_tokenize h
  rcases List.mem_append.mp ht with ht | ht
  · exact hus.exists_isLexeme ht
  · obtain rfl := List.mem_singleton.mp ht
    exact absurd rfl hk

/-! ## The source up to a boundary -/

/-- Positions of a short source do not wrap around. -/
theorem positionBehind_eq {file : String} {pre : List Char} (h : byteLength pre < 4294967296) :
    positionBehind file pre = ⟨byteLength pre, file⟩ := by
  rw [positionBehind, Position.ofByte, Nat.mod_eq_of_lt h]

/-- The part of a source that is cut into lexemes is tiled by their tokens. -/
theorem Munched.tiled {file : String} {source pre rest : List Char} {ts : List Token}
    (h : Munched file source pre rest ts) (hlt : byteLength source < 4294967296) :
    Tiled file pre ts := by
  -- white space and comments make a gap wider, any other lexeme is a piece
  induction h with
  | start => exact .nil
  | @step pre word rest ts m h htakes ih =>
    cases m with
    | none =>
      rw [Token.mark, Option.toList_none, List.map_nil, List.append_nil]
      rcases htakes.gap with hblank | hcomment
      · exact .blank ih hblank
      · exact .comment ih hcomment
    | some p =>
      obtain ⟨hne, hkind, hspelled⟩ := htakes.isLexeme.spelledBy
        (t := ⟨p.1, p.2, ⟨positionBehind file pre, positionBehind file (pre ++ word)⟩,
          lineBehind pre⟩) rfl rfl
      have hlength : byteLength pre + byteLength word ≤ byteLength source := by
        rw [← (h.step htakes).append_eq]
        simp
      refine .token ih hne hkind hspelled ⟨?_, ?_, rfl⟩
      · exact positionBehind_eq (by omega)
      · rw [← byteLength_append]
        exact positionBehind_eq (by rw [byteLength_append]; omega)

/-! ## All of the source -/

/-- Tokens that tile a text lie in it one behind the other. -/
theorem Tiled.ordered {file : String} {pre : List Char} {ts : List Token}
    (h : Tiled file pre ts) :
    ts.Pairwise (fun t u => t.span.stop.offset ≤ u.span.start.offset) ∧
      ∀ t ∈ ts, t.span.stop.offset ≤ byteLength pre := by
  induction h with
  | nil => exact ⟨.nil, nofun⟩
  | blank _ _ ih | comment _ _ ih =>
    refine ⟨ih.1, fun t ht => (ih.2 t ht).trans ?_⟩
    rw [byteLength_append]
    exact Nat.le_add_right _ _
  | @token pre word ts u _ _ _ _ hcovers ih =>
    obtain ⟨hstart, hstop, -⟩ := hcovers
    constructor
    · refine List.pairwise_append.mpr ⟨ih.1, List.pairwise_singleton _ _, ?_⟩
      rintro t ht _ (_ | ⟨_, ⟨⟩⟩)
      rw [hstart]
      exact ih.2 t ht
    · intro t ht
      rw [byteLength_append]
      rcases List.mem_append.mp ht with ht | ht
      · exact (ih.2 t ht).trans (Nat.le_add_right _ _)
      · rw [List.mem_singleton.mp ht, hstop]

/-- A token that was taken off a source starts on one of its lines. -/
theorem Munched.line_le {file : String} {source pre rest : List Char} {ts : List Token}
    (h : Munched file source pre rest ts) : ∀ t ∈ ts, t.line ≤ 1 + source.count '\n' := by
  induction h with
  | start => exact nofun
  | @step pre word rest ts m h htakes ih =>
    intro t ht
    rcases List.mem_append.mp ht with ht | ht
    · exact ih t ht
    · obtain ⟨p, -, rfl⟩ := List.mem_map.mp ht
      show 1 + pre.count '\n' ≤ 1 + source.count '\n'
      rw [← h.append_eq, List.count_append]
      omega

/-- Lines of tokens, the end marker included, are at most one more than there are newlines. -/
theorem line_le_of_tokenize {source : String} {file? : Option String} {ts : List Token}
    (h : tokenize source file? = .ok ts) : ∀ t ∈ ts, t.line ≤ 1 + source.toList.count '\n' := by
  obtain ⟨us, hus, rfl⟩ := exists_munched_of_tokenize h
  intro t ht
  rcases List.mem_append.mp ht with ht | ht
  · exact hus.line_le t ht
  · obtain rfl := List.mem_singleton.mp ht
    exact Nat.le_refl _

/-- The tokens of a source of less than `2 ^ 32` bytes tile it, one behind the other, and an end
    marker stands behind all of it.  Their lines are words of 32 bits, unless the source has
    `2 ^ 32 - 1` newlines and nothing else. -/
theorem tokenize_tiles {source : String} {file? : Option String} {ts : List Token}
    (hlt : source.utf8ByteSize < 4294967296) (h : tokenize source file? = .ok ts) :
    ∃ us t, ts = us ++ [t] ∧ Tiled (file?.getD "stdin") source.toList us ∧
      us.Pairwise (fun t u => t.span.stop.offset ≤ u.span.start.offset) ∧
      t.kind = .eof ∧ t.Covers (file?.getD "stdin") source.toList [] ∧
      (source.toList.count '\n' < 4294967295 → ∀ t ∈ ts, t.line < 4294967296) := by
  have hlines := line_le_of_tokenize h
  obtain ⟨us, hus, rfl⟩ := exists_munched_of_tokenize h
  have hshort : byteLength source.toList < 4294967296 := by
    rw [byteLength_toList]
    exact hlt
  have htiled := hus.tiled hshort
  refine ⟨us, _, rfl, htiled, htiled.ordered.1, rfl, ⟨?_, ?_, rfl⟩, fun hcount t ht => ?_⟩
  · exact positionBehind_eq hshort
  · exact positionBehind_eq hshort
  · have hline := hlines t ht
    omega

/-- A word, a comment with a character of two bytes, and a literal on the line behind it. -/
def tiledSource : String := "if /%é%/\n\x27\x5cn\x27"

/-- The tokens of the sample.  The literal means a newline, which its spelling does not have. -/
def tiledTokens : List Token :=
  [⟨.if, "if", ⟨⟨0, "stdin"⟩, ⟨2, "stdin"⟩⟩, 1⟩,
   ⟨.charLiteral, "\n", ⟨⟨10, "stdin"⟩, ⟨14, "stdin"⟩⟩, 2⟩,
   ⟨.eof, "EOF", ⟨⟨14, "stdin"⟩, ⟨14, "stdin"⟩⟩, 2⟩]

/-- The tokens of the sample tile it. -/
theorem tokenize_tiles_sample :
    tiledSource.utf8ByteSize < 4294967296 ∧ tokenize tiledSource none = .ok tiledTokens ∧
    ∃ us t, tiledTokens = us ++ [t] ∧
      Tiled ((none : Option String).getD "stdin") tiledSource.toList us ∧
      us.Pairwise (fun t u => t.span.stop.offset ≤ u.span.start.offset) ∧
      t.kind = .eof ∧ t.Covers ((none : Option String).getD "stdin") tiledSource.toList [] ∧
      (tiledSource.toList.count '\n' < 4294967295 → ∀ t ∈ tiledTokens, t.line < 4294967296) := by
  have hlt : tiledSource.utf8ByteSize < 4294967296 := by decide
  have htokens : tokenize tiledSource none = .ok tiledTokens := by decide +kernel
  exact ⟨hlt, htokens, tokenize_tiles hlt htokens⟩

end ProcLang
