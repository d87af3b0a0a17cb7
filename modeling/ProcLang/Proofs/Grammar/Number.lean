/-
  Numbers, from their spelling to what the grammar reads.

  A numeral alone is one number token (`tokenize_spelled`), and the scanner makes no number tokens
  but from numerals (`exists_spelled_of_tokenize`).  The grammar reads number tokens at two places:

  * `expression_spelled`    — an expression takes a number as what it is worth, up to `2 ^ 63`,
                              and does not pass one that is worth more;
  * `declaredType_spelled`  — the size of a string type is what the number is worth, up to
                              `2 ^ 32`, and only in base ten.

  So the two readers agree on decimal numerals, up to their limits, and on no others: a size is
  refused when it is hexadecimal (`declaredType_hexadecimal`).
-/
import ProcLang.Proofs.Grammar.Level
import ProcLang.Proofs.Lexical.Tiling
import ProcLang.Proofs.Text.PlaceValue

namespace ProcLang

open Lexeme ProcLang.Text

/-! ## Digits of the scanner -/

/-- A decimal digit is one that is worth less than ten. -/
theorem isDigit_eq_true_iff {c : Char} : c.isDigit = true ↔ digitWorth c < 10 := by
  -- digits are ASCII characters, of which there are few
  have hall : ∀ n < 128, (Char.ofNat n).isDigit = true ↔ digitWorth (Char.ofNat n) < 10 := by
    decide +kernel
  have hiff : c.toNat < 128 → (c.isDigit = true ↔ digitWorth c < 10) := by
    intro hc
    have h := hall c.toNat hc
    rwa [Char.ofNat_toNat] at h
  constructor
  · intro h
    exact (hiff (toNat_lt_of_isWordPart (isWordPart_of_isDigit h))).mp h
  · intro h
    exact (hiff (toNat_lt_of_digitWorth (Nat.lt_trans h (by decide)))).mpr h

/-- A hexadecimal digit is one that is worth less than sixteen. -/
theorem isHexDigit_eq_true_iff {c : Char} : isHexDigit c = true ↔ digitWorth c < 16 := by
  rw [isHexDigit, Option.isSome_iff_exists]
  constructor
  · rintro ⟨d, hd⟩
    obtain ⟨rfl, hlt⟩ := (isDigit_iff (by decide)).mp ((digitValue?_eq_some_iff (by decide)).mp hd)
    exact hlt
  · intro h
    exact ⟨_, (digitValue?_eq_some_iff (by decide)).mpr ((isDigit_iff (by decide)).mpr ⟨rfl, h⟩)⟩

/-! ## Numerals and number tokens -/

/-- A numeral is a lexeme, and means a number with the same text. -/
theorem Text.Spelled.isLexeme {text : String} {b : Nat} {ds : List Char} (h : Spelled text b ds) :
    IsLexeme text.toList (some (.number, text)) := by
  have hvalue : text = String.ofList text.toList := String.ofList_toList.symm
  rcases h.mark with ⟨rfl, htext⟩ | ⟨rfl, htext⟩
  · have hdecimal := IsLexeme.decimal h.ne_nil fun c hc => isDigit_eq_true_iff.mpr (h.digits c hc)
    rwa [← htext, ← hvalue] at hdecimal
  · have hhex : ∀ x, x = 'x' ∨ x = 'X' → text.toList = '0' :: x :: ds →
        IsLexeme text.toList (some (.number, text)) := by
      intro x hx htext
      have h := IsLexeme.hexadecimal hx h.ne_nil
        fun c hc => isHexDigit_eq_true_iff.mpr (h.digits c hc)
      rwa [← htext, ← hvalue] at h
    rcases htext with htext | htext
    · exact hhex 'x' (Or.inl rfl) htext
    · exact hhex 'X' (Or.inr rfl) htext

/-- No numeral begins a comment. -/
theorem Text.Spelled.not_startsComment {text : String} {b : Nat} {ds : List Char}
    (h : Spelled text b ds) : ¬ StartsComment text.toList := by
  rcases h.mark with ⟨rfl, htext⟩ | ⟨-, htext | htext⟩
  · obtain ⟨c, cs, rfl⟩ := List.exists_cons_of_ne_nil h.ne_nil
    have hc : digitWorth c < 10 := h.digits c List.mem_cons_self
    rw [htext]
    refine not_startsComment_of_ne ?_ cs
    rintro rfl
    exact absurd hc (by decide)
  · rw [htext]
    exact not_startsComment_of_ne (by decide) _
  · rw [htext]
    exact not_startsComment_of_ne (by decide) _

/-- A numeral is taken as a whole: it is one token, and the end marker follows. -/
theorem tokenize_spelled {text : String} {b : Nat} {ds : List Char} (h : Spelled text b ds)
    (file? : Option String) :
    ∃ t e : Token, tokenize text file? = .ok [t, e] ∧ t.kind = .number ∧ t.value = text ∧
      t.span.start = ⟨0, file?.getD "stdin"⟩ ∧ t.line = 1 ∧ e.kind = .eof := by
  have htakes : Takes text.toList [] (some (.number, text)) := by
    refine .longest ?_ h.isLexeme fun word' m' _ hpre => ?_
    · rw [List.append_nil]
      exact h.not_startsComment
    · rw [List.append_nil] at hpre
      exact hpre.length_le
  have hall : Munched (file?.getD "stdin") (text.toList ++ []) ([] ++ text.toList) []
      ([] ++ Token.mark (file?.getD "stdin") [] text.toList (some (.number, text))) :=
    Munched.start.step htakes
  rw [List.append_nil, List.nil_append, List.nil_append] at hall
  exact ⟨_, _, hall.tokens_eq, rfl, rfl, rfl, rfl, rfl⟩

/-- A lexeme that means a number is a numeral. -/
theorem Lexeme.IsLexeme.spelled {word : List Char} {v : String}
    (h : IsLexeme word (some (.number, v))) : ∃ b ds, Spelled v b ds := by
  -- no word and no operator is a number
  have hreserved : ∀ p ∈ ProcLang.reserved, p.2 ≠ .number := by decide
  have hoperator : ∀ p ∈ operators, p.2 ≠ .number := by decide
  generalize hm : some (Kind.number, v) = m at h
  cases h with
  | decimal hne hdigits =>
    obtain ⟨-, rfl⟩ := Prod.mk.inj (Option.some.inj hm)
    exact ⟨10, word, Or.inl ⟨rfl, String.toList_ofList⟩, hne,
      fun c hc => isDigit_eq_true_iff.mp (hdigits c hc)⟩
  | @hexadecimal x ds hx hne hdigits =>
    obtain ⟨-, rfl⟩ := Prod.mk.inj (Option.some.inj hm)
    refine ⟨16, ds, Or.inr ⟨rfl, ?_⟩, hne, fun c hc => isHexDigit_eq_true_iff.mp (hdigits c hc)⟩
    rw [String.toList_ofList]
    rcases hx with rfl | rfl
    · exact Or.inl rfl
    · exact Or.inr rfl
  | reserved _ hk =>
    obtain ⟨rfl, -⟩ := Prod.mk.inj (Option.some.inj hm)
    exact absurd rfl (hreserved _ hk)
  | operator hk =>
    obtain ⟨rfl, -⟩ := Prod.mk.inj (Option.some.inj hm)
    exact absurd rfl (hoperator _ hk)
  | blank | identifier | char | string => cases hm

/-- Every number of a source is spelled by a numeral. -/
theorem exists_spelled_of_tokenize {source : String} {file? : Option String} {ts : List Token}
    (h : tokenize source file? = .ok ts) {t : Token} (ht : t ∈ ts) (hk : t.kind = .number) :
    ∃ b ds, Spelled t.value b ds := by
  obtain ⟨word, hword⟩ := exists_isLexeme_of_tokenize h ht (by rw [hk]; decide)
  rw [hk] at hword
  exact hword.spelled

namespace Grammar

open Parse ProcLang.Stream

/-! ## Numbers as literals -/

/-- Wherever an expression starts with the number `t`, its first operand is the literal `n`, when
    that fits into 64 signed bits; otherwise the number is blamed, and it is not passed. -/
def ReadsLiteral (t : Token) (n : Nat) : Prop :=
  ∀ (s : Stream) (p : Power), s.current = t →
    expression .standard p s =
      if n < 2 ^ 63 then
        operators (expression .standard) .standard p (.integer (.bare t.line) n) s.advance
      else .error ⟨.badNumber t.value, t.span.start⟩ s

/-- An expression takes a number token as what it is worth, if that fits. -/
theorem readsLiteral_of_spelled {t : Token} {b : Nat} {ds : List Char} (hk : t.kind = .number)
    (h : Spelled t.value b ds) : ReadsLiteral t (worth b ds) := by
  rintro s p rfl
  have hnumber : start (expression .standard) .primary s = numberLiteral s.current s := by
    rw [start, primary, bind_apply current_run, if_pos hk]
  rw [expression_eq exprStart?_eof, expressionWith, bind_apply current_run, hk]
  show (start (expression .standard) .primary >>= _) s = _
  by_cases hn : worth b ds < 2 ^ 63
  · have hread : start (expression .standard) .primary s =
        .ok (.integer (.bare s.current.line) (worth b ds)) s.advance := by
      rw [hnumber, numberLiteral, h.integerLiteral?_eq, if_pos hn]
      rfl
    rw [bind_apply hread, if_pos hn]
  · have hread : start (expression .standard) .primary s =
        .error ⟨.badNumber s.current.value, s.current.span.start⟩ s := by
      rw [hnumber, numberLiteral, h.integerLiteral?_eq, if_neg hn]
      rfl
    rw [if_neg hn]
    exact bind_error hread

/-- **Integer literals are exact.**  A numeral, decimal or hexadecimal, of any length, is scanned
    as one number.  As an expression it is the literal that it is worth, when that lies below
    `2 ^ 63`; otherwise the number is blamed at its start, and it is not passed.  So it goes for
    the numeral alone, and at the start of every longer expression. -/
theorem expression_spelled {text : String} {b : Nat} {ds : List Char} (h : Spelled text b ds)
    (file? : Option String) :
    ∃ t e : Token, tokenize text file? = .ok [t, e] ∧ t.kind = .number ∧ t.value = text ∧
      t.span.start = ⟨0, file?.getD "stdin"⟩ ∧ e.kind = .eof ∧
      (∀ (file : String) (p : Power),
        let s := ofTokens file [t, e]
        s.current = t ∧ s.advance.current = e ∧
        expression .standard p s =
          if worth b ds < 2 ^ 63 then .ok (.integer (.bare 1) (worth b ds)) s.advance
          else .error ⟨.badNumber text, ⟨0, file?.getD "stdin"⟩⟩ s) ∧
      ReadsLiteral t (worth b ds) := by
  obtain ⟨t, e, htokens, hk, hvalue, hstart, hline, he⟩ := tokenize_spelled h file?
  have hread : ReadsLiteral t (worth b ds) := readsLiteral_of_spelled hk (hvalue ▸ h)
  refine ⟨t, e, htokens, hk, hvalue, hstart, he, fun file p => ?_, hread⟩
  have hs : ofTokens file [t, e] = ⟨file, t, [e], he⟩ := by
    rw [ofTokens, dif_pos (show ([e].getLastD t).kind = .eof from he)]
  -- no operator follows
  have hnone : tighter? .standard p e = none := by
    rw [tighter?, he]
    rfl
  rw [hs]
  refine ⟨rfl, rfl, ?_⟩
  rw [hread _ p rfl, hline, hvalue, hstart, operators_of_none progresses_expression hnone]

/-- The largest literal, with a zero in front and digits in both cases. -/
theorem expression_spelled_largest :
    Spelled "0X07fffFFFFffffFFFF" 16 "07fffFFFFffffFFFF".toList ∧
    ∃ t e : Token, tokenize "0X07fffFFFFffffFFFF" none = .ok [t, e] ∧
      ∀ p, expression .standard p (ofTokens "f" [t, e]) =
        .ok (.integer (.bare 1) 9223372036854775807) (ofTokens "f" [t, e]).advance := by
  have h : Spelled "0X07fffFFFFffffFFFF" 16 "07fffFFFFffffFFFF".toList :=
    .of_all (Or.inr ⟨rfl, Or.inr (by decide)⟩) (by decide) (by decide)
  have hworth : worth 16 "07fffFFFFffffFFFF".toList = 9223372036854775807 := by decide
  obtain ⟨t, e, htokens, -, -, -, -, hread, -⟩ := expression_spelled h none
  refine ⟨h, t, e, htokens, fun p => ?_⟩
  rw [(hread "f" p).2.2, hworth]
  rfl

/-! ## Numbers as sizes -/

/-- In brackets behind the word of a string type, the number `t` is the size `size?`; if this is
    none, then the number is blamed, behind which the reader stops. -/
def ReadsSize (t : Token) (size? : Option Nat) : Prop :=
  ∀ (s u : Stream) (word left right : Token), word.kind = .string → left.kind = .openBracket →
    right.kind = .closeBracket → s.Passes [word, left, t, right] u →
    declaredType s =
      match size? with
      | some n => .ok ⟨.string n, .bare word.line⟩ u
      | none => .error ⟨.badNumber t.value, t.span.start⟩ s.advance.advance.advance

/-- The size of a string type takes a number token in base ten as what it is worth, if that fits. -/
theorem readsSize_of_spelled {t : Token} {b : Nat} {ds : List Char} (hk : t.kind = .number)
    (h : Spelled t.value b ds) :
    ReadsSize t (if b = 10 ∧ worth b ds < 2 ^ 32 then some (worth b ds) else none) := by
  intro s u word left right hword hleft hright hpass
  obtain ⟨rfl, -, rfl, -, rfl, -, rfl, -, rfl⟩ := hpass
  have hplain : plainType? s.current.kind = none := by
    rw [hword]
    rfl
  rw [declaredType, bind_apply current_run, hplain]
  dsimp only
  rw [if_pos hword, stringType, bind_apply (advance_run rfl),
    bind_apply (expect_run ⟨_, hleft⟩ rfl), bind_apply (expect_run ⟨_, hk⟩ rfl), h.arraySize?_eq]
  cases (if b = 10 ∧ worth b ds < 2 ^ 32 then some (worth b ds) else none) with
  | some n => exact bind_apply (expect_run ⟨_, hright⟩ rfl)
  | none => rfl

/-- **Numbers as literals and as sizes.**  A number of a source is spelled by digits in some base.
    As an expression it is what it is worth, below `2 ^ 63`, whatever the base.  As the size of a
    string type it is the same, below `2 ^ 32`, when the base is ten; a hexadecimal number, and a
    decimal one that is worth more, is blamed. -/
theorem declaredType_spelled {source : String} {file? : Option String} {ts : List Token}
    (h : tokenize source file? = .ok ts) {t : Token} (ht : t ∈ ts) (hk : t.kind = .number) :
    ∃ b ds, Spelled t.value b ds ∧ ReadsLiteral t (worth b ds) ∧
      ReadsSize t (if b = 10 ∧ worth b ds < 2 ^ 32 then some (worth b ds) else none) := by
  obtain ⟨b, ds, hs⟩ := exists_spelled_of_tokenize h ht hk
  exact ⟨b, ds, hs, readsLiteral_of_spelled hk hs, readsSize_of_spelled hk hs⟩

/-- A string type as a source of its own: its word, the brackets, and the number between them. -/
def stringTypeTokens (size : String) (n : Nat) : List Token :=
  let token (start stop : Nat) (kind : Kind) (value : String) : Token :=
    ⟨kind, value, ⟨⟨start, "stdin"⟩, ⟨stop, "stdin"⟩⟩, 1⟩
  [token 0 6 .string "string", token 6 7 .openBracket "[", token 7 n .number size,
    token n (n + 1) .closeBracket "]", token (n + 1) (n + 1) .eof "EOF"]

/-- The largest size, with zeros in front. -/
theorem declaredType_spelled_largest :
    tokenize "string[0004294967295]" none = .ok (stringTypeTokens "0004294967295" 20) ∧
    ∃ t ∈ stringTypeTokens "0004294967295" 20, t.kind = .number ∧ t.value = "0004294967295" ∧
      ReadsLiteral t 4294967295 ∧ ReadsSize t (some 4294967295) := by
  have htokens : tokenize "string[0004294967295]" none =
      .ok (stringTypeTokens "0004294967295" 20) := by decide +kernel
  let t : Token := ⟨.number, "0004294967295", ⟨⟨7, "stdin"⟩, ⟨20, "stdin"⟩⟩, 1⟩
  have ht : t ∈ stringTypeTokens "0004294967295" 20 := by decide
  obtain ⟨b, ds, hs, hliteral, hsize⟩ := declaredType_spelled htokens ht rfl
  obtain ⟨rfl, rfl⟩ : b = 10 ∧ ds = "0004294967295".toList := by
    rcases hs.mark with ⟨hb, htext⟩ | ⟨-, htext | htext⟩
    · exact ⟨hb, htext.symm⟩
    · exact absurd htext (by simp [t])
    · exact absurd htext (by simp [t])
  have hworth : worth 10 "0004294967295".toList = 4294967295 := by decide
  rw [hworth] at hliteral hsize
  exact ⟨htokens, t, ht, rfl, rfl, hliteral, hsize⟩

/-- A hexadecimal size is refused, however small: `0x10` denotes 16, and is read as 16 where an
    expression is asked for, but as a size it is blamed. -/
theorem declaredType_hexadecimal :
    tokenize "string[0x10]" none = .ok (stringTypeTokens "0x10" 11) ∧
    ∃ t ∈ stringTypeTokens "0x10" 11, t.kind = .number ∧ Numeral t.value.toList 16 ∧
      16 ≤ 2 ^ 32 - 1 ∧ ReadsLiteral t 16 ∧
      ∃ u, declaredType (ofTokens "stdin" (stringTypeTokens "0x10" 11)) =
        .error ⟨.badNumber "0x10", t.span.start⟩ u := by
  have htokens : tokenize "string[0x10]" none = .ok (stringTypeTokens "0x10" 11) := by
    decide +kernel
  let t : Token := ⟨.number, "0x10", ⟨⟨7, "stdin"⟩, ⟨11, "stdin"⟩⟩, 1⟩
  have ht : t ∈ stringTypeTokens "0x10" 11 := by decide
  have hspelled : Spelled t.value 16 ['1', '0'] :=
    .of_all (Or.inr ⟨rfl, Or.inl (by decide)⟩) (by decide) (by decide)
  have hworth : worth 16 ['1', '0'] = 16 := by decide
  have hnumeral := hspelled.numeral
  have hliteral := readsLiteral_of_spelled rfl hspelled
  rw [hworth] at hnumeral hliteral
  exact ⟨htokens, t, ht, rfl, hnumeral, by decide, hliteral, ⟨_, rfl⟩⟩

end Grammar
end ProcLang
