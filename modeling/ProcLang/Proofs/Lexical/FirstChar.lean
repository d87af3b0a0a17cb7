/-
  What the first character of a text decides.

  Away from comments and literals in quotes, the scanner asks for white space, a word, a number
  and an operator in turn, by the first character alone (`scan_cons`).  The four classes do not
  overlap, so the order of the questions plays no part.
-/
import ProcLang.Token.Lexeme

namespace ProcLang

open Lexeme ProcLang.Text

/-! ## Character classes -/

/-- Words are in ASCII. -/
theorem toNat_lt_of_isWordPart {c : Char} (h : isWordPart c = true) : c.toNat < 128 := by
  have hclass : (((c.isUpper || c.isLower) || c.isDigit) || decide (c = '_')) = true := h
  have hle : ∀ z : Char, c.val ≤ z.val → z.toNat < 128 → c.toNat < 128 := fun _ hz hlt =>
    Nat.lt_of_le_of_lt hz hlt
  simp only [Bool.or_eq_true, decide_eq_true_eq] at hclass
  rcases hclass with ((hc | hc) | hc) | rfl
  · exact hle 'Z' (of_decide_eq_true hc).2 (by decide)
  · exact hle 'z' (of_decide_eq_true (Bool.and_eq_true_iff.mp hc).2) (by decide)
  · exact hle '9' (of_decide_eq_true (Bool.and_eq_true_iff.mp hc).2) (by decide)
  · decide

/-- Neither white space nor the first character of a comment or of a literal in quotes. -/
theorem of_isWordPart {c : Char} (h : isWordPart c = true) :
    isBlank c = false ∧ c ≠ '/' ∧ c ≠ '\x27' ∧ c ≠ '"' := by
  have hall : ∀ n < 128, isWordPart (Char.ofNat n) = true → isBlank (Char.ofNat n) = false ∧
      Char.ofNat n ≠ '/' ∧ Char.ofNat n ≠ '\x27' ∧ Char.ofNat n ≠ '"' := by decide
  have hc := hall c.toNat (toNat_lt_of_isWordPart h)
  rw [Char.ofNat_toNat] at hc
  exact hc h

/-- Digits are parts of words. -/
theorem isWordPart_of_isDigit {c : Char} (h : c.isDigit = true) : isWordPart c = true := by
  simp [isWordPart, Char.isAlphanum, h]

/-- What begins a word is part of one. -/
theorem isWordPart_of_isWordStart {c : Char} (h : isWordStart c = true) : isWordPart c = true := by
  simp only [isWordStart, Bool.or_eq_true, decide_eq_true_eq] at h
  simp only [isWordPart, Char.isAlphanum, Bool.or_eq_true, decide_eq_true_eq]
  exact h.imp Or.inl id

/-- Digits begin no word. -/
theorem isWordStart_of_isDigit {c : Char} (h : c.isDigit = true) : isWordStart c = false := by
  have hall : ∀ n < 128, (Char.ofNat n).isDigit = true → isWordStart (Char.ofNat n) = false := by
    decide
  have hc := hall c.toNat (toNat_lt_of_isWordPart (isWordPart_of_isDigit h))
  rw [Char.ofNat_toNat] at hc
  exact hc h

/-! ## The questions of the scanner -/

/-- The text starts with a comment. -/
def StartsComment (cs : List Char) : Prop := ['/', '%'] <+: cs

/-- The scanner by cases on the first character, when this begins neither a comment nor a literal in
    quotes. -/
theorem scan_cons {c : Char} {cs : List Char} (hquote : c ≠ '\x27') (hdouble : c ≠ '"')
    (hcomment : ¬ StartsComment (c :: cs)) :
    scan (c :: cs) =
      if isBlank c then .ok (run (fun _ => none) [] isBlank (c :: cs))
      else if isWordStart c then .ok (run word [] isWordPart (c :: cs))
      else if c.isDigit then .ok (number (c :: cs))
      else operator (c :: cs) := by
  unfold scan
  split
  · contradiction
  · rename_i rest heq
    obtain ⟨rfl, rfl⟩ := List.cons.inj heq
    exact absurd ⟨rest, rfl⟩ hcomment
  · rename_i heq
    exact absurd (List.cons.inj heq).1 hquote
  · rename_i heq
    exact absurd (List.cons.inj heq).1 hdouble
  · rename_i heq
    obtain ⟨rfl, rfl⟩ := List.cons.inj heq
    rfl

/-- A comment begins with a slash. -/
theorem not_startsComment_of_ne {c : Char} (h : c ≠ '/') (cs : List Char) :
    ¬ StartsComment (c :: cs) := by
  rintro ⟨rest, heq⟩
  exact h (List.cons.inj heq).1.symm

/-- White space is taken as a whole. -/
theorem scan_of_isBlank {c : Char} (h : isBlank c = true) (cs : List Char) :
    scan (c :: cs) = .ok (run (fun _ => none) [] isBlank (c :: cs)) := by
  have hne : ∀ d, isBlank d = false → c ≠ d := by
    rintro d hd rfl
    rw [h] at hd
    cases hd
  rw [scan_cons (hne _ (by decide)) (hne _ (by decide))
    (not_startsComment_of_ne (hne _ (by decide)) cs), if_pos h]

/-- A character that words are made of starts a word, a number or an operator. -/
theorem scan_of_isWordPart {c : Char} (h : isWordPart c = true) (cs : List Char) :
    scan (c :: cs) =
      if isWordStart c then .ok (run word [] isWordPart (c :: cs))
      else if c.isDigit then .ok (number (c :: cs))
      else operator (c :: cs) := by
  obtain ⟨hblank, hslash, hquote, hdouble⟩ := of_isWordPart h
  rw [scan_cons hquote hdouble (not_startsComment_of_ne hslash cs), if_neg (by simp [hblank])]

end ProcLang
