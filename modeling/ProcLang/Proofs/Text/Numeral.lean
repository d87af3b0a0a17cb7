/-
  What numerals denote.

  `Denotes b cs n` says that the digit string `cs` is worth `n` in base `b`, by its last digit
  and what stands before it; `Numeral cs n` allows for the two bases that the language has.  The
  readers of numerals go through the digits from the left, with an accumulator:

  * `magnitude?_eq_some_iff`      — they find what a digit string denotes;
  * `integerLiteral?_eq_some_iff` — a number token is read as what it denotes, if that fits into
                                    64 signed bits;
  * `arraySize?_eq_some_iff`      — a size is decimal, and fits into 32 bits.
-/
import Mathlib.Algebra.Group.Int.Defs
import Mathlib.Algebra.Group.Nat.Defs
import ProcLang.Text.Numeral

namespace ProcLang.Text

/-! ## Digits -/

/-- `c` is the digit worth `d` in base `b`; a letter is a digit in either case. -/
def IsDigit (b : Nat) (c : Char) (d : Nat) : Prop :=
  d < b ∧ (c = d.digitChar ∨ c = d.digitChar.toUpper)

instance (b : Nat) (c : Char) (d : Nat) : Decidable (IsDigit b c d) :=
  inferInstanceAs (Decidable (_ ∧ _))

/-- A digit of a small base is a hexadecimal digit of a small value. -/
theorem digitValue?_eq_some_iff_of_le {b d : Nat} {c : Char} (hb : b ≤ 16) :
    digitValue? b c = some d ↔ digitValue? 16 c = some d ∧ d < b := by
  simp only [digitValue?, Option.filter_eq_some_iff, decide_eq_true_eq]
  constructor
  · rintro ⟨hv, hd⟩
    exact ⟨⟨hv, Nat.lt_of_lt_of_le hd hb⟩, hd⟩
  · rintro ⟨⟨hv, -⟩, hd⟩
    exact ⟨hv, hd⟩

/-- All digits lie below the letter `g`, so there are few characters to look at. -/
theorem toNat_lt_of_digitValue? {b d : Nat} {c : Char} (h : digitValue? b c = some d) :
    c.toNat < 103 := by
  simp only [digitValue?, Option.filter_eq_some_iff] at h
  obtain ⟨hv, -⟩ := h
  have hle : ∀ {z : Char}, c ≤ z → c.toNat ≤ z.toNat := fun h => h
  split at hv
  · rename_i hc
    exact Nat.lt_of_le_of_lt (hle hc.2) (by decide)
  · split at hv
    · rename_i hc
      exact Nat.lt_of_le_of_lt (hle hc.2) (by decide)
    · split at hv
      · rename_i hc
        exact Nat.lt_of_le_of_lt (hle hc.2) (by decide)
      · cases hv

/-- The hexadecimal digits are the decimal ones and the letters up to `f`, in both cases. -/
theorem digitValue?_sixteen_eq_some_iff {c : Char} {d : Nat} :
    digitValue? 16 c = some d ↔ IsDigit 16 c d := by
  constructor
  · intro h
    have hall : ∀ n < 103, ∀ d ∈ digitValue? 16 (Char.ofNat n), IsDigit 16 (Char.ofNat n) d := by
      decide
    have hc := hall c.toNat (toNat_lt_of_digitValue? h) d
    rw [Char.ofNat_toNat] at hc
    exact hc h
  · rintro ⟨hd, hc⟩
    have hall : ∀ d < 16, digitValue? 16 d.digitChar = some d ∧
        digitValue? 16 d.digitChar.toUpper = some d := by decide
    rcases hc with rfl | rfl
    · exact (hall d hd).1
    · exact (hall d hd).2

/-- A digit is worth what its place among the digits and letters says. -/
theorem digitValue?_eq_some_iff {b d : Nat} {c : Char} (hb : b ≤ 16) :
    digitValue? b c = some d ↔ IsDigit b c d := by
  rw [digitValue?_eq_some_iff_of_le hb, digitValue?_sixteen_eq_some_iff]
  constructor
  · rintro ⟨⟨-, hc⟩, hd⟩
    exact ⟨hd, hc⟩
  · rintro ⟨hd, hc⟩
    exact ⟨⟨Nat.lt_of_lt_of_le hd hb, hc⟩, hd⟩

/-! ## Digit strings -/

/-- The numeral `cs` is worth `n` in base `b`. -/
inductive Denotes (b : Nat) : List Char → Nat → Prop
  | digit {c : Char} {d : Nat} (h : IsDigit b c d) : Denotes b [c] d
  | snoc {cs : List Char} {n : Nat} {c : Char} {d : Nat} (h : Denotes b cs n)
      (hd : IsDigit b c d) : Denotes b (cs ++ [c]) (n * b + d)

/-- A digit string has at least one digit. -/
theorem Denotes.ne_nil {b n : Nat} {cs : List Char} (h : Denotes b cs n) : cs ≠ [] := by
  cases h <;> simp

/-- The accumulator ends with what the digit string denotes. -/
theorem Denotes.digitsFrom?_eq {b n : Nat} {cs : List Char} (hb : b ≤ 16) (h : Denotes b cs n) :
    digitsFrom? b 0 cs = some n := by
  -- on the last digit, since the accumulator has seen all others when it comes to it
  induction h with
  | digit h =>
    rw [digitsFrom?, (digitValue?_eq_some_iff hb).mpr h]
    simp [digitsFrom?]
  | snoc _ hd ih =>
    rw [digitsFrom?_append, ih, Option.bind_some, digitsFrom?, (digitValue?_eq_some_iff hb).mpr hd]
    rfl

/-- Digits behind a numeral make it a longer one. -/
theorem Denotes.append {b m n : Nat} {cs ds : List Char} (hb : b ≤ 16) (h : Denotes b cs m)
    (hds : digitsFrom? b m ds = some n) : Denotes b (cs ++ ds) n := by
  induction ds generalizing cs m with
  | nil =>
    obtain rfl : m = n := Option.some.inj hds
    rw [List.append_nil]
    exact h
  | cons c ds ih =>
    rw [digitsFrom?] at hds
    cases hc : digitValue? b c with
    | none => rw [hc] at hds; cases hds
    | some d =>
      rw [hc] at hds
      have hlonger := ih (h.snoc ((digitValue?_eq_some_iff hb).mp hc)) hds
      rw [List.append_assoc] at hlonger
      exact hlonger

/-- Digits that are read one by one denote what they add up to. -/
theorem denotes_of_digitsFrom? {b n : Nat} {c : Char} {cs : List Char} (hb : b ≤ 16)
    (h : digitsFrom? b 0 (c :: cs) = some n) : Denotes b (c :: cs) n := by
  rw [digitsFrom?] at h
  cases hc : digitValue? b c with
  | none => rw [hc] at h; cases h
  | some d =>
    rw [hc, Nat.zero_mul] at h
    simp only [Nat.zero_add] at h
    exact (Denotes.digit ((digitValue?_eq_some_iff hb).mp hc)).append hb h

/-- The magnitude of a digit string is what it denotes. -/
theorem magnitude?_eq_some_iff {b n : Nat} {cs : List Char} (hb : b ≤ 16) :
    magnitude? b cs = some n ↔ Denotes b cs n := by
  constructor
  · intro h
    cases cs with
    | nil => cases h
    | cons c cs => exact denotes_of_digitsFrom? hb h
  · intro h
    rw [magnitude?, if_neg (by simpa using h.ne_nil)]
    exact h.digitsFrom?_eq hb

/-- The digits that a number is written with denote it. -/
theorem denotes_toDigits {b : Nat} (hb : 1 < b) (n : Nat) : Denotes b (Nat.toDigits b n) n := by
  induction n using Nat.strongRecOn with
  | _ n ih =>
    by_cases h : n < b
    · rw [Nat.toDigits_of_lt_base h]
      exact .digit ⟨h, Or.inl rfl⟩
    · have hle : b ≤ n := Nat.le_of_not_lt h
      have hless : n / b < n := Nat.div_lt_self (by omega) hb
      have hlast : IsDigit b (n % b).digitChar (n % b) := ⟨Nat.mod_lt n (by omega), Or.inl rfl⟩
      have hall := (ih (n / b) hless).snoc hlast
      rw [Nat.div_add_mod'] at hall
      rw [Nat.toDigits_of_base_le hb hle]
      exact hall

/-- Every character of a numeral is a digit. -/
theorem Denotes.exists_of_mem {b n : Nat} {cs : List Char} (h : Denotes b cs n) {c : Char}
    (hc : c ∈ cs) : ∃ d, IsDigit b c d := by
  induction h with
  | digit h =>
    obtain rfl := List.mem_singleton.mp hc
    exact ⟨_, h⟩
  | snoc _ hd ih =>
    rcases List.mem_append.mp hc with hc | hc
    · exact ih hc
    · obtain rfl := List.mem_singleton.mp hc
      exact ⟨_, hd⟩

/-- Neither signs nor base marks are digits. -/
theorem Denotes.notMem_of_digitValue? {b n : Nat} {cs : List Char} (hb : b ≤ 16)
    (h : Denotes b cs n) {c : Char} (hc : digitValue? b c = none) : c ∉ cs := by
  intro hmem
  obtain ⟨d, hd⟩ := h.exists_of_mem hmem
  rw [(digitValue?_eq_some_iff hb).mpr hd] at hc
  cases hc

/-- A numeral without a sign is read as it is. -/
theorem Denotes.signed?_eq {b n : Nat} {cs : List Char} (hb : b ≤ 16) (h : Denotes b cs n) :
    signed? b cs = some (n : Int) := by
  have hm := (magnitude?_eq_some_iff hb).mpr h
  have hdash : '-' ∉ cs := h.notMem_of_digitValue? hb (by simp [digitValue?])
  have hplus : '+' ∉ cs := h.notMem_of_digitValue? hb (by simp [digitValue?])
  unfold signed?
  split
  · exact absurd List.mem_cons_self hdash
  · exact absurd List.mem_cons_self hplus
  · rw [hm]
    rfl

/-! ## Literals -/

/-- The number token `cs` is worth `n`: it is decimal, or hexadecimal behind its mark. -/
inductive Numeral : List Char → Nat → Prop
  | decimal {cs : List Char} {n : Nat} (h : Denotes 10 cs n) : Numeral cs n
  | hexadecimal {cs : List Char} {n : Nat} {x : Char} (hx : x = 'x' ∨ x = 'X')
      (h : Denotes 16 cs n) : Numeral ('0' :: x :: cs) n

/-- A numeral is read as what it denotes, whichever of the two bases it is in. -/
theorem Numeral.numeralValue?_eq {cs : List Char} {n : Nat} (h : Numeral cs n) :
    numeralValue? cs = some (n : Int) := by
  cases h with
  | decimal h =>
    -- no base mark is a digit
    have hx : 'x' ∉ cs := h.notMem_of_digitValue? (by decide) (by decide)
    have hX : 'X' ∉ cs := h.notMem_of_digitValue? (by decide) (by decide)
    unfold numeralValue?
    split
    · exact absurd (by simp) hx
    · exact absurd (by simp) hX
    · exact h.signed?_eq (by decide)
  | hexadecimal hx h =>
    rcases hx with rfl | rfl
    · exact h.signed?_eq (by decide)
    · exact h.signed?_eq (by decide)

/-- A numeral is read as what it denotes, if it fits into 64 signed bits. -/
theorem integerLiteral?_of_numeral {s : String} {n : Nat} (h : Numeral s.toList n) :
    integerLiteral? s = if n < 2 ^ 63 then some (n : Int) else none := by
  have hfits : (decide (-9223372036854775808 ≤ (n : Int)) &&
      decide ((n : Int) < 9223372036854775808)) = decide (n < 2 ^ 63) := by
    rw [Bool.eq_iff_iff, Bool.and_eq_true, decide_eq_true_eq, decide_eq_true_eq,
      decide_eq_true_eq]
    omega
  rw [integerLiteral?, h.numeralValue?_eq, Option.filter_some, hfits]
  by_cases hn : n < 2 ^ 63
  · rw [if_pos hn, if_pos (decide_eq_true hn)]
  · rw [if_neg hn, if_neg (by simpa using hn)]

/-- What is read of a numeral is what it denotes. -/
theorem integerLiteral?_eq_some_iff {s : String} {i : Int} (hs : ∃ n, Numeral s.toList n) :
    integerLiteral? s = some i ↔ ∃ n : Nat, Numeral s.toList n ∧ n < 2 ^ 63 ∧ i = n := by
  constructor
  · intro h
    obtain ⟨n, hn⟩ := hs
    rw [integerLiteral?_of_numeral hn] at h
    split at h
    · rename_i hlt
      exact ⟨n, hn, hlt, (Option.some.inj h).symm⟩
    · cases h
  · rintro ⟨n, hn, hlt, rfl⟩
    rw [integerLiteral?_of_numeral hn, if_pos hlt]

/-- The first character of a number token is a digit. -/
theorem Numeral.ne_plus {cs : List Char} {n : Nat} (h : Numeral cs n) (ds : List Char) :
    cs ≠ '+' :: ds := by
  rintro rfl
  cases h with
  | decimal h => exact h.notMem_of_digitValue? (by decide) (by decide) List.mem_cons_self

/-- A size is a decimal numeral that fits into 32 bits. -/
theorem arraySize?_eq_some_iff {s : String} {n : Nat} (hs : ∃ m, Numeral s.toList m) :
    arraySize? s = some n ↔ Denotes 10 s.toList n ∧ n < 2 ^ 32 := by
  obtain ⟨m, hm⟩ := hs
  have hread : unsigned? 10 s.toList = magnitude? 10 s.toList := by
    unfold unsigned?
    split
    · rename_i ds hds
      exact absurd hds (hm.ne_plus ds)
    · rfl
  have hbound : (4294967296 : Nat) = 2 ^ 32 := by decide
  rw [arraySize?, hread, Option.filter_eq_some_iff, magnitude?_eq_some_iff (by decide),
    decide_eq_true_eq, hbound]

end ProcLang.Text
