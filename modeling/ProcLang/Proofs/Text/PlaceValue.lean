/-
  The worth of numerals by place value.

  `Spelled text b ds` says that `text` is the digits `ds` in base `b`, behind the mark of that
  base.  Its worth is the one that Mathlib gives to digits, `Nat.ofDigits`, which takes the last
  digit first.  It is what the numeral denotes (`Spelled.numeral`), so the two readers of
  numerals can be told by it:

  * `Spelled.integerLiteral?_eq` — an integer literal is worth what is spelled, below `2 ^ 63`;
  * `Spelled.arraySize?_eq`      — so is an array size, below `2 ^ 32`, but in base ten only.
-/
import Mathlib.Data.List.Induction
import Mathlib.Data.Nat.Digits.Defs
import ProcLang.Proofs.Text.Numeral

namespace ProcLang.Text

/-! ## Digits -/

/-- The worth of a digit is its place among the sixteen, letters in either case; any other
    character is worth sixteen, which makes it a digit of no base. -/
def digitWorth (c : Char) : Nat := "0123456789abcdef".toList.idxOf c.toLower

/-- Digits are ASCII characters. -/
theorem toNat_lt_of_digitWorth {c : Char} (h : digitWorth c < 16) : c.toNat < 128 := by
  by_cases hu : c.isUpper = true
  · have hle : c.toNat ≤ 'Z'.toNat := (of_decide_eq_true hu).2
    exact Nat.lt_of_le_of_lt hle (by decide)
  · have hmem : c.toLower ∈ "0123456789abcdef".toList := List.idxOf_lt_length_iff.mp h
    have hlower : c.toLower = c := dif_neg fun hc => hu (decide_eq_true hc)
    rw [hlower] at hmem
    have hall : "0123456789abcdef".toList.all (fun d => d.toNat < 128) = true := by decide
    exact of_decide_eq_true (List.all_eq_true.mp hall _ hmem)

/-- The digits of a base are the characters that are worth less than it. -/
theorem isDigit_iff {b d : Nat} {c : Char} (hb : b ≤ 16) :
    IsDigit b c d ↔ digitWorth c = d ∧ d < b := by
  constructor
  · rintro ⟨hd, hc⟩
    have hall : ∀ d < 16, digitWorth d.digitChar = d ∧ digitWorth d.digitChar.toUpper = d := by
      decide
    have hd16 : d < 16 := Nat.lt_of_lt_of_le hd hb
    rcases hc with rfl | rfl
    · exact ⟨(hall d hd16).1, hd⟩
    · exact ⟨(hall d hd16).2, hd⟩
  · rintro ⟨rfl, hd⟩
    have hall : ∀ n < 128, digitWorth (Char.ofNat n) < 16 →
        IsDigit 16 (Char.ofNat n) (digitWorth (Char.ofNat n)) := by decide +kernel
    have hd16 : digitWorth c < 16 := Nat.lt_of_lt_of_le hd hb
    have hc := hall c.toNat (toNat_lt_of_digitWorth hd16)
    rw [Char.ofNat_toNat] at hc
    exact ⟨hd, (hc hd16).2⟩

/-! ## Digit strings -/

/-- The worth of a digit string in base `b`. -/
def worth (b : Nat) (ds : List Char) : Nat := Nat.ofDigits b (ds.reverse.map digitWorth)

/-- One more digit at the end multiplies by the base and adds the worth of the digit. -/
theorem worth_concat (b : Nat) (ds : List Char) (c : Char) :
    worth b (ds ++ [c]) = worth b ds * b + digitWorth c := by
  rw [worth, List.reverse_append, List.reverse_singleton, List.singleton_append, List.map_cons,
    Nat.ofDigits_cons, Nat.add_comm, Nat.mul_comm]
  rfl

/-- A digit string denotes its worth. -/
theorem denotes_worth {b : Nat} {ds : List Char} (hb : b ≤ 16) (hne : ds ≠ [])
    (h : ∀ c ∈ ds, digitWorth c < b) : Denotes b ds (worth b ds) := by
  induction ds using List.reverseRecOn with
  | nil => exact absurd rfl hne
  | append_singleton ds c ih =>
    have hc : IsDigit b c (digitWorth c) :=
      (isDigit_iff hb).mpr ⟨rfl, h c (List.mem_append_right ds List.mem_cons_self)⟩
    rw [worth_concat]
    by_cases hds : ds = []
    · subst hds
      rw [show worth b [] = 0 from rfl, Nat.zero_mul, Nat.zero_add]
      exact .digit hc
    · exact (ih hds fun d hd => h d (List.mem_append_left _ hd)).snoc hc

/-! ## Numerals -/

/-- `text` is the digits `ds` in base `b`, behind the mark of the base: there is none for base
    ten, and there are two for base sixteen. -/
structure Spelled (text : String) (b : Nat) (ds : List Char) : Prop where
  mark : b = 10 ∧ text.toList = ds ∨
    b = 16 ∧ (text.toList = '0' :: 'x' :: ds ∨ text.toList = '0' :: 'X' :: ds)
  ne_nil : ds ≠ []
  digits : ∀ c ∈ ds, digitWorth c < b

namespace Spelled

variable {text : String} {b : Nat} {ds : List Char}

/-- That the characters are digits can be computed. -/
theorem of_all (hmark : b = 10 ∧ text.toList = ds ∨
      b = 16 ∧ (text.toList = '0' :: 'x' :: ds ∨ text.toList = '0' :: 'X' :: ds))
    (hne : ds ≠ []) (h : ds.all (fun c => digitWorth c < b) = true) : Spelled text b ds :=
  ⟨hmark, hne, fun c hc => of_decide_eq_true (List.all_eq_true.mp h c hc)⟩

/-- A digit string denotes its worth. -/
theorem denotes (h : Spelled text b ds) : Denotes b ds (worth b ds) := by
  refine denotes_worth ?_ h.ne_nil h.digits
  rcases h.mark with ⟨rfl, -⟩ | ⟨rfl, -⟩
  · decide
  · decide

/-- A numeral denotes the worth of its digits. -/
theorem numeral (h : Spelled text b ds) : Numeral text.toList (worth b ds) := by
  have hds := h.denotes
  rcases h.mark with ⟨rfl, htext⟩ | ⟨rfl, htext | htext⟩
  · rw [htext]
    exact .decimal hds
  · rw [htext]
    exact .hexadecimal (Or.inl rfl) hds
  · rw [htext]
    exact .hexadecimal (Or.inr rfl) hds

/-- As an integer literal, a numeral is read as what it is worth, or not at all. -/
theorem integerLiteral?_eq (h : Spelled text b ds) :
    integerLiteral? text = if worth b ds < 2 ^ 63 then some (worth b ds : Int) else none :=
  integerLiteral?_of_numeral h.numeral

/-- As an array size, a decimal numeral is read as what it is worth, or not at all; one behind a
    mark is never read. -/
theorem arraySize?_eq (h : Spelled text b ds) :
    arraySize? text = if b = 10 ∧ worth b ds < 2 ^ 32 then some (worth b ds) else none := by
  have hiff : ∀ n, arraySize? text = some n ↔ Denotes 10 text.toList n ∧ n < 2 ^ 32 :=
    fun _ => arraySize?_eq_some_iff ⟨_, h.numeral⟩
  -- a text that denotes a number in base ten has no mark of another base, as `x` is no decimal
  -- digit
  have hunique : ∀ n, Denotes 10 text.toList n → b = 10 ∧ n = worth b ds := by
    intro n hn
    have hnone : digitValue? 10 'x' = none ∧ digitValue? 10 'X' = none := by decide
    rcases h.mark with ⟨rfl, htext⟩ | ⟨-, htext | htext⟩
    · have hvalue := (magnitude?_eq_some_iff (by decide)).mpr hn
      rw [htext, (magnitude?_eq_some_iff (by decide)).mpr h.denotes] at hvalue
      exact ⟨rfl, (Option.some.inj hvalue).symm⟩
    · refine absurd ?_ (hn.notMem_of_digitValue? (by decide) hnone.1)
      rw [htext]
      simp
    · refine absurd ?_ (hn.notMem_of_digitValue? (by decide) hnone.2)
      rw [htext]
      simp
  by_cases hfits : b = 10 ∧ worth b ds < 2 ^ 32
  · obtain ⟨rfl, hlt⟩ := hfits
    rw [if_pos ⟨rfl, hlt⟩]
    refine (hiff _).mpr ⟨?_, hlt⟩
    rcases h.mark with ⟨-, htext⟩ | ⟨hb, -⟩
    · rw [htext]
      exact h.denotes
    · cases hb
  · rw [if_neg hfits]
    refine Option.eq_none_iff_forall_ne_some.mpr fun n hn => hfits ?_
    obtain ⟨hden, hlt⟩ := (hiff n).mp hn
    obtain ⟨hb, rfl⟩ := hunique n hden
    exact ⟨hb, hlt⟩

end Spelled
end ProcLang.Text
