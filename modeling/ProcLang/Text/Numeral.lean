/-
  Reading numerals.

  `magnitude?` gives the value of a string of digits in a base, with no limit on its length;
  the two literal forms of the language add a sign, a base mark and a limit:

  * `integerLiteral?` — decimal, or hexadecimal after `0x` or `0X`, within 64 signed bits;
  * `arraySize?`      — decimal only, within 32 bits.

  Both take one sign in front of the digits (an array size only a plus).  The scanner never
  makes a numeral with a sign, so this shows only for tokens that are made by hand.
-/

namespace ProcLang.Text

/-! ## Digits -/

/-- The value of a digit in a base of at most 16, letters in either case. -/
def digitValue? (base : Nat) (c : Char) : Option Nat :=
  let value :=
    if '0' ≤ c ∧ c ≤ '9' then some (c.toNat - '0'.toNat)
    else if 'a' ≤ c ∧ c ≤ 'f' then some (c.toNat - 'a'.toNat + 10)
    else if 'A' ≤ c ∧ c ≤ 'F' then some (c.toNat - 'A'.toNat + 10)
    else none
  value.filter (· < base)

/-- The value of digits that follow digits worth `acc`. -/
def digitsFrom? (base : Nat) : Nat → List Char → Option Nat
  | acc, [] => some acc
  | acc, c :: cs =>
    match digitValue? base c with
    | some d => digitsFrom? base (acc * base + d) cs
    | none => none

/-- The value of a string of digits, which has at least one. -/
def magnitude? (base : Nat) (cs : List Char) : Option Nat :=
  if cs.isEmpty then none else digitsFrom? base 0 cs

/-- Reading digit strings one after the other reads their concatenation. -/
theorem digitsFrom?_append (base acc : Nat) (cs ds : List Char) :
    digitsFrom? base acc (cs ++ ds) =
      (digitsFrom? base acc cs).bind fun n => digitsFrom? base n ds := by
  induction cs generalizing acc with
  | nil => rfl
  | cons c cs ih =>
    simp only [List.cons_append, digitsFrom?]
    cases digitValue? base c with
    | none => rfl
    | some d => exact ih _

/-! ## Signs -/

/-- A magnitude with an optional sign. -/
def signed? (base : Nat) : List Char → Option Int
  | '-' :: cs => (magnitude? base cs).map fun n => -(n : Int)
  | '+' :: cs => (magnitude? base cs).map fun n => (n : Int)
  | cs => (magnitude? base cs).map fun n => (n : Int)

/-- A magnitude with an optional plus. -/
def unsigned? (base : Nat) : List Char → Option Nat
  | '+' :: cs => magnitude? base cs
  | cs => magnitude? base cs

/-! ## The literals of the language -/

/-- The value of a numeral, which is hexadecimal behind a base mark. -/
def numeralValue? : List Char → Option Int
  | '0' :: 'x' :: cs => signed? 16 cs
  | '0' :: 'X' :: cs => signed? 16 cs
  | cs => signed? 10 cs

/-- The integer that a number token denotes, when it fits into 64 signed bits. -/
def integerLiteral? (text : String) : Option Int :=
  (numeralValue? text.toList).filter fun n =>
    decide (-9223372036854775808 ≤ n) && decide (n < 9223372036854775808)

/-- The array size that a number token denotes, when it fits into 32 bits. -/
def arraySize? (text : String) : Option Nat :=
  (unsigned? 10 text.toList).filter (· < 4294967296)

end ProcLang.Text
