/-
  Character classes as lists of code point intervals, and the class of white space.

  A class is a list of closed intervals, so that a class of the character standard is written
  down as data.  `isBlank` is the standard's property `White_Space`: 25 characters, of which
  only six are in ASCII.  `Char.isWhitespace` knows four of them, and
  no other character.
-/

namespace ProcLang.Text

/-- A set of characters, given by closed intervals of code points. -/
abbrev CharClass := List (Nat × Nat)

/-- Membership of a character in a class. -/
def CharClass.contains (k : CharClass) (c : Char) : Bool :=
  k.any fun r => decide (r.1 ≤ c.toNat) && decide (c.toNat ≤ r.2)

/-! ## White space -/

/-- The characters with the property `White_Space`. -/
def blanks : CharClass :=
  [(0x9, 0xd), (0x20, 0x20), (0x85, 0x85), (0xa0, 0xa0), (0x1680, 0x1680), (0x2000, 0x200a),
   (0x2028, 0x2029), (0x202f, 0x202f), (0x205f, 0x205f), (0x3000, 0x3000)]

/-- White space separates lexemes and is cut off the end of a quoted source line. -/
def isBlank (c : Char) : Bool := blanks.contains c

example : isBlank '\x0c' = true ∧ '\x0c'.isWhitespace = false := by decide
example : (blanks.map fun r => r.2 + 1 - r.1).sum = 25 := by decide

/-- `cs` without the white space at its end. -/
def trimEnd (cs : List Char) : List Char := (cs.reverse.dropWhile isBlank).reverse

end ProcLang.Text
