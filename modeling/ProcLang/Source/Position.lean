/-
  Places in a named source.

  A position is a byte offset and the name of the source.  Offsets are words of 32 bits: they
  are kept modulo `2 ^ 32`, so a source of that length or more has positions that wrap around.
-/

namespace ProcLang

/-- A byte offset into a named source. -/
structure Position where
  offset : Nat
  file : String
deriving DecidableEq, Repr

/-- The position of byte `n` of `file`. -/
def Position.ofByte (n : Nat) (file : String) : Position := ⟨n % 4294967296, file⟩

/-- The bytes from `start` up to, and not including, `stop`. -/
structure Span where
  start : Position
  stop : Position
deriving DecidableEq, Repr

end ProcLang
