/-
  Text between double quotes, with everything invisible written out.

  A quote, a backslash and the common controls get a short escape; any other character that is
  not visible is written by its code point in lower case hexadecimal, `\u{...}`.  A single
  quote stays as it is.
-/
import ProcLang.Text.Visible

namespace ProcLang.Text

/-- The written form of one character between double quotes. -/
def escape (c : Char) : List Char :=
  if c = '\x00' then ['\x5c', '0']
  else if c = '\t' then ['\x5c', 't']
  else if c = '\n' then ['\x5c', 'n']
  else if c = '\r' then ['\x5c', 'r']
  else if c = '"' then ['\x5c', '"']
  else if c = '\x5c' then ['\x5c', '\x5c']
  else if isVisible c then [c]
  else ['\x5c', 'u', '\x7b'] ++ Nat.toDigits 16 c.toNat ++ ['\x7d']

/-- `s` between double quotes. -/
def quoted (s : String) : String :=
  String.ofList ('"' :: (s.toList.flatMap escape ++ ['"']))

end ProcLang.Text
