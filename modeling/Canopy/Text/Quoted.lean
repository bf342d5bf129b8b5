import Canopy.Text.Unprintable

/-!
# Quoted text for diagnostics

The quoted form of a string that error messages and inspection texts use: the string between
double quotes, the quote and the backslash preceded by a backslash, NUL, tab, carriage return
and line feed as `\0`, `\t`, `\r`, `\n`, and a character that does not print on its own (see
`isUnprintable`) as `\u` followed by its hexadecimal code point in braces.
-/

namespace Canopy.Text

/-- The code point in lower-case hexadecimal, without leading zeros. -/
def hexCode (n : Nat) : String :=
  String.ofList (Nat.toDigits 16 n)

/-- The characters that stand for one character inside the quotes. -/
def escapeChar (c : Char) : List Char :=
  if c = '"' then ['\\', '"']
  else if c = '\\' then ['\\', '\\']
  else if c = '\n' then ['\\', 'n']
  else if c = '\r' then ['\\', 'r']
  else if c = '\t' then ['\\', 't']
  else if c.toNat = 0 then ['\\', '0']
  else if isUnprintable c then ['\\', 'u', '\x7b'] ++ (hexCode c.toNat).toList ++ ['\x7d']
  else [c]

/-- A string between double quotes, escaped character by character. -/
def quote (s : String) : String :=
  String.ofList ('"' :: (s.toList.flatMap escapeChar ++ ['"']))

end Canopy.Text
