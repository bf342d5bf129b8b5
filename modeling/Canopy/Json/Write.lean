import Canopy.Json.Value
import Canopy.Decimal.Shortest

/-!
# Writing JSON values

The compact text of a value: no blanks, object fields in key order, strings in double quotes
with only the quote, the backslash and control characters escaped, integers in decimal and
doubles in their shortest form under `NumberLayout.json`.

Two further texts are derived from it: the text a value shows as when it is written into the
document (`Value.contentText`, where a string is itself and null is empty) and the text a value
adds to a concatenation (`Value.joinText`, where only a string is itself).
-/

namespace Canopy

/-- How a double's shortest digits are laid out. -/
structure NumberLayout where
  /-- The least decimal exponent of the leading digit that is still written positionally. -/
  leastPositional : Int
  /-- The greatest decimal exponent of the leading digit that is still written positionally. -/
  greatestPositional : Int
  /-- Whether a positive exponent is written with a plus sign. -/
  plusExponent : Bool
  /-- Whether an integral value written positionally keeps a ".0". -/
  pointZero : Bool

/-- Doubles are written positionally from `1e-5` up to below `1e16`, integral ones with ".0";
outside that range as one digit, the other digits after a point, and an exponent whose sign is
always written (`1e+21`, `2.5e-7`). -/
def NumberLayout.json : NumberLayout := ⟨-5, 15, true, true⟩

namespace NumberLayout

/-- The text of `digits · 10^exponent` (a positive number, or zero) under the layout. -/
def place (l : NumberLayout) (digits : Nat) (exponent : Int) : String :=
  let ds := Nat.toDigits 10 digits
  let n := ds.length
  let lead : Int := exponent + n - 1
  if l.leastPositional ≤ lead ∧ lead ≤ l.greatestPositional then
    if 0 ≤ exponent then
      String.ofList (ds ++ List.replicate exponent.toNat '0') ++ (if l.pointZero then ".0" else "")
    else if 0 ≤ lead then
      let whole := lead.toNat + 1
      String.ofList (ds.take whole) ++ "." ++ String.ofList (ds.drop whole)
    else
      "0." ++ String.ofList (List.replicate ((-lead).toNat - 1) '0') ++ String.ofList ds
  else
    let mantissa := match ds with
      | [d] => String.singleton d
      | d :: rest => String.singleton d ++ "." ++ String.ofList rest
      | [] => "0"
    let sign := if lead < 0 then "-" else if l.plusExponent then "+" else ""
    mantissa ++ "e" ++ sign ++ toString lead.natAbs

/-- The text of a finite double under the layout. -/
def double (l : NumberLayout) (bits : UInt64) : String :=
  let s := Decimal.Scientific.ofBits bits
  (if s.negative then "-" else "") ++ l.place s.digits s.exponent

end NumberLayout

/-- The lower-case hexadecimal digit of a number below 16. -/
def hexDigit (n : Nat) : Char :=
  if n < 10 then Char.ofNat (48 + n) else Char.ofNat (87 + n)

/-- The characters that stand for one character inside a quoted JSON string. -/
def jsonEscape (c : Char) : List Char :=
  if c = '"' then ['\\', '"']
  else if c = '\\' then ['\\', '\\']
  else if c = '\n' then ['\\', 'n']
  else if c = '\r' then ['\\', 'r']
  else if c = '\t' then ['\\', 't']
  else if c.toNat = 8 then ['\\', 'b']
  else if c.toNat = 12 then ['\\', 'f']
  else if c.toNat < 32 then
    ['\\', 'u', '0', '0', hexDigit (c.toNat / 16), hexDigit (c.toNat % 16)]
  else [c]

/-- A string as a JSON string literal. -/
def jsonQuote (s : String) : String :=
  String.ofList ('"' :: (s.toList.flatMap jsonEscape ++ ['"']))

namespace Value

mutual
/-- The compact JSON text of a value. -/
def compact : Value → String
  | .null => "null"
  | .bool b => if b then "true" else "false"
  | .int n => toString n
  | .float bits => NumberLayout.json.double bits
  | .str s => jsonQuote s
  | .arr xs => "[" ++ compactItems xs ++ "]"
  | .obj fs => "\x7b" ++ compactFields fs ++ "\x7d"

/-- The compact texts of items, comma separated. -/
def compactItems : List Value → String
  | [] => ""
  | [x] => compact x
  | x :: xs => compact x ++ "," ++ compactItems xs

/-- The compact texts of fields, comma separated. -/
def compactFields : List (String × Value) → String
  | [] => ""
  | [(k, x)] => jsonQuote k ++ ":" ++ compact x
  | (k, x) :: xs => jsonQuote k ++ ":" ++ compact x ++ "," ++ compactFields xs
end

/-- The text a value shows as in the document: a string is itself, null is empty, anything
else is its compact JSON. -/
def contentText : Value → String
  | .str s => s
  | .null => ""
  | v => v.compact

/-- The text a value adds to a concatenation: a string is itself, anything else (null too) is
its compact JSON. -/
def joinText : Value → String
  | .str s => s
  | v => v.compact

end Value

end Canopy
