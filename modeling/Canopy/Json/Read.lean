import Canopy.Json.Value

/-!
# Reading JSON text

`Value.parse?` reads one JSON value, with blanks around it and nothing else. The rules that
decide a value's kind:

* a number without fraction or exponent is an `int` when it lies in `[-2^63, 2^64)`, and a
  double otherwise; `-0` is the double `-0.0`;
* a double is computed from a significand of at most 64 bits (digits past that are dropped,
  integer digits still counting towards the exponent) and a decimal exponent: the significand
  is rounded to a double and multiplied or divided by the double nearest to the power of ten,
  which is not always the double nearest to the number; one too large for a double is
  refused;
* a string may not hold a raw control character, and a `\u` escape of a surrogate must pair a
  leading with a trailing one;
* arrays and objects nest at most 127 deep; in an object a later field of the same key wins.
-/

namespace Canopy

namespace Read

/-- The blanks between tokens. -/
def isBlank (c : Char) : Bool :=
  c = ' ' || c = '\n' || c = '\t' || c = '\r'

/-- Skip blanks. -/
def skip (cs : List Char) : List Char :=
  cs.dropWhile isBlank

/-- The value of a hexadecimal digit. -/
def hexValue? (c : Char) : Option Nat :=
  if c.isDigit then some (c.toNat - 48)
  else if 'a' ≤ c ∧ c ≤ 'f' then some (c.toNat - 87)
  else if 'A' ≤ c ∧ c ≤ 'F' then some (c.toNat - 55)
  else none

/-- The number written by four hexadecimal digits. -/
def hex4? (a b c d : Char) : Option Nat := do
  let a ← hexValue? a
  let b ← hexValue? b
  let c ← hexValue? c
  let d ← hexValue? d
  pure (((a * 16 + b) * 16 + c) * 16 + d)

/-- The character of a one-letter escape. -/
def shortEscape? : Char → Option Char
  | '"' => some '"'
  | '\\' => some '\\'
  | '/' => some '/'
  | 'b' => some (Char.ofNat 8)
  | 'f' => some (Char.ofNat 12)
  | 'n' => some '\n'
  | 'r' => some '\r'
  | 't' => some '\t'
  | _ => none

/-- A leading surrogate code unit. -/
def isLeading (n : Nat) : Bool := 0xD800 ≤ n && n < 0xDC00

/-- A trailing surrogate code unit. -/
def isTrailing (n : Nat) : Bool := 0xDC00 ≤ n && n < 0xE000

/-- The body of a string literal after its opening quote, up to and past the closing quote;
`acc` holds the characters read so far, last first. -/
def stringBody : List Char → List Char → Option (String × List Char)
  | [], _ => none
  | '"' :: rest, acc => some (String.ofList acc.reverse, rest)
  | '\\' :: 'u' :: a :: b :: c :: d :: rest, acc =>
    match hex4? a b c d with
    | none => none
    | some hi =>
      if isLeading hi then
        match rest with
        | '\\' :: 'u' :: e :: f :: g :: h :: rest' =>
          match hex4? e f g h with
          | some lo =>
            if isTrailing lo then
              stringBody rest' (Char.ofNat (0x10000 + (hi - 0xD800) * 0x400 + (lo - 0xDC00)) :: acc)
            else none
          | none => none
        | _ => none
      else if isTrailing hi then none
      else stringBody rest (Char.ofNat hi :: acc)
  | '\\' :: e :: rest, acc =>
    match shortEscape? e with
    | some c => stringBody rest (c :: acc)
    | none => none
  | c :: rest, acc => if c.toNat < 32 then none else stringBody rest (c :: acc)

/-- The largest significand the reader keeps: the 64-bit unsigned maximum. -/
def significandLimit : Nat := Nat.pow 2 64 - 1

/-- The largest exponent the reader reads: the 32-bit signed maximum. -/
def exponentLimit : Nat := Nat.pow 2 31 - 1

/-- Skip decimal digits. -/
def skipDigits (cs : List Char) : List Char :=
  cs.dropWhile Char.isDigit

/-- The bits of the double nearest to a natural number below `2^1024`, ties to even. -/
def natBits (n : Nat) : UInt64 :=
  if n = 0 then 0
  else
    let l := n.log2
    if l ≤ 52 then UInt64.ofNat (((l + 1023) <<< 52) ||| ((n <<< (52 - l)) - Nat.pow 2 52))
    else
      let s := l - 52
      let q := n >>> s
      let r := n - (q <<< s)
      let half := Nat.pow 2 (s - 1)
      let q := if r > half || (r = half && q % 2 = 1) then q + 1 else q
      let (q, l) := if q = Nat.pow 2 53 then (Nat.pow 2 52, l + 1) else (q, l)
      UInt64.ofNat (((l + 1023) <<< 52) ||| (q - Nat.pow 2 52))

/-- Ten to a power up to 308, as the nearest double. -/
def powerOfTen? (k : Nat) : Option Float :=
  if k ≤ 308 then some (Float.ofBits (natBits (Nat.pow 10 k))) else none

/-- The double of `significand · 10^exponent` as the reader computes it: the significand
rounded to a double, then multiplied or divided by ten to the exponent's size rounded to a
double; an exponent below -308 first divides by `1e308` until it is in range or the value is
zero. `none` when a product is too large for a double. `fuel` bounds the divisions, of which
three always suffice. -/
def scaleDecimal (fuel : Nat) (f : Float) (exponent : Int) : Option Float :=
  match powerOfTen? exponent.natAbs with
  | some p =>
    if 0 ≤ exponent then
      let g := f * p
      if g.isInf then none else some g
    else some (f / p)
  | none =>
    if f == 0 then some f
    else if 0 ≤ exponent then none
    else
      match fuel, powerOfTen? 308 with
      | fuel + 1, some p => scaleDecimal fuel (f / p) (exponent + 308)
      | _, _ => some f

/-- The double of a significand and a decimal exponent, with a sign. -/
def decimalDouble (negative : Bool) (significand : Nat) (exponent : Int) : Option Float :=
  (scaleDecimal 4 (UInt64.ofNat significand).toFloat exponent).map fun f =>
    if negative then -f else f

/-- An exponent kept in the 32-bit signed range. -/
def clampExponent (e : Int) : Int :=
  max (-Int.pow 2 31) (min e exponentLimit)

/-- Integer digits after the first: each joins the significand until one would take it past
64 bits; from that digit on, digits only count. Gives the significand, the count of digits
that did not join (none when all joined) and the rest of the text. -/
def integerDigits : List Char → Nat → Nat × Option Nat × List Char
  | c :: rest, sig =>
    if c.isDigit then
      let d := c.toNat - 48
      if sig * 10 + d > significandLimit then
        let ds := (c :: rest).takeWhile Char.isDigit
        (sig, some ds.length, skipDigits rest)
      else integerDigits rest (sig * 10 + d)
    else (sig, none, c :: rest)
  | [], sig => (sig, none, [])

/-- Fraction digits: each joins the significand and lowers the exponent until one would take
the significand past 64 bits; that digit and the ones after it are skipped. Also tells whether
a digit was read. -/
def fractionDigits : List Char → Nat → Int → Bool → Nat × Int × Bool × List Char
  | c :: rest, sig, e, seen =>
    if c.isDigit then
      let d := c.toNat - 48
      if sig * 10 + d > significandLimit then (sig, e, true, skipDigits rest)
      else fractionDigits rest (sig * 10 + d) (e - 1) true
    else (sig, e, seen, c :: rest)
  | [], sig, e, seen => (sig, e, seen, [])

/-- Exponent digits after the first: their value, or `none` once it passes the 32-bit signed
range, in which case the remaining digits are skipped. -/
def exponentDigits : List Char → Nat → Option Nat × List Char
  | c :: rest, n =>
    if c.isDigit then
      let m := n * 10 + (c.toNat - 48)
      if m > exponentLimit then (none, skipDigits rest) else exponentDigits rest m
    else (some n, c :: rest)
  | [], n => (some n, [])

/-- The exponent part after the letter, for a significand whose exponent so far is `start`.
An exponent beyond the 32-bit range gives zero when it is negative or the significand is zero,
and is refused otherwise. -/
def exponentPart (negative : Bool) (sig : Nat) (start : Int) (cs : List Char) :
    Option (Float × List Char) :=
  let (expNegative, cs) := match cs with
    | '+' :: r => (false, r)
    | '-' :: r => (true, r)
    | r => (false, r)
  match cs with
  | c :: rest =>
    if !c.isDigit then none
    else
      match exponentDigits rest (c.toNat - 48) with
      | (none, rest') =>
        if sig ≠ 0 && !expNegative then none
        else some ((if negative then -0.0 else 0.0), rest')
      | (some x, rest') =>
        let e := clampExponent (if expNegative then start - x else start + x)
        (decimalDouble negative sig e).map fun f => (f, rest')
  | [] => none

/-- What follows the integer part of a double: a fraction, an exponent, or nothing; `e` is
the exponent so far. -/
def doubleTail (negative : Bool) (sig : Nat) (e : Int) (cs : List Char) :
    Option (Float × List Char) :=
  let ending (sig : Nat) (e : Int) (cs : List Char) : Option (Float × List Char) :=
    match cs with
    | c :: r =>
      if c = 'e' ∨ c = 'E' then exponentPart negative sig e r
      else (decimalDouble negative sig e).map fun f => (f, c :: r)
    | [] => (decimalDouble negative sig e).map fun f => (f, [])
  match cs with
  | '.' :: rest =>
    let (sig, e, seen, rest) := fractionDigits rest sig e false
    if seen then ending sig e rest else none
  | _ => ending sig e cs

/-- The number at the head of the text, after an optional minus sign has been read. -/
def number? (negative : Bool) (cs : List Char) : Option (Value × List Char) :=
  let digits : Option (Nat × Option Nat × List Char) := match cs with
    | '0' :: rest =>
      match rest with
      | c :: _ => if c.isDigit then none else some (0, none, rest)
      | [] => some (0, none, rest)
    | c :: rest => if c.isDigit then some (integerDigits rest (c.toNat - 48)) else none
    | [] => none
  let asDouble (r : Option (Float × List Char)) : Option (Value × List Char) :=
    r.map fun (f, rest) => (.float f.toBits, rest)
  match digits with
  | none => none
  | some (sig, some skipped, rest) => asDouble (doubleTail negative sig skipped rest)
  | some (sig, none, rest) =>
    match rest with
    | c :: _ =>
      if c = '.' ∨ c = 'e' ∨ c = 'E' then asDouble (doubleTail negative sig 0 rest)
      else some (integerValue negative sig, rest)
    | [] => some (integerValue negative sig, rest)
where
  /-- A number without fraction or exponent: an integer, except that a negative one below
  `-2^63`, and `-0`, are doubles. -/
  integerValue (negative : Bool) (sig : Nat) : Value :=
    if !negative then .int sig
    else if sig = 0 then .float 0x8000000000000000
    else if sig ≤ Nat.pow 2 63 then .int (-(sig : Int))
    else .float (-(UInt64.ofNat sig).toFloat).toBits

mutual
/-- A value at the head of the text (after blanks), with `depth` more levels of nesting
allowed and `fuel` bounding the steps. -/
def value? (depth : Nat) : Nat → List Char → Option (Value × List Char)
  | 0, _ => none
  | fuel + 1, cs =>
    match skip cs with
    | 'n' :: 'u' :: 'l' :: 'l' :: rest => some (.null, rest)
    | 't' :: 'r' :: 'u' :: 'e' :: rest => some (.bool true, rest)
    | 'f' :: 'a' :: 'l' :: 's' :: 'e' :: rest => some (.bool false, rest)
    | '"' :: rest => (stringBody rest []).map fun (s, r) => (.str s, r)
    | '-' :: rest => number? true rest
    | '[' :: rest =>
      match depth with
      | 0 => none
      | d + 1 =>
        match skip rest with
        | ']' :: rest' => some (.arr [], rest')
        | _ => (items? d fuel rest []).map fun (xs, r) => (.arr xs, r)
    | '{' :: rest =>
      match depth with
      | 0 => none
      | d + 1 =>
        match skip rest with
        | '}' :: rest' => some (.obj [], rest')
        | _ => (fields? d fuel rest []).map fun (fs, r) => (Value.ofFields fs, r)
    | cs' => number? false cs'

/-- The items of an array after its opening bracket, up to and past the closing one. -/
def items? (depth : Nat) : Nat → List Char → List Value → Option (List Value × List Char)
  | 0, _, _ => none
  | fuel + 1, cs, acc => do
    let (v, rest) ← value? depth fuel cs
    match skip rest with
    | ',' :: rest' => items? depth fuel rest' (v :: acc)
    | ']' :: rest' => some ((v :: acc).reverse, rest')
    | _ => none

/-- The fields of an object after its opening brace, up to and past the closing one. -/
def fields? (depth : Nat) : Nat → List Char → List (String × Value) →
    Option (List (String × Value) × List Char)
  | 0, _, _ => none
  | fuel + 1, cs, acc => do
    let (k, rest) ← match skip cs with
      | '"' :: rest => stringBody rest []
      | _ => none
    let rest ← match skip rest with
      | ':' :: rest => some rest
      | _ => none
    let (v, rest) ← value? depth fuel rest
    match skip rest with
    | ',' :: rest' => fields? depth fuel rest' ((k, v) :: acc)
    | '}' :: rest' => some (((k, v) :: acc).reverse, rest')
    | _ => none
end

end Read

namespace Value

/-- Read a whole text as one JSON value, blanks allowed around it. -/
def parse? (text : String) : Option Value :=
  let cs := text.toList
  match Read.value? 127 (2 * cs.length + 2) cs with
  | some (v, rest) => if (Read.skip rest).isEmpty then some v else none
  | none => none

end Value

end Canopy
