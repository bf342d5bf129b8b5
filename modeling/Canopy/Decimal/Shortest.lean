/-!
# Shortest decimal digits of a double

A finite double is `m · 2^q` exactly. Every real strictly between it and the midpoints to its
two neighbours reads back as that double, and so do the midpoints themselves when `m` is even
(a tie goes to the even significand). `Shortest.ofBits` finds the decimal `d · 10^k` inside that
interval with the fewest significant digits; when two such decimals exist it takes the one
nearer to the double, and of two equally near the even one.

All arithmetic is exact on natural numbers: `a · 2^e` is compared with `d · 10^k` after both
sides are multiplied by the powers that make every exponent non-negative.
-/

namespace Canopy.Decimal

/-- A finite double taken apart: its value is `(-1)^negative · significand · 2^exponent`. -/
structure Binary where
  /-- The sign bit. -/
  negative : Bool
  /-- The integer significand, with the hidden bit of a normal double included. -/
  significand : Nat
  /-- The binary exponent of the significand's last bit. -/
  exponent : Int
  /-- The significand is the least normal one, so the gap to the next smaller double is half
  the gap to the next larger one. -/
  narrowBelow : Bool

/-- Take the bits of a double apart. Infinities and NaNs are read as if they were finite; the
callers never pass one. -/
def Binary.ofBits (bits : UInt64) : Binary :=
  let frac := (bits &&& 0xFFFFFFFFFFFFF).toNat
  let biased := ((bits >>> 52) &&& 0x7FF).toNat
  let negative := bits >>> 63 == 1
  if biased = 0 then ⟨negative, frac, -1074, false⟩
  else ⟨negative, frac + Nat.pow 2 52, (biased : Int) - 1075, frac = 0 && biased > 1⟩

/-- A decimal `(-1)^negative · digits · 10^exponent`. -/
structure Scientific where
  /-- The sign. -/
  negative : Bool
  /-- The significant digits as one number; zero only for a zero. -/
  digits : Nat
  /-- The decimal exponent of the last digit. -/
  exponent : Int

/-- Compare `a · 2^e` with `d · 10^k`, exactly. -/
def compareScaled (a : Nat) (e : Int) (d : Nat) (k : Int) : Ordering :=
  compare (a * Nat.pow 2 e.toNat * Nat.pow 10 (-k).toNat)
    (d * Nat.pow 10 k.toNat * Nat.pow 2 (-e).toNat)

/-- `⌊a · 2^e / 10^k⌋`. -/
def floorScaled (a : Nat) (e : Int) (k : Int) : Nat :=
  (a * Nat.pow 2 e.toNat * Nat.pow 10 (-k).toNat) / (Nat.pow 10 k.toNat * Nat.pow 2 (-e).toNat)

/-- The number of decimal digits of a positive natural number. -/
def digitCount (n : Nat) : Nat :=
  (Nat.toDigits 10 n).length

/-- The exponent `t` with `10^t ≤ a · 2^e < 10^(t+1)`, for `a > 0`: a first guess from the
binary length, then corrected by at most a few exact comparisons. -/
def floorLog10 (a : Nat) (e : Int) : Int :=
  let guess : Int := ((Nat.log2 a : Int) + e) * 30103 / 100000
  let rec fix : Nat → Int → Int
    | 0, t => t
    | fuel + 1, t =>
      if compareScaled a e 1 t == .lt then fix fuel (t - 1)
      else if compareScaled a e 1 (t + 1) != .lt then fix fuel (t + 1)
      else t
  fix 8 guess

/-- Whether `d · 10^k` lies in the interval of reals that read back as the double, given as
`lo · 2^e` to `hi · 2^e`, its ends included when `closed`. -/
def inInterval (lo hi : Nat) (e : Int) (closed : Bool) (d : Nat) (k : Int) : Bool :=
  let above := match compareScaled lo e d k with
    | .lt => true
    | .eq => closed
    | .gt => false
  let below := match compareScaled hi e d k with
    | .gt => true
    | .eq => closed
    | .lt => false
  above && below

/-- Drop trailing zero digits, raising the exponent. -/
def trimZeros : Nat → Nat → Int → Nat × Int
  | 0, d, k => (d, k)
  | fuel + 1, d, k => if d ≠ 0 ∧ d % 10 = 0 then trimZeros fuel (d / 10) (k + 1) else (d, k)

/-- The shortest decimal that reads back as the positive double `v · 2^e` (with `v = 4m`), whose
interval is `lo · 2^e` to `hi · 2^e`: try 1 to 17 significant digits, and at each count the two
grid points around the value. -/
def search (v lo hi : Nat) (e : Int) (closed : Bool) (t : Int) : Nat × Int :=
  let rec go : Nat → Nat → Nat × Int
    | 0, _ => (floorScaled v e (t - 16), t - 16)
    | fuel + 1, n =>
      let k := t - n + 1
      let down := floorScaled v e k
      let up := down + 1
      let inDown := inInterval lo hi e closed down k
      let inUp := inInterval lo hi e closed up k
      if inDown && inUp then
        match compareScaled (2 * v) e (down + up) k with
        | .lt => (down, k)
        | .gt => (up, k)
        | .eq => if down % 2 = 0 then (down, k) else (up, k)
      else if inDown then (down, k)
      else if inUp then (up, k)
      else go fuel (n + 1)
  go 17 1

/-- The shortest decimal of a finite double, nearest of the shortest, with trailing zeros
removed. A zero has digits `0` and exponent `0`, and keeps its sign. -/
def Scientific.ofBits (bits : UInt64) : Scientific :=
  let b := Binary.ofBits bits
  if b.significand = 0 then ⟨b.negative, 0, 0⟩
  else
    let v := 4 * b.significand
    let lo := if b.narrowBelow then v - 1 else v - 2
    let hi := v + 2
    let e := b.exponent - 2
    let (d, k) := search v lo hi e (b.significand % 2 == 0) (floorLog10 v e)
    let (d, k) := trimZeros 17 d k
    ⟨b.negative, d, k⟩

end Canopy.Decimal
