/-!
# JSON values

Props, component state, loop items and event details are JSON values. A number keeps the
kind the text gave it: an integer literal inside the 64-bit ranges is an `int`, every other
number is a `float`, held by the bits of its IEEE-754 double, so `1` and `1.0` stay apart.
An object keeps its fields sorted by key, each key once, which is also the order in which
it is written out.

Equality is the program's own comparison: numbers of different kinds differ, two doubles
are equal when they denote the same number (so `0.0` equals `-0.0`), arrays and objects are
equal field by field.
-/

namespace Canopy

/-- A JSON value. An `int` lies in `[-2^63, 2^64)`; a `float` is a finite double given by its
bits; the fields of an `obj` are sorted by key and their keys are distinct. -/
inductive Value where
  | null
  | bool (b : Bool)
  | int (n : Int)
  | float (bits : UInt64)
  | str (s : String)
  | arr (items : List Value)
  | obj (fields : List (String × Value))
  deriving Inhabited

namespace Value

/-- Two doubles denote the same number: the same bits, or both are zeros of either sign. -/
def sameDouble (a b : UInt64) : Bool :=
  a == b || (a <<< 1 == 0 && b <<< 1 == 0)

mutual
/-- Equality of values, kind by kind. -/
def beq : Value → Value → Bool
  | .null, .null => true
  | .bool a, .bool b => a == b
  | .int a, .int b => a == b
  | .float a, .float b => sameDouble a b
  | .str a, .str b => a == b
  | .arr xs, .arr ys => beqItems xs ys
  | .obj xs, .obj ys => beqFields xs ys
  | _, _ => false

/-- Equality of two item lists, position by position. -/
def beqItems : List Value → List Value → Bool
  | [], [] => true
  | x :: xs, y :: ys => beq x y && beqItems xs ys
  | _, _ => false

/-- Equality of two field lists, position by position. -/
def beqFields : List (String × Value) → List (String × Value) → Bool
  | [], [] => true
  | (k, x) :: xs, (l, y) :: ys => k == l && beq x y && beqFields xs ys
  | _, _ => false
end

instance : BEq Value := ⟨beq⟩

/-- The JSON `true`, the only value that counts as true. -/
def isTrue : Value → Bool
  | .bool true => true
  | _ => false

/-- The field of an object with the given key; `none` for a missing key or a non-object. -/
def field? (v : Value) (k : String) : Option Value :=
  match v with
  | .obj fs => fs.lookup k
  | _ => none

/-- Insert a field into a sorted field list, replacing the value of an existing key. -/
def insertField (k : String) (v : Value) : List (String × Value) → List (String × Value)
  | [] => [(k, v)]
  | (l, w) :: rest =>
    if k < l then (k, v) :: (l, w) :: rest
    else if k = l then (k, v) :: rest
    else (l, w) :: insertField k v rest

/-- An object from fields in any order; a later field with a key already seen wins. -/
def ofFields (fs : List (String × Value)) : Value :=
  .obj (fs.foldl (fun acc (k, v) => insertField k v acc) [])

/-- Integers that fit a signed 64-bit word. -/
def inI64 (n : Int) : Bool :=
  -9223372036854775808 ≤ n && n ≤ 9223372036854775807

/-- The value as a signed 64-bit integer, if it is an integer in that range. -/
def asI64? : Value → Option Int
  | .int n => if inI64 n then some n else none
  | _ => none

/-- The value as a natural number, if it is a non-negative integer. -/
def asNat? : Value → Option Nat
  | .int n => if 0 ≤ n then some n.toNat else none
  | _ => none

end Value

end Canopy
