/-!
# Longest increasing subsequence

`longestIncreasing sources` picks, among the present entries of a sequence of optional
numbers, a longest run of positions whose values strictly increase, by patience sorting:
`tails` holds for every length `k + 1` the position of the smallest value that ends an
increasing run of that length, and each position records the position before it in its run.
The answer is the run that ends at the last tail, in ascending position order.

Of several longest runs the one chosen is fixed by this procedure: a value replaces the first
tail that is not below it, and the run is read back from the last tail.
-/

namespace Canopy.Sequence

/-- The piles of the patience sort after some prefix of the sequence. -/
structure Piles where
  /-- For each run length `k + 1`, the position of the smallest value ending such a run. -/
  tails : Array Nat
  /-- For each position, the position before it in its run, if any. -/
  previous : Array (Option Nat)

/-- The value at a position, if present. -/
def valueAt (sources : Array (Option Nat)) (i : Nat) : Option Nat :=
  (sources[i]?).bind id

/-- Place the entry at position `i` on the piles: it extends the longest run whose tail value is
below it, and becomes that length's tail. -/
def Piles.place (sources : Array (Option Nat)) (p : Piles) (i : Nat) : Piles :=
  match valueAt sources i with
  | none => p
  | some v =>
    let below (t : Nat) : Bool := match valueAt sources t with
      | some w => decide (w < v)
      | none => false
    let len := (p.tails.toList.takeWhile below).length
    let previous := if len = 0 then p.previous else p.previous.setIfInBounds i p.tails[len - 1]?
    let tails := if len = p.tails.size then p.tails.push i else p.tails.setIfInBounds len i
    ⟨tails, previous⟩

/-- Read a run back from its last position through the recorded predecessors; `acc` holds the
positions read so far, first first. -/
def readBack (previous : Array (Option Nat)) : Nat → Option Nat → List Nat → List Nat
  | 0, _, acc => acc
  | _ + 1, none, acc => acc
  | fuel + 1, some i, acc => readBack previous fuel ((previous[i]?).bind id) (i :: acc)

/-- The positions of a longest strictly increasing run of the present values, ascending. -/
def longestIncreasing (sources : Array (Option Nat)) : List Nat :=
  let piles := (List.range sources.size).foldl (Piles.place sources)
    ⟨#[], Array.replicate sources.size none⟩
  readBack piles.previous sources.size piles.tails.back? []

end Canopy.Sequence
