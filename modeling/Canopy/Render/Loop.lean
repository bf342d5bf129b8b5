import Canopy.Render.State
import Canopy.Sequence.Increasing

/-!
# Keyed loops: projection and matching

A loop pass first projects the collection: every item gets its key and its props, in order.
Two items with one key are refused or thinned to the last of each key, as the configuration
says.

Reconciling a loop's previous items with the projected ones matches the middle range that is
left after the common prefix and suffix. `Matching.linear` probes the next keys from the left
for each previous key; `Matching.indexed` looks each previous key up in an index of the next
keys. With distinct keys on both sides the two give the same matching; the reconciler uses the
index only for ranges of at least 32 items with at least 4 next items.
-/

namespace Canopy

/-- A projected loop item: its key and its props. -/
structure Projected where
  /-- The key. -/
  key : Key
  /-- The props. -/
  props : Value

/-- The key of the first item whose key an earlier item has, found by scanning the items with
the keys seen so far. -/
def Projected.firstRepeat? (seen : List Key) : List Projected → Option Key
  | [] => none
  | p :: ps => if seen.contains p.key then some p.key else firstRepeat? (p.key :: seen) ps

/-- A table of positions by key, as its list of entries. -/
structure KeyPositions where
  /-- The entries, the latest first. -/
  entries : List (Key × Nat)

/-- The position a table holds for a key. -/
def KeyPositions.get? (t : KeyPositions) (k : Key) : Option Nat :=
  (t.entries.find? (·.1 == k)).map (·.2)

/-- Record a position for a key, replacing the key's entry. -/
def KeyPositions.insert (t : KeyPositions) (k : Key) (i : Nat) : KeyPositions :=
  ⟨(k, i) :: t.entries.filter (·.1 != k)⟩

/-- The number of entries of a table. -/
def KeyPositions.size (t : KeyPositions) : Nat :=
  t.entries.length

/-- The last position of each key: every item's position is recorded under its key, in order. -/
def Projected.lastPositions (ps : List Projected) : KeyPositions :=
  ps.zipIdx.foldl (fun last x => last.insert x.1.key x.2) ⟨[]⟩

/-- Keep the items whose position the table `last` holds for their key, counting positions
from `i` as the items go by. -/
def Projected.retainLast (last : KeyPositions) : Nat → List Projected → List Projected
  | _, [] => []
  | i, p :: ps =>
    if last.get? p.key == some i then p :: retainLast last (i + 1) ps else retainLast last (i + 1) ps

/-- Apply a duplicate-key policy: `reject` refuses the first item whose key an earlier item
has; `keepLast` records the last position of each key and, when some key repeats, keeps the
items at those positions. -/
def Projected.dedupe (policy : DuplicateKeyPolicy) (ps : List Projected) :
    Except Key (List Projected) :=
  match policy with
  | .reject =>
    match firstRepeat? [] ps with
    | some k => .error k
    | none => .ok ps
  | .keepLast =>
    let last := lastPositions ps
    if last.size == ps.length then .ok ps else .ok (retainLast last 0 ps)

/-- Project a loop's collection under an env. -/
def project (env : Env) (spec : LoopSpec Program) : RenderM (List Projected) := do
  let items ← match ← Bind.collection env spec.collection with
    | .ok xs => pure xs
    | .error f => throw (.binding .loopMap f)
  let mut out : Array Projected := #[]
  for (item, index) in items.zipIdx do
    let key ← match ← Bind.key env spec.key item index with
      | .ok k => pure k
      | .error f => throw (.binding .loopMap f)
    let props ← match spec.props with
      | some f => match ← Bind.props env f item index with
        | .ok v => pure v
        | .error e => throw (.binding .loopMap e)
      | none => pure env.props
    out := out.push ⟨key, props⟩
  match Projected.dedupe (← get).config.duplicateKeys out.toList with
  | .ok ps => pure ps
  | .error k => throw (.duplicateKey k)

/-- The matching of a middle range: for each next position of the range, the previous
position matched to it; whether a matched item has to move; how many were matched; and the
matched pairs of positions, previous and next, in the order they were found. -/
structure Matching where
  /-- Per next position, counted from the start of the range, its previous position. -/
  sources : Array (Option Nat)
  /-- Whether some matched pair is out of order. -/
  moved : Bool := false
  /-- How many pairs were matched. -/
  synced : Nat := 0
  /-- The pairs, in the order found. -/
  pairs : List (Nat × Nat) := []

namespace Matching

/-- Record that previous position `i` matches next position `j` of a range starting at
`bStart`, where `last` is the greatest next position matched in order so far. -/
def add (m : Matching) (bStart i j : Nat) (last : Nat) : Matching × Nat :=
  let (moved, last) := if j < last then (true, last) else (m.moved, j)
  ({ sources := m.sources.setIfInBounds (j - bStart) (some i), moved, synced := m.synced + 1,
     pairs := m.pairs ++ [(i, j)] }, last)

/-- Match the previous range `[aStart, aEnd)` against the next range `[bStart, bEnd)`, finding
the next position of a previous key with `find`; the walk stops once every next position is
matched. -/
def run (find : Matching → Nat → Option Nat) (aStart aEnd bStart bEnd : Nat) : Matching :=
  let bLen := bEnd - bStart
  let step (acc : Matching × Nat) (i : Nat) : Matching × Nat :=
    let (m, last) := acc
    if m.synced = bLen then acc
    else match find m i with
      | some j => m.add bStart i j last
      | none => acc
  ((List.range' aStart (aEnd - aStart)).foldl step
    ({ sources := Array.replicate bLen none }, 0)).1

/-- Match by probing the next keys from the left: the first unmatched next position with the
previous key. -/
def linear (aKeys bKeys : Array Key) (aStart aEnd bStart bEnd : Nat) : Matching :=
  run (fun m i => (List.range' bStart (bEnd - bStart)).find? fun j =>
      (m.sources[j - bStart]?).join.isNone && bKeys[j]? == aKeys[i]?)
    aStart aEnd bStart bEnd

/-- Match through an index of the next keys: the next position of the previous key, the last
one if the key occurred twice. -/
def indexed (aKeys bKeys : Array Key) (aStart aEnd bStart bEnd : Nat) : Matching :=
  let index := (List.range' bStart (bEnd - bStart)).filterMap fun j => (bKeys[j]?).map (·, j)
  run (fun _ i => match aKeys[i]? with
      | some k => (index.reverse.find? (·.1 == k)).map (·.2)
      | none => none)
    aStart aEnd bStart bEnd

/-- Whether a middle range is matched by linear probing rather than through an index. -/
def probesLinearly (aLen bLen : Nat) : Bool :=
  (aLen < 32 && bLen < 32) || bLen < 4

end Matching

end Canopy
