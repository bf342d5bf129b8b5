import Canopy.Json.Value

/-!
# Component state

A state update carries a partial state. Merging it into the current state is shallow: when
both are objects the partial's fields overwrite the state's fields of the same key and the
other fields stay; otherwise the partial replaces the state.
-/

namespace Canopy

/-- Merge a partial state into a state, one level deep. -/
def mergeState (state update : Value) : Value :=
  match state, update with
  | .obj current, .obj fields => .obj (fields.foldl (fun acc (k, v) => Value.insertField k v acc) current)
  | _, p => p

end Canopy
