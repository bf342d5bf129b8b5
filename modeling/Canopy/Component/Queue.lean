import Canopy.Script.Basic
import Canopy.Component.State

/-!
# Component instances and their update queue

A component instance has an identity, props, state and a mounted flag. Asking an instance to
change its state never changes it at once: it appends a queued update to the queue, which is
drained later in first-in, first-out order. An update is either a partial state, merged into
the state when it is applied, or an updater script that computes the partial state from the
state and props of that moment. An update may carry a callback, which runs once the update
has been applied.
-/

namespace Canopy

/-- A state change asked of a component instance. -/
inductive StateUpdate where
  /-- A partial state, given now. -/
  | patch (partialState : Value)
  /-- A script that computes the partial state from the state and props it is applied to. -/
  | updater (script : Script)

/-- An entry of the update queue. -/
structure QueuedUpdate where
  /-- The instance whose state changes. -/
  target : InstanceId
  /-- The change. -/
  update : StateUpdate
  /-- The script that runs after the change has been applied, if any. -/
  callback : Option Script

/-- The update queue. Entries leave from the front in the order they were pushed; the entries
pushed since the front was last refilled wait in `back`, newest first, so that pushing and
popping both take constant time on average. -/
structure UpdateQueue where
  /-- The oldest entries, oldest first. -/
  front : List QueuedUpdate := []
  /-- The newest entries, newest first. -/
  back : List QueuedUpdate := []

namespace UpdateQueue

/-- The entries, oldest first. -/
def toList (q : UpdateQueue) : List QueuedUpdate :=
  q.front ++ q.back.reverse

/-- Append an entry. -/
def push (q : UpdateQueue) (u : QueuedUpdate) : UpdateQueue :=
  { q with back := u :: q.back }

/-- Take the oldest entry, if there is one. -/
def pop? (q : UpdateQueue) : Option (QueuedUpdate × UpdateQueue) :=
  match q.front with
  | u :: rest => some (u, { q with front := rest })
  | [] =>
    match q.back.reverse with
    | [] => none
    | u :: rest => some (u, { front := rest, back := [] })

/-- Whether the queue holds no entry. -/
def isEmpty (q : UpdateQueue) : Bool :=
  q.front.isEmpty && q.back.isEmpty

/-- The number of entries. -/
def length (q : UpdateQueue) : Nat :=
  q.front.length + q.back.length

end UpdateQueue

/-- A component instance. -/
structure Instance where
  /-- Its identity. -/
  id : InstanceId
  /-- Its props. -/
  props : Value
  /-- Its state. -/
  state : Value
  /-- Whether it is still in a mounted tree. -/
  mounted : Bool := true

/-- The frame of a script that runs for an instance: its props, itself and its state. -/
def Instance.frame (inst : Instance) : Frame :=
  { props := inst.props, owner := some inst.id, state := some inst.state }

end Canopy
