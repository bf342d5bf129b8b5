import Canopy.Component.Queue
import Canopy.Json.Inspect

/-!
# Inspection texts of instances and queued updates

The diagnostic texts of instance identities, state updates, queued updates, the update queue and
component instances. A partial state shows its value's inspection text; an updater shows only
that it is one, since a script has no text of its own here.
-/

namespace Canopy

/-- The inspection text of an instance identity. -/
def InstanceId.inspect (id : InstanceId) : String :=
  "InstanceId(" ++ toString id.raw ++ ")"

/-- The short text of an instance identity. -/
def InstanceId.display (id : InstanceId) : String :=
  "#" ++ toString id.raw

/-- The inspection text of a state update. -/
def StateUpdate.inspect : StateUpdate → String
  | .patch v => "Partial(" ++ v.inspect ++ ")"
  | .updater _ => "Updater(..)"

/-- The inspection text of a queued update. -/
def QueuedUpdate.inspect (u : QueuedUpdate) : String :=
  "QueuedUpdate \x7b target: " ++ u.target.inspect ++ ", update: " ++ u.update.inspect ++
    ", callback: " ++ toString u.callback.isSome ++ " \x7d"

/-- The inspection text of an update queue of a given length. -/
def queueInspect (length : Nat) : String :=
  "UpdateQueue \x7b len: " ++ toString length ++ " \x7d"

/-- The inspection text of a component instance. -/
def Instance.inspect (i : Instance) : String :=
  "ComponentInstance \x7b id: " ++ i.id.inspect ++ ", props: " ++ i.props.inspect ++
    ", state: " ++ i.state.inspect ++ ", mounted: " ++ toString i.mounted ++ " \x7d"

end Canopy
