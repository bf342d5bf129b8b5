import Canopy.Render.Node
import Canopy.Program.Plan
import Canopy.Render.Events
import Canopy.Render.Error
import Canopy.Script.Eval
import Canopy.Document.Html

/-!
# The renderer

The renderer holds the document, the mounted root of each container (its fiber), every
component instance it has created, the registry of mounted instances, the scripts' log and
update queue, and the plans installed for the programs mounted so far. A pass (a mount, update or unmount) also
works on the event tables of the root it renders and collects deferred callbacks, which run
last first when the pass is over.

Passes run in `RenderM`: they stop at the first error, and what they did before it stays done.
-/

namespace Canopy

/-- What a loop does with two items of one collection that share a key. -/
inductive DuplicateKeyPolicy where
  /-- Refuse the collection. -/
  | reject
  /-- Keep the last item of each key. -/
  | keepLast
  deriving DecidableEq, Repr

/-- The renderer's options. -/
structure Config where
  /-- How many flush rounds may run before the queue must be empty. -/
  maxFlushRounds : Nat := 64
  /-- What loops do with duplicate keys. -/
  duplicateKeys : DuplicateKeyPolicy := .reject
  /-- Whether a ternary whose test changes mounts the other branch. -/
  rebranchTernaries : Bool := true

/-- A callback that runs when a pass or flush round is over. -/
inductive Deferred where
  /-- A did-mount or did-update hook, with the instance it belongs to. -/
  | lifecycle (kind : CallbackKind) (callback : Script) (owner : Option InstanceId)
  /-- The callback of an applied state update. -/
  | settled (callback : Script) (owner : InstanceId)

/-- The mounted root of a container. -/
structure Fiber where
  /-- The container. -/
  container : NodeId
  /-- The number of the root program. -/
  root : Nat
  /-- The props of the last render. -/
  props : Value
  /-- The mounted node of the root program. -/
  node : Mounted
  /-- The delegated event tables. -/
  events : EventTables

/-- The renderer's state. -/
structure Renderer where
  /-- The options. -/
  config : Config := {}
  /-- The document. -/
  document : Document := {}
  /-- The procedures scripts may call. -/
  procs : Procedures := []
  /-- The mounted roots. -/
  fibers : List Fiber := []
  /-- Every component instance created, the one with id `k` at position `k - 1`. -/
  instances : Array Instance := #[]
  /-- The registered instances, each with the container it was mounted under. -/
  registry : List (InstanceId × NodeId) := []
  /-- The scripts' log and update queue. -/
  effects : Effects := {}
  /-- The plans installed so far, with the site of their program. -/
  plans : List (List Nat × Plan) := []
  /-- The container of the pass in progress. -/
  container : NodeId := 0
  /-- The event tables of the pass in progress. -/
  events : EventTables := {}
  /-- The deferred callbacks of the pass in progress, last first. -/
  deferred : List Deferred := []

/-- A computation of the renderer: it may stop with an error, keeping what it did. -/
abbrev RenderM := EStateM RenderError Renderer

/-- The props and instance a pass renders with. -/
structure Env where
  /-- The component instance that owns the program, if any. -/
  owner : Option InstanceId := none
  /-- The props in effect. -/
  props : Value

/-- Where a pass places the roots of a program: under `parent`, before `anchor` or last. -/
structure Target where
  /-- The parent of the roots. -/
  parent : NodeId
  /-- The node the roots go before, if any. -/
  anchor : Option NodeId := none

namespace Renderer

/-- The instance with an id. -/
def instance? (r : Renderer) (id : InstanceId) : Option Instance :=
  r.instances[id.raw - 1]?

/-- The fiber of a container. -/
def fiber? (r : Renderer) (c : NodeId) : Option Fiber :=
  r.fibers.find? (·.container == c)

/-- The plan installed for the program at a site. -/
def planAt? (r : Renderer) (site : List Nat) : Option Plan :=
  (r.plans.find? (·.1 == site)).map (·.2)

/-- Whether a container has a mounted root. -/
def isMounted (r : Renderer) (c : NodeId) : Bool :=
  (r.fiber? c).isSome

/-- The number of event names a container's root listens to. -/
def listenerCount (r : Renderer) (c : NodeId) : Nat :=
  ((r.fiber? c).map (·.events.listenerCount)).getD 0

/-- The number of registrations for an event name in a container's root. -/
def handlerCount (r : Renderer) (c : NodeId) (name : String) : Nat :=
  ((r.fiber? c).map (·.events.handlerCount name)).getD 0

/-- The number of queued updates. -/
def pendingUpdates (r : Renderer) : Nat :=
  r.effects.queue.length

/-- The number of registered component instances. -/
def componentCount (r : Renderer) : Nat :=
  r.registry.length

/-- The frame of a script run under an env: its props, its owner and the owner's state. -/
def frameOf (r : Renderer) (env : Env) : Frame :=
  { props := env.props, owner := env.owner,
    state := env.owner.bind fun id => (r.instance? id).map (·.state) }

end Renderer

namespace RenderM

/-- Change the document. -/
def doc (f : Document → Document) : RenderM Unit :=
  modify fun r => { r with document := f r.document }

/-- Change the document and take a result. -/
def docWith (f : Document → α × Document) : RenderM α := do
  let r ← get
  let (a, d) := f r.document
  set { r with document := d }
  pure a

/-- Run a script in a frame; its log entries and queued updates stay either way. -/
def script (frame : Frame) (s : Script) : RenderM (Except ScriptError Value) := fun r =>
  match (Script.run r.procs frame s).run r.effects with
  | .ok v fx => .ok (.ok v) { r with effects := fx }
  | .error e fx => .ok (.error e) { r with effects := fx }

/-- Push a deferred callback. -/
def defer (d : Deferred) : RenderM Unit :=
  modify fun r => { r with deferred := d :: r.deferred }

/-- Change an instance. -/
def modifyInstance (id : InstanceId) (f : Instance → Instance) : RenderM Unit :=
  modify fun r => { r with instances := r.instances.modify (id.raw - 1) f }

/-- Install the plan a mount collected for the program at a site, if it collected one; the
first plan installed for a program stays. -/
def installPlan (site : List Nat) : Option Plan → RenderM Unit
  | none => pure ()
  | some plan =>
    modify fun r => if (r.planAt? site).isSome then r else { r with plans := r.plans ++ [(site, plan)] }

/-- Run an action and hand back its error as a value instead of stopping. -/
def attempt (act : RenderM α) : RenderM (Except RenderError α) :=
  tryCatch (Except.ok <$> act) fun e => pure (.error e)

end RenderM

/-! ## Running a program's functions -/

namespace Bind

/-- Compute a dynamic value. -/
def compute (env : Env) (s : Script) : RenderM (Except BindingFailure Value) := do
  let r ← get
  return (← RenderM.script (r.frameOf env) s).mapError .script

/-- Run a ternary's test, which must give a bool. -/
def test (env : Env) (s : Script) : RenderM (Except BindingFailure Bool) := do
  let r ← get
  return match ← RenderM.script (r.frameOf env) s with
    | .ok (.bool b) => .ok b
    | .ok v => .error (.notBool v)
    | .error e => .error (.script e)

/-- Run a loop's collection function, which must give an array. -/
def collection (env : Env) (s : Script) : RenderM (Except BindingFailure (List Value)) := do
  let r ← get
  return match ← RenderM.script (r.frameOf env) s with
    | .ok (.arr xs) => .ok xs
    | .ok v => .error (.notArray v)
    | .error e => .error (.script e)

/-- The frame of an item projection. -/
def itemFrame (r : Renderer) (env : Env) (item : Value) (index : Nat) : Frame :=
  { r.frameOf env with item := some item, index := some index }

/-- Run a loop's key function on an item. -/
def key (env : Env) (s : Script) (item : Value) (index : Nat) :
    RenderM (Except BindingFailure Key) := do
  let r ← get
  return match ← RenderM.script (itemFrame r env item index) s with
    | .ok v => (Key.ofValue v).mapError .invalidKey
    | .error e => .error (.script e)

/-- Run a loop's props function on an item. -/
def props (env : Env) (s : Script) (item : Value) (index : Nat) :
    RenderM (Except BindingFailure Value) := do
  let r ← get
  return (← RenderM.script (itemFrame r env item index) s).mapError .script

/-- Run a loop's should-update function: only the JSON `true` says yes, and a failure says no. -/
def shouldUpdate (env : Env) (s : Script) (prev next : Value) : RenderM Bool := do
  let r ← get
  let frame := { r.frameOf env with prev := some prev, next := some next }
  return match ← RenderM.script frame s with
    | .ok v => v.isTrue
    | .error _ => false

/-- Run a component's factory on its props. -/
def factory (props : Value) (s : Script) : RenderM (Except BindingFailure Value) := do
  return (← RenderM.script { props } s).mapError .script

end Bind

end Canopy
