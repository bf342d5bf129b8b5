import Canopy.Render.Update

/-!
# Deferred callbacks and the update queue

Deferred callbacks run last first once their pass or flush round is over; the first that fails
stops the rest.

Flushing drains the update queue in rounds. A round applies entries in queue order, the ones
queued while it runs included, then runs the callbacks the round deferred. An entry whose
instance is no longer registered, is unmounted or has no node left in its root changes
nothing. Otherwise its partial state (given, or computed by its updater from the instance's
state and props) is merged into the state, the instance's node is updated, and its callback,
if any, is deferred. When the queue is still not empty after the allowed number of rounds,
flushing stops with an update-loop error.
-/

namespace Canopy

namespace Pass

/-- The frame a callback of an instance sees: the instance's props, itself and its state; null
props without an instance. -/
def callbackFrame (r : Renderer) (owner : Option InstanceId) : Frame :=
  match owner.bind r.instance? with
  | some inst => inst.frame
  | none => { props := .null, owner := owner }

/-- Run the deferred callbacks of the pass, last first. -/
def runDeferred : RenderM Unit := do
  let ds := (← get).deferred
  modify fun r => { r with deferred := [] }
  for d in ds do
    match d with
    | .lifecycle kind cb owner =>
      match ← RenderM.script (callbackFrame (← get) owner) cb with
      | .error e => throw (.callback kind e)
      | .ok _ => pure ()
    | .settled cb owner =>
      match ← RenderM.script (callbackFrame (← get) (some owner)) cb with
      | .error e => throw (.callback .stateSettled e)
      | .ok _ => pure ()

/-- The update pass over a node of an instance, with the instance's props. -/
def updateInstanceNode (id : InstanceId) (props : Value) (node : Mounted) :
    RenderM (Mounted × Option RenderError) :=
  updateNode (node.program.depth + 1) node { owner := some id, props }

/-- Apply one queued update. -/
def applyUpdate (u : QueuedUpdate) : RenderM Unit := do
  let r ← get
  let some c := r.registry.lookup u.target | return
  let some inst := r.instance? u.target | return
  if !inst.mounted then return
  let some f := r.fiber? c | return
  let some path := f.node.findComponent u.target | return
  let some node := f.node.get? path | return
  let partialState ← match u.update with
    | .patch v => pure v
    | .updater s =>
      match ← RenderM.script { props := inst.props, state := some inst.state } s with
      | .ok v => pure v
      | .error e => throw (.callback .stateUpdater e)
  RenderM.modifyInstance u.target fun i => { i with state := mergeState i.state partialState }
  modify fun r => { r with container := c, events := f.events }
  let (node', err) ← updateInstanceNode u.target inst.props node
  modify fun r => { r with fibers := r.fibers.map fun g =>
    if g.container == c then { g with node := g.node.setAt path node', events := r.events } else g }
  match err with
  | some e => throw e
  | none => if let some cb := u.callback then RenderM.defer (.settled cb u.target)

/-- How many entries one flush round applies at most beyond the ones queued when it starts. A
round applies every entry there is, the ones queued while it runs included; the bound is far
above what scripts can queue in any run that ends, and only keeps the drain a total function. -/
def drainLimit : Nat := Nat.pow 2 48

/-- Apply queued updates, oldest first, until the queue is empty; `fuel` bounds how many. -/
def drainFor : Nat → RenderM Unit
  | 0 => pure ()
  | fuel + 1 => do
    match (← get).effects.queue.pop? with
    | none => pure ()
    | some (u, rest) =>
      modify fun r => { r with effects := { r.effects with queue := rest } }
      applyUpdate u
      drainFor fuel

/-- Apply queued updates until the queue is empty. -/
def drain (rounds : Nat) : RenderM Unit := do
  drainFor ((← get).effects.queue.length + drainLimit)
  if !(← get).effects.queue.isEmpty then throw (.updateLoop rounds)

/-- One flush round, numbered `round`: drain the queue, then run the callbacks the round
deferred. -/
def flushRound (round : Nat) : RenderM Unit := do
  modify fun r => { r with deferred := [] }
  drain round
  runDeferred

/-- Run flush rounds while the queue is not empty, after `done` rounds and with `left` more
allowed; a queue still not empty when none is left is an update loop. -/
def flushRounds : Nat → Nat → RenderM Unit
  | 0, done => do
    if !(← get).effects.queue.isEmpty then throw (.updateLoop done)
  | left + 1, done => do
    if (← get).effects.queue.isEmpty then return
    flushRound (done + 1)
    flushRounds left (done + 1)

/-- Flush the update queue in rounds. -/
def flush : RenderM Unit := do
  flushRounds (← get).config.maxFlushRounds 0

end Pass

end Canopy
