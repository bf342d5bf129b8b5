import Canopy.Render.Flush

/-!
# Rendering into containers

`Renderer.render` puts a program with props into a container: it updates the container's root
when the root runs the same program, and otherwise unmounts the old root, if any, and mounts
the program afresh; rendering nothing unmounts. The pass's deferred callbacks then run and the
update queue is flushed. A mount that fails leaves no root, though the document nodes and
listeners it created stay.

`Renderer.dispatch` delivers an event to the registrations found on the target and each of its
ancestors below the container, target first, then flushes.
-/

namespace Canopy

namespace Renderer

/-- Mount a program as the root of a container. -/
def mountRoot (c : NodeId) (root : Nat) (program : Program) (props : Value) : RenderM Unit := do
  modify fun r => { r with container := c, events := {} }
  let node ← Pass.mount (program.depth + 1) [root] program { props } { parent := c }
  modify fun r => { r with fibers := r.fibers ++ [{ container := c, root, props, node, events := r.events }] }

/-- Update the root of a container with new props. -/
def updateRoot (c : NodeId) (props : Value) : RenderM Unit := do
  let some f := (← get).fiber? c | return
  modify fun r => { r with container := c, events := f.events }
  let (node, err) ← Pass.updateNode (f.node.program.depth + 1) f.node { props }
  modify fun r => { r with fibers := r.fibers.map fun g =>
    if g.container == c then { g with props, node, events := r.events } else g }
  if let some e := err then throw e

/-- Unmount the root of a container: unmount its node, remove its roots and stop listening. -/
def unmountRoot (c : NodeId) : RenderM Unit := do
  let some f := (← get).fiber? c | return
  modify fun r =>
    let fibers := r.fibers.filter fun g => g.container != c
    { r with fibers, container := c, events := f.events }
  Pass.unmount (f.node.program.depth + 1) f.node
  Pass.removeNodes c f.node.roots
  modify fun r => { r with document := r.events.detachAll r.document c }

/-- Render a numbered program with props into a container, or nothing. -/
def render (tree : Option (Nat × Program × Value)) (c : NodeId) : RenderM Unit := do
  modify fun r => { r with deferred := [] }
  match tree with
  | some (root, program, props) =>
    match (← get).fiber? c with
    | some f =>
      if f.root == root then updateRoot c props
      else
        unmountRoot c
        mountRoot c root program props
    | none => mountRoot c root program props
  | none => unmountRoot c
  Pass.runDeferred
  Pass.flush

/-- The registrations for an event name on a node and its ancestors below a container, target
first; `fuel` bounds the walk. -/
def bubble (d : Document) (events : EventTables) (c : NodeId) (name : String) :
    Nat → NodeId → List Registration
  | 0, _ => []
  | fuel + 1, n =>
    if n == c then []
    else
      let here := (events.lookup name n).toList
      match d.parent? n with
      | some p => here ++ bubble d events c name fuel p
      | none => here

/-- Deliver an event to a container's registrations on the target and its ancestors, then
flush; the answer is the number of handlers run. -/
def dispatch (c target : NodeId) (name : String) (detail : Value) : RenderM Nat := do
  let r ← get
  let some f := r.fiber? c | throw .unknownRoot
  let regs := bubble r.document f.events c name (r.document.nodes.size + 1) target
  for reg in regs do
    let frame := { Pass.callbackFrame (← get) reg.owner with
      props := reg.props, detail := some detail, event := some name }
    match ← RenderM.script frame reg.handler with
    | .error e => throw (.callback .eventHandler e)
    | .ok _ => pure ()
  Pass.flush
  pure regs.length

end Renderer

end Canopy
