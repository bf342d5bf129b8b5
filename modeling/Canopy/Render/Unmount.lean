import Canopy.Render.Mount
import Canopy.Program.Plan

/-!
# Unmounting

Unmounting a node follows the plan installed for its program, and does nothing without one:
event bindings are released, ternaries unmount their
branch, loops their items, and components are marked unmounted, leave the registry and unmount
their node. It changes no document node: whoever unmounts a node removes its roots.
-/

namespace Canopy

namespace Pass

/-- Drop an element's registration from the pass's root. -/
def release (name : String) (e : NodeId) : RenderM Unit :=
  modify fun r => { r with events := r.events.release name e }

/-- Mark an instance unmounted and take it out of the registry. -/
def retire (id : InstanceId) : RenderM Unit := do
  RenderM.modifyInstance id fun i => { i with mounted := false }
  modify fun r => { r with registry := r.registry.filter (·.1 != id) }

/-- Carry out one unmount op of a node, handing nested nodes to `sub`. -/
def unmountOp (sub : Mounted → RenderM Unit) (node : Mounted) : UnmountOp → RenderM Unit
  | .releaseEvent name s =>
    match node.slot? s with
    | some (.event e) => release name e
    | _ => pure ()
  | .ternary s =>
    match node.slot? s with
    | some (.ternary _ b _ _) => sub b
    | _ => pure ()
  | .loop s =>
    match node.slot? s with
    | some (.loop _ items) => for it in items do sub it.node
    | _ => pure ()
  | .component s =>
    match node.slot? s with
    | some (.component id n) => do
      retire id
      sub n
    | _ => pure ()

/-- Unmount a node by the installed plan of its program; `fuel` bounds how deep nodes nest. -/
def unmount : Nat → Mounted → RenderM Unit
  | 0, _ => pure ()
  | fuel + 1, node => do
    match (← get).planAt? node.site with
    | none => pure ()
    | some plan =>
      for op in plan.unmount do
        unmountOp (unmount fuel) node op

/-- Remove document nodes from a parent, in order. -/
def removeNodes (parent : NodeId) (ns : List NodeId) : RenderM Unit :=
  for n in ns do RenderM.doc (·.removeChild parent n)

/-- Insert document nodes into a parent before an anchor, in order. -/
def insertNodes (parent : NodeId) (ns : List NodeId) (anchor : Option NodeId) : RenderM Unit :=
  for n in ns do RenderM.doc (·.insertBefore parent n anchor)

end Pass

end Canopy
