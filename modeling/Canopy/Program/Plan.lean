import Canopy.Program.Basic

/-!
# Update and unmount plans

A mount walks every instruction of a program. Only some instructions do anything in a later
pass: dynamic values are recomputed, control structures are brought up to date, did-update
hooks run and refreshing event bindings take the new props. Only some need anything on
unmount: event bindings are released and control structures unmount what they hold. The first
mount of a program collects these in a `PlanBuilder`, instruction after instruction, and
installs the plan when it completes; later passes follow the installed plan.
-/

namespace Canopy

/-- What a later pass does for one instruction. -/
inductive UpdateOp where
  | property (property : Property) (binding : Binding) (slot : Nat)
  | attribute (name : String) (binding : Binding) (slot : Nat)
  /-- Text content or a text node; `opcode` is the instruction's. -/
  | text (opcode : Opcode) (binding : Binding) (slot : Nat)
  | ternary (spec : TernarySpec Program)
  | loop (spec : LoopSpec Program)
  | component (slot : Nat)
  | didUpdate (callback : Script)
  | refreshEvent (name : String) (handler : Script) (slot : Nat)

/-- What unmounting does for one instruction. -/
inductive UnmountOp where
  | releaseEvent (name : String) (slot : Nat)
  | ternary (slot : Nat)
  | loop (slot : Nat)
  | component (slot : Nat)
  deriving DecidableEq, Repr

/-- The plan of a program. -/
structure Plan where
  /-- What a later pass does, in instruction order. -/
  update : List UpdateOp
  /-- What unmounting does, in instruction order. -/
  unmount : List UnmountOp

namespace UpdateOp

/-- The opcode an update op reports: the opcode of the instruction it comes from. -/
def opcode : UpdateOp → Opcode
  | .property p b _ => p.dynamicOpcode b.isComputed
  | .attribute _ b _ => if b.isComputed then .attributeDynamic else .attributeDynamicFromSlot
  | .text op _ _ => op
  | .ternary _ => .ternary
  | .loop _ => .loopMap
  | .component _ => .componentInstance
  | .didUpdate _ => .componentDidUpdate
  | .refreshEvent .. => .eventDynamicBound

/-- The slot an update op works on; a did-update hook has none. -/
def slot? : UpdateOp → Option Nat
  | .property _ _ s | .attribute _ _ s | .text _ _ s | .component s | .refreshEvent _ _ s => some s
  | .ternary t => some t.slot
  | .loop l => some l.slot
  | .didUpdate _ => none

end UpdateOp

namespace UnmountOp

/-- The slot an unmount op works on. -/
def slot : UnmountOp → Nat
  | .releaseEvent _ s | .ternary s | .loop s | .component s => s

end UnmountOp

namespace Instruction

/-- The update ops of one instruction. -/
def updateOps : Instruction → List UpdateOp
  | .dynamicProperty p b s => [.property p b s]
  | .dynamicAttribute n b s => [.attribute n b s]
  | .dynamicText b s => [.text .textDynamicContent b s]
  | i@(.dynamicTextNode b s) => [.text i.opcode b s]
  | .ternary t => [.ternary t]
  | .loop l => [.loop l]
  | .component c => [.component c.slot]
  | .didUpdate cb => [.didUpdate cb]
  | .event n h s refresh => if refresh then [.refreshEvent n h s] else []
  | _ => []

/-- The unmount ops of one instruction. -/
def unmountOps : Instruction → List UnmountOp
  | .ternary t => [.ternary t.slot]
  | .loop l => [.loop l.slot]
  | .component c => [.component c.slot]
  | .event n _ s _ => [.releaseEvent n s]
  | _ => []

end Instruction

/-- The plan of a list of instructions: their ops in instruction order. -/
def Plan.ofInstructions (is : List Instruction) : Plan :=
  ⟨is.flatMap Instruction.updateOps, is.flatMap Instruction.unmountOps⟩

/-- A plan being collected while a mount runs. -/
structure PlanBuilder where
  /-- The ops collected so far. -/
  plan : Plan := ⟨[], []⟩

/-- Push the ops of an instruction a mount has just mounted. -/
def PlanBuilder.push (b : PlanBuilder) (i : Instruction) : PlanBuilder :=
  ⟨⟨b.plan.update ++ i.updateOps, b.plan.unmount ++ i.unmountOps⟩⟩

/-- The plan collected. -/
def PlanBuilder.finish (b : PlanBuilder) : Plan :=
  b.plan

/-- A plan with nothing to do in a later pass. -/
def Plan.isStatic (p : Plan) : Bool :=
  p.update.isEmpty

end Canopy
