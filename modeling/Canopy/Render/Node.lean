import Canopy.Program.Basic
import Canopy.Loop.Key
import Canopy.Document.Basic

/-!
# Mounted nodes

Mounting a program yields a mounted node: the program, its site, the document nodes it placed
at its target (its roots, in order, some of them standing for whatever a ternary or component
slot currently holds there) and one slot per slot index of the program. A slot holds what a
later pass needs: a dynamic value and the document node it was written to, an event binding's
element, a ternary's branch, a loop's items, or a component's instance and node.

The site of a node names the program it came from: the root program's number, then for each
sub-program on the way down the position of its instruction and which of its sub-programs it is.
-/

namespace Canopy

/-- A root of a mounted node: a document node it placed, or a slot whose roots stand there. -/
inductive RootRef where
  | host (node : NodeId)
  | slot (index : Nat)
  deriving DecidableEq, Repr

/-- A loop item: its key, its props and its mounted node. -/
structure LoopItem (N : Type) where
  /-- The item's key. -/
  key : Key
  /-- The props the item was last mounted or patched with. -/
  props : Value
  /-- The item's mounted node. -/
  node : N

mutual
/-- What a slot of a mounted node holds. -/
inductive Slot where
  | empty
  /-- A dynamic value and the document node it was written to. -/
  | leaf (handle : NodeId) (value : Value)
  /-- The element an event binding is registered on. -/
  | event (handle : NodeId)
  /-- A ternary: the test's last result, the mounted branch, the empty text node that marks
  the place of a branch without roots, and the parent it was placed under. -/
  | ternary (decision : Bool) (branch : Mounted) (marker : Option NodeId) (parent : NodeId)
  /-- A loop: the element its items are placed under, and the items in order. -/
  | loop (parent : NodeId) (items : List (LoopItem Mounted))
  /-- A component: its instance and the node of its program. -/
  | component (owner : InstanceId) (node : Mounted)

/-- A mounted node: its site, its program, its roots and its slots. -/
inductive Mounted where
  | mk (site : List Nat) (program : Program) (rootRefs : List RootRef) (slots : Array Slot)
end

instance : Inhabited Slot := ⟨.empty⟩
instance : Inhabited Mounted := ⟨.mk [] default [] #[]⟩

namespace Mounted

/-- The site of a node. -/
def site : Mounted → List Nat
  | .mk s _ _ _ => s

/-- The program of a node. -/
def program : Mounted → Program
  | .mk _ p _ _ => p

/-- The roots of a node as it placed them. -/
def rootRefs : Mounted → List RootRef
  | .mk _ _ r _ => r

/-- The slots of a node. -/
def slots : Mounted → Array Slot
  | .mk _ _ _ s => s

/-- A fresh node of a program at a site: no roots, every slot empty. -/
def fresh (site : List Nat) (p : Program) : Mounted :=
  .mk site p [] (Array.replicate p.slotCount .empty)

/-- The slot at an index. -/
def slot? (n : Mounted) (i : Nat) : Option Slot :=
  n.slots[i]?

/-- Put a slot at an index. -/
def setSlot (n : Mounted) (i : Nat) (s : Slot) : Mounted :=
  .mk n.site n.program n.rootRefs (n.slots.setIfInBounds i s)

/-- Add a root. -/
def addRoot (n : Mounted) (r : RootRef) : Mounted :=
  .mk n.site n.program (n.rootRefs ++ [r]) n.slots

end Mounted

mutual
/-- The document nodes a mounted node occupies at its target, in order: its own roots, and in
place of a slot root the marker or branch roots of a ternary, or the roots of a component. -/
def Mounted.roots : Mounted → List NodeId
  | .mk _ _ refs slots =>
    let perSlot := Slot.rootsOfArray slots
    refs.flatMap fun r => match r with
      | .host n => [n]
      | .slot s => (perSlot[s]?).getD []

/-- The roots each slot of an array stands for. -/
def Slot.rootsOfArray : Array Slot → List (List NodeId)
  | ⟨l⟩ => Slot.rootsOfList l

/-- The roots each slot of a list stands for. -/
def Slot.rootsOfList : List Slot → List (List NodeId)
  | [] => []
  | s :: rest => s.roots :: Slot.rootsOfList rest

/-- The roots a slot stands for: a ternary's marker or its branch's roots, a component's
node's roots, nothing for any other slot. -/
def Slot.roots : Slot → List NodeId
  | .ternary _ b m _ => match m with
    | some x => [x]
    | none => b.roots
  | .component _ n => n.roots
  | _ => []
end

/-- The first root of a node. -/
def Mounted.firstRoot? (n : Mounted) : Option NodeId :=
  n.roots.head?

/-- A step from a mounted node to a node inside one of its slots. -/
inductive Step where
  /-- The branch of the ternary in a slot. -/
  | branch (slot : Nat)
  /-- An item of the loop in a slot. -/
  | item (slot index : Nat)
  /-- The node of the component in a slot. -/
  | component (slot : Nat)
  deriving DecidableEq, Repr

namespace Mounted

/-- The node one step inside. -/
def child? (n : Mounted) : Step → Option Mounted
  | .branch s => match n.slot? s with
    | some (.ternary _ b _ _) => some b
    | _ => none
  | .item s i => match n.slot? s with
    | some (.loop _ items) => (items[i]?).map (·.node)
    | _ => none
  | .component s => match n.slot? s with
    | some (.component _ c) => some c
    | _ => none

/-- Replace the node one step inside; nothing changes where the step leads nowhere. -/
def setChild (n : Mounted) (step : Step) (c : Mounted) : Mounted :=
  match step with
  | .branch s => match n.slot? s with
    | some (.ternary d _ m p) => n.setSlot s (.ternary d c m p)
    | _ => n
  | .item s i => match n.slot? s with
    | some (.loop p items) => n.setSlot s (.loop p (items.modify i fun it => { it with node := c }))
    | _ => n
  | .component s => match n.slot? s with
    | some (.component o _) => n.setSlot s (.component o c)
    | _ => n

/-- The node at the end of a path. -/
def get? (n : Mounted) : List Step → Option Mounted
  | [] => some n
  | step :: rest => (n.child? step).bind fun c => c.get? rest

/-- Replace the node at the end of a path. -/
def setAt (n : Mounted) : List Step → Mounted → Mounted
  | [], c => c
  | step :: rest, c => match n.child? step with
    | some m => n.setChild step (m.setAt rest c)
    | none => n

end Mounted

mutual
/-- The path to the node of the component with a given instance, if it is in the tree. -/
def Mounted.findComponent (id : InstanceId) : Mounted → Option (List Step)
  | .mk _ _ _ slots => Slot.findInArray id 0 slots

/-- Search the slots of an array, the first having index `i`. -/
def Slot.findInArray (id : InstanceId) (i : Nat) : Array Slot → Option (List Step)
  | ⟨l⟩ => Slot.findInList id i l

/-- Search the slots of a list, the first having index `i`. -/
def Slot.findInList (id : InstanceId) (i : Nat) : List Slot → Option (List Step)
  | [] => none
  | s :: rest => match Slot.findIn id i s with
    | some p => some p
    | none => Slot.findInList id (i + 1) rest

/-- Search one slot with index `i`. -/
def Slot.findIn (id : InstanceId) (i : Nat) : Slot → Option (List Step)
  | .ternary _ b _ _ => (b.findComponent id).map (.branch i :: ·)
  | .loop _ items => Slot.findInItems id i 0 items
  | .component o n =>
    if o = id then some [.component i] else (n.findComponent id).map (.component i :: ·)
  | _ => none

/-- Search loop items, the first having position `j`, of the loop in slot `i`. -/
def Slot.findInItems (id : InstanceId) (i j : Nat) : List (LoopItem Mounted) → Option (List Step)
  | [] => none
  | it :: rest => match it.node.findComponent id with
    | some p => some (.item i j :: p)
    | none => Slot.findInItems id i (j + 1) rest
end

end Canopy
