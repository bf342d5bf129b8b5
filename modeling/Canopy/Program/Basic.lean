import Canopy.Opcode
import Canopy.Script.Basic

/-!
# Programs

A decoded program is a list of typed instructions and the number of slots its nodes need.
Instructions open and close elements and fragments, set static or dynamic properties,
attributes and text, and hold the three control structures, each with its own sub-programs:
a ternary chooses between two programs, a keyed loop mounts a template once per item of a
collection, and a component instance mounts a program under a state of its own.

A dynamic instruction reads its value through a binding (a compute script, a prop of the
props in effect, or the value of an earlier dynamic slot) and keeps that value in its slot.
-/

namespace Canopy

/-- The tag of an element. -/
inductive ElementTag where
  | div
  | span
  | named (name : String)
  deriving DecidableEq, Repr, Inhabited

/-- The tag name an element is created with. -/
def ElementTag.name : ElementTag → String
  | .div => "div"
  | .span => "span"
  | .named n => n

/-- The element properties an instruction can set. -/
inductive Property where
  | className
  | id
  | style
  deriving DecidableEq, Repr, Inhabited

/-- The name of a property in descriptions. -/
def Property.name : Property → String
  | .className => "ClassName"
  | .id => "Id"
  | .style => "Style"

/-- Where a dynamic value comes from. -/
inductive Binding where
  /-- A compute script. -/
  | compute (script : Script)
  /-- A field of the props in effect. -/
  | prop (name : String)
  /-- The value held by an earlier dynamic slot of the same node. -/
  | sibling (slot : Nat)
  deriving Inhabited

/-- Whether a binding runs a script. -/
def Binding.isComputed : Binding → Bool
  | .compute _ => true
  | _ => false

/-- A ternary: mount `consequent` or `alternate` as `test` says. -/
structure TernarySpec (P : Type) where
  /-- The test script; its result must be a bool. -/
  test : Script
  /-- The slot that holds the mounted branch. -/
  slot : Nat
  /-- The program mounted when the test is true. -/
  consequent : P
  /-- The program mounted when the test is false. -/
  alternate : P

/-- A keyed loop: mount `template` once per item of the collection, keyed by `key`. -/
structure LoopSpec (P : Type) where
  /-- The script that gives the collection, an array. -/
  collection : Script
  /-- The slot that holds the items. -/
  slot : Nat
  /-- The script that gives an item's key. -/
  key : Script
  /-- The script that gives an item's props; without it an item sees the props in effect. -/
  props : Option Script
  /-- The script that decides whether a kept item is patched; without it, it always is. -/
  shouldUpdate : Option Script
  /-- The program mounted for each item. -/
  template : P
  /-- Whether the loop is its element's only child. -/
  soleChild : Bool

/-- A component instance: mount `body` under a new instance whose first state `factory`
computes from the props. -/
structure ComponentSpec (P : Type) where
  /-- The script that gives the first state. -/
  factory : Script
  /-- The slot that holds the instance's node. -/
  slot : Nat
  /-- The program of the component. -/
  body : P

mutual
/-- A decoded instruction. -/
inductive Instruction where
  | openElement (tag : ElementTag)
  | closeElement
  | openFragment
  | closeFragment
  | staticProperty (property : Property) (value : String)
  | dynamicProperty (property : Property) (binding : Binding) (slot : Nat)
  | staticAttribute (name value : String)
  | dynamicAttribute (name : String) (binding : Binding) (slot : Nat)
  | staticText (value : String)
  | dynamicText (binding : Binding) (slot : Nat)
  | staticTextNode (value : String)
  | dynamicTextNode (binding : Binding) (slot : Nat)
  | ternary (spec : TernarySpec Program)
  | loop (spec : LoopSpec Program)
  | component (spec : ComponentSpec Program)
  | didMount (callback : Script)
  | didUpdate (callback : Script)
  /-- Bind `handler` to the event `name` on the current element; a refreshing binding follows
  the props of every later pass. -/
  | event (name : String) (handler : Script) (slot : Nat) (refresh : Bool)

/-- A decoded program: its instructions and the number of slots a node of it needs. -/
inductive Program where
  | mk (instructions : List Instruction) (slotCount : Nat)
end

instance : Inhabited Program := ⟨.mk [] 0⟩

namespace Program

/-- The instructions of a program. -/
def instructions : Program → List Instruction
  | .mk is _ => is

/-- The number of slots a node of the program needs. -/
def slotCount : Program → Nat
  | .mk _ n => n

/-- The number of instructions. -/
def length (p : Program) : Nat :=
  p.instructions.length

end Program

/-- The opcode of a dynamic property instruction. -/
def Property.dynamicOpcode : Property → Bool → Opcode
  | .className, true => .propertyDynamicClassName
  | .className, false => .propertyDynamicClassNameFromSlot
  | .id, true => .propertyDynamicId
  | .id, false => .propertyDynamicIdFromSlot
  | .style, true => .propertyDynamicStyle
  | .style, false => .propertyDynamicStyleFromSlot

/-- The opcode of a static property instruction. -/
def Property.staticOpcode : Property → Opcode
  | .className => .propertyStaticClassName
  | .id => .propertyStaticId
  | .style => .propertyStaticStyle

namespace Instruction

/-- The opcode an instruction reports: the one it was decoded from, except that a dynamic
text node and a dynamic property or attribute report the form of their binding. -/
def opcode : Instruction → Opcode
  | .openElement .div => .elementOpenDiv
  | .openElement .span => .elementOpenSpan
  | .openElement (.named _) => .elementOpen
  | .closeElement => .elementClose
  | .openFragment => .fragmentOpen
  | .closeFragment => .fragmentClose
  | .staticProperty p _ => p.staticOpcode
  | .dynamicProperty p b _ => p.dynamicOpcode b.isComputed
  | .staticAttribute _ _ => .attributeStatic
  | .dynamicAttribute _ b _ =>
    if b.isComputed then .attributeDynamic else .attributeDynamicFromSlot
  | .staticText _ => .textStaticContent
  | .dynamicText _ _ => .textDynamicContent
  | .staticTextNode _ => .textStaticNode
  | .dynamicTextNode b _ => if b.isComputed then .textDynamicNode else .textDynamicNodeFromSlot
  | .ternary _ => .ternary
  | .loop _ => .loopMap
  | .component _ => .componentInstance
  | .didMount _ => .componentDidMount
  | .didUpdate _ => .componentDidUpdate
  | .event _ _ _ refresh => if refresh then .eventDynamicBound else .eventStaticBound

/-- The slot an instruction owns, if any. -/
def slot? : Instruction → Option Nat
  | .dynamicProperty _ _ s | .dynamicAttribute _ _ s | .dynamicText _ s
  | .dynamicTextNode _ s | .event _ _ s _ => some s
  | .ternary t => some t.slot
  | .loop l => some l.slot
  | .component c => some c.slot
  | _ => none

end Instruction

end Canopy

namespace Canopy

mutual
/-- How deep sub-programs nest inside an instruction. -/
def Instruction.depth : Instruction → Nat
  | .ternary ⟨_, _, c, a⟩ => max c.depth a.depth + 1
  | .loop ⟨_, _, _, _, _, t, _⟩ => t.depth + 1
  | .component ⟨_, _, b⟩ => b.depth + 1
  | _ => 0

/-- How deep sub-programs nest inside a program. -/
def Program.depth : Program → Nat
  | .mk is _ => Instruction.depthList is

/-- How deep sub-programs nest inside a list of instructions. -/
def Instruction.depthList : List Instruction → Nat
  | [] => 0
  | i :: is => max i.depth (Instruction.depthList is)
end

end Canopy
