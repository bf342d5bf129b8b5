/-!
# Opcodes

The instruction set of the wire format. Each opcode has a fixed numeric tag from 1 to 41, a
mixed-case name and an upper-case name derived from it (`PropertyDynamicId` is
`PROPERTY_DYNAMIC_ID`). Some opcodes are reserved: they have a tag and a name, but no program
may use them.
-/

namespace Canopy

/-- An instruction opcode of the wire format. -/
inductive Opcode where
  | elementOpen
  | elementOpenDiv
  | elementOpenSpan
  | elementClose
  | fragmentOpen
  | fragmentClose
  | ternary
  | ternaryFromSlot
  | refCallback
  | loopMap
  | loopMapFromSlot
  | storeSlotValue
  | componentInstance
  | componentShouldUpdate
  | componentWillMount
  | componentWillUpdate
  | componentWillReceiveProps
  | componentWillUnmount
  | componentDidMount
  | componentDidUpdate
  | componentDidCatch
  | propertyStaticClassName
  | propertyStaticId
  | propertyStaticStyle
  | propertyDynamicClassName
  | propertyDynamicClassNameFromSlot
  | propertyDynamicId
  | propertyDynamicIdFromSlot
  | propertyDynamicStyle
  | propertyDynamicStyleFromSlot
  | textStaticContent
  | textDynamicContent
  | textStaticNode
  | textDynamicNode
  | textDynamicNodeFromSlot
  | attributeStatic
  | attributeDynamic
  | attributeDynamicFromSlot
  | eventStaticBound
  | eventDynamicBound
  | eventDynamicBoundFromSlot
  deriving DecidableEq, Repr, Inhabited

namespace Opcode

/-- Every opcode, in tag order. -/
def all : List Opcode :=
  [elementOpen, elementOpenDiv, elementOpenSpan, elementClose, fragmentOpen, fragmentClose,
   ternary, ternaryFromSlot, refCallback, loopMap, loopMapFromSlot, storeSlotValue,
   componentInstance, componentShouldUpdate, componentWillMount, componentWillUpdate,
   componentWillReceiveProps, componentWillUnmount, componentDidMount, componentDidUpdate,
   componentDidCatch, propertyStaticClassName, propertyStaticId, propertyStaticStyle,
   propertyDynamicClassName, propertyDynamicClassNameFromSlot, propertyDynamicId,
   propertyDynamicIdFromSlot, propertyDynamicStyle, propertyDynamicStyleFromSlot,
   textStaticContent, textDynamicContent, textStaticNode, textDynamicNode,
   textDynamicNodeFromSlot, attributeStatic, attributeDynamic, attributeDynamicFromSlot,
   eventStaticBound, eventDynamicBound, eventDynamicBoundFromSlot]

/-- The numeric tag of an opcode on the wire. -/
def tag : Opcode → Nat
  | elementOpen => 1
  | elementOpenDiv => 2
  | elementOpenSpan => 3
  | elementClose => 4
  | fragmentOpen => 5
  | fragmentClose => 6
  | ternary => 7
  | ternaryFromSlot => 8
  | refCallback => 9
  | loopMap => 10
  | loopMapFromSlot => 11
  | storeSlotValue => 12
  | componentInstance => 13
  | componentShouldUpdate => 14
  | componentWillMount => 15
  | componentWillUpdate => 16
  | componentWillReceiveProps => 17
  | componentWillUnmount => 18
  | componentDidMount => 19
  | componentDidUpdate => 20
  | componentDidCatch => 21
  | propertyStaticClassName => 22
  | propertyStaticId => 23
  | propertyStaticStyle => 24
  | propertyDynamicClassName => 25
  | propertyDynamicClassNameFromSlot => 26
  | propertyDynamicId => 27
  | propertyDynamicIdFromSlot => 28
  | propertyDynamicStyle => 29
  | propertyDynamicStyleFromSlot => 30
  | textStaticContent => 31
  | textDynamicContent => 32
  | textStaticNode => 33
  | textDynamicNode => 34
  | textDynamicNodeFromSlot => 35
  | attributeStatic => 36
  | attributeDynamic => 37
  | attributeDynamicFromSlot => 38
  | eventStaticBound => 39
  | eventDynamicBound => 40
  | eventDynamicBoundFromSlot => 41

/-- The opcode with a given tag, if any. -/
def ofTag? (n : Nat) : Option Opcode :=
  all.find? (·.tag == n)

/-- The mixed-case name of an opcode. -/
def camelName : Opcode → String
  | elementOpen => "ElementOpen"
  | elementOpenDiv => "ElementOpenDiv"
  | elementOpenSpan => "ElementOpenSpan"
  | elementClose => "ElementClose"
  | fragmentOpen => "FragmentOpen"
  | fragmentClose => "FragmentClose"
  | ternary => "Ternary"
  | ternaryFromSlot => "TernaryFromSlot"
  | refCallback => "RefCallback"
  | loopMap => "LoopMap"
  | loopMapFromSlot => "LoopMapFromSlot"
  | storeSlotValue => "StoreSlotValue"
  | componentInstance => "ComponentInstance"
  | componentShouldUpdate => "ComponentLifecycleShouldUpdate"
  | componentWillMount => "ComponentLifecycleWillMount"
  | componentWillUpdate => "ComponentLifecycleWillUpdate"
  | componentWillReceiveProps => "ComponentLifecycleWillReceiveProps"
  | componentWillUnmount => "ComponentLifecycleWillUnmount"
  | componentDidMount => "ComponentLifecycleDidMount"
  | componentDidUpdate => "ComponentLifecycleDidUpdate"
  | componentDidCatch => "ComponentLifecycleDidCatch"
  | propertyStaticClassName => "PropertyStaticClassName"
  | propertyStaticId => "PropertyStaticId"
  | propertyStaticStyle => "PropertyStaticStyleCss"
  | propertyDynamicClassName => "PropertyDynamicClassName"
  | propertyDynamicClassNameFromSlot => "PropertyDynamicClassNameFromSlot"
  | propertyDynamicId => "PropertyDynamicId"
  | propertyDynamicIdFromSlot => "PropertyDynamicIdFromSlot"
  | propertyDynamicStyle => "PropertyDynamicStyleCss"
  | propertyDynamicStyleFromSlot => "PropertyDynamicStyleCssFromSlot"
  | textStaticContent => "TextStaticContent"
  | textDynamicContent => "TextDynamicContent"
  | textStaticNode => "TextStaticNode"
  | textDynamicNode => "TextDynamicNode"
  | textDynamicNodeFromSlot => "TextDynamicNodeFromSlot"
  | attributeStatic => "AttributeStatic"
  | attributeDynamic => "AttributeDynamic"
  | attributeDynamicFromSlot => "AttributeDynamicFromSlot"
  | eventStaticBound => "EventStaticBound"
  | eventDynamicBound => "EventDynamicBound"
  | eventDynamicBoundFromSlot => "EventDynamicBoundFromSlot"

/-- Upper-case words joined by underscores, from mixed case: an underscore goes before every
upper-case letter but the first. -/
def screamingSnake (s : String) : String :=
  let step (acc : List Char) (c : Char) : List Char :=
    if c.isUpper && !acc.isEmpty then c :: '_' :: acc else c.toUpper :: acc
  String.ofList (s.toList.foldl step []).reverse

/-- The upper-case name of an opcode, used in every message. -/
def name (op : Opcode) : String :=
  screamingSnake op.camelName

/-- The opcode with a given upper-case name, if any. -/
def ofName? (s : String) : Option Opcode :=
  all.find? (·.name == s)

/-- Reserved opcodes: they have a tag, but the decoder refuses them. -/
def isReserved : Opcode → Bool
  | ternaryFromSlot | refCallback | loopMapFromSlot | storeSlotValue | componentShouldUpdate
  | componentWillMount | componentWillUpdate | componentWillReceiveProps | componentWillUnmount
  | componentDidCatch | eventDynamicBoundFromSlot => true
  | _ => false

theorem ofTag?_tag (op : Opcode) : ofTag? op.tag = some op := by
  cases op <;> rfl

end Opcode

end Canopy
