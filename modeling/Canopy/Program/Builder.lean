import Canopy.Program.Decode

/-!
# Building programs

`ProgramBuilder` writes a program's words one instruction at a time, each method appending an
opcode and its operands. It checks nothing itself: `ProgramBuilder.build` hands the words to
the decoder, so a built program passes exactly the checks a program from the wire passes.

`div` and `span` elements get their own opcodes; a loop without a props or should-update
function gets a null word in that operand's place.
-/

namespace Canopy

/-- Where a from-slot instruction takes its value. -/
inductive SlotSource where
  /-- A field of the current props. -/
  | prop (name : String)
  /-- An earlier value slot of the same program. -/
  | slot (slot : Nat)

/-- The word of a slot source. -/
def SlotSource.word : SlotSource → Word
  | .prop name => .str name
  | .slot n => Word.slot n

/-- The optional functions of a loop. -/
structure LoopOptions where
  /-- The function that computes an item's props. -/
  props : Option Script := none
  /-- The function that decides whether a kept item is updated. -/
  shouldUpdate : Option Script := none

/-- A program under construction: its words so far. -/
structure ProgramBuilder where
  /-- The words written so far. -/
  words : Array Word := #[]

namespace ProgramBuilder

/-- Append an opcode and its operands. -/
def emit (b : ProgramBuilder) (op : Opcode) (operands : List Word) : ProgramBuilder :=
  { words := (b.words.push (Word.ofOpcode op)) ++ operands.toArray }

/-- Append a raw word. -/
def word (b : ProgramBuilder) (w : Word) : ProgramBuilder :=
  { words := b.words.push w }

/-- Open a `div`. -/
def openDiv (b : ProgramBuilder) : ProgramBuilder := b.emit .elementOpenDiv []

/-- Open a `span`. -/
def openSpan (b : ProgramBuilder) : ProgramBuilder := b.emit .elementOpenSpan []

/-- Open an element; `div` and `span` use their own opcodes. -/
def openElement (b : ProgramBuilder) (tag : String) : ProgramBuilder :=
  if tag == "div" then b.openDiv
  else if tag == "span" then b.openSpan
  else b.emit .elementOpen [.str tag]

/-- Close the innermost element. -/
def close (b : ProgramBuilder) : ProgramBuilder := b.emit .elementClose []

/-- Open a fragment. -/
def fragment (b : ProgramBuilder) : ProgramBuilder := b.emit .fragmentOpen []

/-- Close the innermost fragment. -/
def endFragment (b : ProgramBuilder) : ProgramBuilder := b.emit .fragmentClose []

/-- A static class name. -/
def className (b : ProgramBuilder) (v : String) : ProgramBuilder :=
  b.emit .propertyStaticClassName [.str v]

/-- A static id. -/
def id (b : ProgramBuilder) (v : String) : ProgramBuilder :=
  b.emit .propertyStaticId [.str v]

/-- A static style. -/
def style (b : ProgramBuilder) (v : String) : ProgramBuilder :=
  b.emit .propertyStaticStyle [.str v]

/-- A static attribute. -/
def attr (b : ProgramBuilder) (name v : String) : ProgramBuilder :=
  b.emit .attributeStatic [.str name, .str v]

/-- Static text content of the open element. -/
def text (b : ProgramBuilder) (v : String) : ProgramBuilder :=
  b.emit .textStaticContent [.str v]

/-- A static text node. -/
def textNode (b : ProgramBuilder) (v : String) : ProgramBuilder :=
  b.emit .textStaticNode [.str v]

/-- A computed class name. -/
def dynamicClass (b : ProgramBuilder) (f : Script) (slot : Nat) : ProgramBuilder :=
  b.emit .propertyDynamicClassName [.function .compute f, Word.slot slot]

/-- A computed id. -/
def dynamicId (b : ProgramBuilder) (f : Script) (slot : Nat) : ProgramBuilder :=
  b.emit .propertyDynamicId [.function .compute f, Word.slot slot]

/-- A computed style. -/
def dynamicStyle (b : ProgramBuilder) (f : Script) (slot : Nat) : ProgramBuilder :=
  b.emit .propertyDynamicStyle [.function .compute f, Word.slot slot]

/-- A computed attribute. -/
def dynamicAttr (b : ProgramBuilder) (name : String) (f : Script) (slot : Nat) :
    ProgramBuilder :=
  b.emit .attributeDynamic [.str name, .function .compute f, Word.slot slot]

/-- Computed text content of the open element. -/
def dynamicText (b : ProgramBuilder) (f : Script) (slot : Nat) : ProgramBuilder :=
  b.emit .textDynamicContent [.function .compute f, Word.slot slot]

/-- A computed text node. -/
def dynamicTextNode (b : ProgramBuilder) (f : Script) (slot : Nat) : ProgramBuilder :=
  b.emit .textDynamicNode [.function .compute f, Word.slot slot]

/-- A class name from a prop or an earlier slot. -/
def classFrom (b : ProgramBuilder) (source : SlotSource) (slot : Nat) : ProgramBuilder :=
  b.emit .propertyDynamicClassNameFromSlot [source.word, Word.slot slot]

/-- An id from a prop or an earlier slot. -/
def idFrom (b : ProgramBuilder) (source : SlotSource) (slot : Nat) : ProgramBuilder :=
  b.emit .propertyDynamicIdFromSlot [source.word, Word.slot slot]

/-- A style from a prop or an earlier slot. -/
def styleFrom (b : ProgramBuilder) (source : SlotSource) (slot : Nat) : ProgramBuilder :=
  b.emit .propertyDynamicStyleFromSlot [source.word, Word.slot slot]

/-- An attribute from a prop or an earlier slot. -/
def attrFrom (b : ProgramBuilder) (name : String) (source : SlotSource) (slot : Nat) :
    ProgramBuilder :=
  b.emit .attributeDynamicFromSlot [.str name, source.word, Word.slot slot]

/-- A text node from a prop or an earlier slot. -/
def textNodeFrom (b : ProgramBuilder) (source : SlotSource) (slot : Nat) : ProgramBuilder :=
  b.emit .textDynamicNodeFromSlot [source.word, Word.slot slot]

/-- A ternary over two sub-programs. -/
def ternary (b : ProgramBuilder) (test : Script) (slot : Nat)
    (consequent alternate : ProgramBuilder) : ProgramBuilder :=
  b.emit .ternary [.function .test test, Word.slot slot, .program consequent.words.toList,
    .program alternate.words.toList]

/-- A keyed loop over a template. -/
def loopMap (b : ProgramBuilder) (collection : Script) (slot : Nat) (key : Script)
    (options : LoopOptions) (template : ProgramBuilder) : ProgramBuilder :=
  b.emit .loopMap [.function .collection collection, Word.slot slot, .function .key key,
    (options.props.map (.function .props)).getD .null,
    (options.shouldUpdate.map (.function .shouldUpdate)).getD .null,
    .program template.words.toList]

/-- A component with its factory and body. -/
def component (b : ProgramBuilder) (factory : Script) (slot : Nat) (body : ProgramBuilder) :
    ProgramBuilder :=
  b.emit .componentInstance [.function .factory factory, Word.slot slot, .program body.words.toList]

/-- A did-mount hook. -/
def didMount (b : ProgramBuilder) (f : Script) : ProgramBuilder :=
  b.emit .componentDidMount [.function .lifecycle f]

/-- A did-update hook. -/
def didUpdate (b : ProgramBuilder) (f : Script) : ProgramBuilder :=
  b.emit .componentDidUpdate [.function .lifecycle f]

/-- An event handler registered once at mount. -/
def on (b : ProgramBuilder) (event : String) (handler : Script) (slot : Nat) : ProgramBuilder :=
  b.emit .eventStaticBound [.str event, .function .handler handler, Word.slot slot]

/-- An event handler whose props are refreshed on every update. -/
def onDynamic (b : ProgramBuilder) (event : String) (handler : Script) (slot : Nat) :
    ProgramBuilder :=
  b.emit .eventDynamicBound [.str event, .function .handler handler, Word.slot slot]

/-- Decode the words written so far. -/
def build (b : ProgramBuilder) : Except DecodeError Program :=
  Program.decode b.words.toList

end ProgramBuilder

end Canopy
