import Canopy.Program.Basic
import Canopy.Program.Word

/-!
# Decoding wire programs

`Program.decode` turns a list of words into a program, or names the first thing wrong with it.
It reads one instruction at a time: an opcode word, then the operands that opcode takes, each
of a required kind. Beside the operand kinds it checks the program's shape:

* element and fragment opens and closes pair up and nest;
* properties, attributes, text content and events need an open element as the innermost
  open construct;
* a loop sits inside an element (fragments between do not count) and is its last child;
* an element holds text content or child nodes, never both;
* slots are below the program's word count and each is used once, and a slot source names the
  slot of an earlier dynamic value;
* every sub-program is a program of its own, with its own slots.
-/

namespace Canopy

/-- The operands an instruction reads, as messages name them. -/
inductive Operand where
  | tagName
  | value
  | source
  | slot
  | attributeName
  | text
  | test
  | consequent
  | alternate
  | collection
  | key
  | props
  | shouldUpdate
  | template
  | factory
  | program
  | callback
  | eventName
  | handler
  deriving DecidableEq, Repr

/-- The name of an operand in messages. -/
def Operand.name : Operand → String
  | .tagName => "tag name"
  | .value => "value"
  | .source => "source"
  | .slot => "slot"
  | .attributeName => "attribute name"
  | .text => "text"
  | .test => "test"
  | .consequent => "consequent"
  | .alternate => "alternate"
  | .collection => "collection"
  | .key => "key"
  | .props => "props"
  | .shouldUpdate => "should-update"
  | .template => "template"
  | .factory => "factory"
  | .program => "program"
  | .callback => "callback"
  | .eventName => "event name"
  | .handler => "handler"

/-- What an operand must be. -/
inductive OperandKind where
  | string
  | function (kind : FunctionKind)
  | functionOrNull (kind : FunctionKind)
  | source
  | slotIndex
  | subProgram
  deriving DecidableEq, Repr

/-- The description of an operand kind in messages. -/
def OperandKind.description : OperandKind → String
  | .string => "a string"
  | .function k => "a " ++ k.name
  | .functionOrNull k => "a " ++ k.name ++ " or null"
  | .source => "a prop name or slot index"
  | .slotIndex => "a non-negative slot index"
  | .subProgram => "a sub-program"

/-- Why a loop is misplaced. -/
inductive LoopMisplacement where
  | outsideElement
  | notLast
  deriving DecidableEq, Repr

/-- The reason of a misplaced loop in messages. -/
def LoopMisplacement.reason : LoopMisplacement → String
  | .outsideElement => "a loop must be inside an element"
  | .notLast => "a loop must be the last child of its element"

/-- The first thing wrong with a wire program. -/
inductive DecodeError where
  /-- An opcode word whose tag names no opcode. -/
  | unrecognized (tag offset : Nat)
  /-- A reserved opcode. -/
  | reserved (op : Opcode) (offset : Nat)
  /-- An operand word where an opcode word should start the next instruction. -/
  | strayOperand (offset : Nat)
  /-- The program or the next opcode word comes before an operand. -/
  | missingOperand (op : Opcode) (offset : Nat) (operand : Operand)
  /-- An operand of the wrong kind. -/
  | operandType (op : Opcode) (offset : Nat) (operand : Operand) (expected : OperandKind)
  /-- A close with no matching open. -/
  | unbalancedClose (op : Opcode) (offset : Nat)
  /-- An open never closed. -/
  | unclosed (op : Opcode) (offset : Nat)
  /-- An instruction that needs an open element outside one. -/
  | expectedElement (op : Opcode) (offset : Nat)
  /-- A misplaced loop, at the loop's offset. -/
  | loopPlacement (offset : Nat) (why : LoopMisplacement)
  /-- Text content beside child nodes. -/
  | mixedTextContent (op : Opcode) (offset : Nat)
  /-- A slot not below the program's word count. -/
  | slotOutOfRange (slot : Int) (offset limit : Nat)
  /-- A slot used twice. -/
  | duplicateSlot (slot offset : Nat)
  /-- A slot source that is not an earlier dynamic value's slot. -/
  | invalidSlotSource (slot offset : Nat)
  /-- A sub-program that does not decode. -/
  | subprogram (op : Opcode) (offset : Nat) (inner : DecodeError)

/-- The message of a decoding error. -/
def DecodeError.message : DecodeError → String
  | .unrecognized t o => s!"Unrecognized instruction: tag {t} at offset {o}"
  | .reserved op o => s!"Unsupported instruction: {op.name} at offset {o}"
  | .strayOperand o => s!"Operand word at offset {o} where an instruction was expected"
  | .missingOperand op o r => s!"{op.name} at offset {o} is missing its {r.name} operand"
  | .operandType op o r k => s!"{op.name} at offset {o}: {r.name} operand must be {k.description}"
  | .unbalancedClose op o => s!"{op.name} at offset {o} has no matching open instruction"
  | .unclosed op o => s!"{op.name} at offset {o} is never closed"
  | .expectedElement op o => s!"{op.name} at offset {o} requires an open element"
  | .loopPlacement o why => s!"LOOP_MAP at offset {o}: {why.reason}"
  | .mixedTextContent op o => s!"{op.name} at offset {o} mixes text content with child nodes"
  | .slotOutOfRange s o l => s!"Slot {s} at offset {o} is out of range (a program of {l} words)"
  | .duplicateSlot s o => s!"Slot {s} is assigned twice (second use at offset {o})"
  | .invalidSlotSource s o => s!"Slot source {s} at offset {o} does not name an earlier value slot"
  | .subprogram op o e => s!"In sub-program of {op.name} at offset {o}: {e.message}"

/-- An element or fragment that is open while decoding. -/
inductive Enclosure where
  /-- An element, with the number of its children so far, the offset of its loop if it has
  one, and whether it holds text content. -/
  | element (offset : Nat) (opcode : Opcode) (children : Nat) (loopAt : Option Nat)
      (hasText : Bool)
  | fragment (offset : Nat)

/-- The decoder's state within one program. -/
structure Decoder where
  /-- The words not read yet. -/
  rest : List Word
  /-- The offset of the first word not read yet. -/
  pos : Nat
  /-- The program's word count, which bounds its slots. -/
  limit : Nat
  /-- The open elements and fragments, innermost first. -/
  enclosures : List Enclosure := []
  /-- The slots used so far. -/
  used : List Nat := []
  /-- The slots of dynamic values so far, which slot sources may name. -/
  valueSlots : List Nat := []
  /-- One more than the largest slot used so far. -/
  slotCount : Nat := 0
  /-- The instructions decoded so far. -/
  instructions : Array Instruction := #[]

/-- Decoding within one program. -/
abbrev DecodeM := StateT Decoder (Except DecodeError)

namespace Decoder

/-- Read the next operand word. -/
def operand (op : Opcode) (offset : Nat) (r : Operand) : DecodeM Word := do
  let st ← get
  match st.rest with
  | [] => throw (.missingOperand op offset r)
  | .op _ :: _ => throw (.missingOperand op offset r)
  | w :: rest =>
    set { st with rest := rest, pos := st.pos + 1 }
    pure w

/-- Read a string operand. -/
def string (op : Opcode) (offset : Nat) (r : Operand) : DecodeM String := do
  match ← operand op offset r with
  | .str s => pure s
  | _ => throw (.operandType op offset r .string)

/-- Read a function operand of the given kind. -/
def function (op : Opcode) (offset : Nat) (r : Operand) (k : FunctionKind) : DecodeM Script := do
  match ← operand op offset r with
  | .function k' s => if k' = k then pure s else throw (.operandType op offset r (.function k))
  | _ => throw (.operandType op offset r (.function k))

/-- Read a function operand of the given kind, or null. -/
def optionalFunction (op : Opcode) (offset : Nat) (r : Operand) (k : FunctionKind) :
    DecodeM (Option Script) := do
  match ← operand op offset r with
  | .function k' s =>
    if k' = k then pure (some s) else throw (.operandType op offset r (.functionOrNull k))
  | .null => pure none
  | _ => throw (.operandType op offset r (.functionOrNull k))

/-- Read the binding of a compute operand. -/
def compute (op : Opcode) (offset : Nat) : DecodeM Binding :=
  Binding.compute <$> function op offset .value .compute

/-- Read a slot source: a prop name, or the slot of an earlier dynamic value. -/
def source (op : Opcode) (offset : Nat) : DecodeM Binding := do
  match ← operand op offset .source with
  | .str name => pure (.prop name)
  | .int n =>
    if 0 ≤ n ∧ n.toNat ∈ (← get).valueSlots then pure (.sibling n.toNat)
    else throw (.invalidSlotSource n.toNat offset)
  | _ => throw (.operandType op offset .source .source)

/-- Read a slot operand and claim the slot. -/
def slot (op : Opcode) (offset : Nat) : DecodeM Nat := do
  let s ← match ← operand op offset .slot with
    | .int n =>
      if n < 0 then throw (.operandType op offset .slot .slotIndex)
      else if n.toNat < (← get).limit then pure n.toNat
      else throw (.slotOutOfRange n offset (← get).limit)
    | _ => throw (.operandType op offset .slot .slotIndex)
  let st ← get
  if s ∈ st.used then throw (.duplicateSlot s offset)
  set { st with used := s :: st.used, slotCount := max st.slotCount (s + 1) }
  pure s

/-- Read a slot operand for a dynamic value, which later slot sources may name. -/
def valueSlot (op : Opcode) (offset : Nat) : DecodeM Nat := do
  let s ← slot op offset
  modify fun st => { st with valueSlots := s :: st.valueSlots }
  pure s

/-- Read a sub-program operand and decode it with `sub`. -/
def subprogram (sub : List Word → Except DecodeError Program) (op : Opcode) (offset : Nat)
    (r : Operand) : DecodeM Program := do
  match ← operand op offset r with
  | .program ws =>
    match sub ws with
    | .ok p => pure p
    | .error e => throw (.subprogram op offset e)
  | _ => throw (.operandType op offset r .subProgram)

/-- Count a new child of the innermost open element, if there is one; it may not follow text
content or a loop. -/
def addChild (op : Opcode) (offset : Nat) : List Enclosure → Except DecodeError (List Enclosure)
  | [] => pure []
  | .fragment o :: rest => (Enclosure.fragment o :: ·) <$> addChild op offset rest
  | .element o code n loopAt hasText :: rest =>
    if hasText then throw (.mixedTextContent op offset)
    else match loopAt with
      | some l => throw (.loopPlacement l .notLast)
      | none => pure (.element o code (n + 1) none false :: rest)

/-- A new child of the innermost open element. -/
def child (op : Opcode) (offset : Nat) : DecodeM Unit := do
  let st ← get
  let es ← addChild op offset st.enclosures
  set { st with enclosures := es }

/-- Text content of the innermost open construct, when it is an element: the element may not
have children. -/
def textContent (op : Opcode) (offset : Nat) : DecodeM Unit := do
  let st ← get
  match st.enclosures with
  | .element o code n loopAt _ :: rest =>
    if n > 0 then throw (.mixedTextContent op offset)
    else set { st with enclosures := .element o code n loopAt true :: rest }
  | _ => pure ()

/-- The innermost open construct must be an element. -/
def expectElement (op : Opcode) (offset : Nat) : DecodeM Unit := do
  match (← get).enclosures with
  | .element .. :: _ => pure ()
  | _ => throw (.expectedElement op offset)

/-- The number of children of the innermost open element, if there is one. -/
def enclosingChildren : List Enclosure → Option Nat
  | [] => none
  | .fragment _ :: rest => enclosingChildren rest
  | .element _ _ n _ _ :: _ => some n

/-- Record a loop at `offset` as the last child of the innermost open element. -/
def markLoop (offset : Nat) : List Enclosure → List Enclosure
  | [] => []
  | .fragment o :: rest => .fragment o :: markLoop offset rest
  | .element o code n _ hasText :: rest => .element o code n (some offset) hasText :: rest

/-- Open an element. -/
def openElement (op : Opcode) (offset : Nat) (tag : ElementTag) : DecodeM Instruction := do
  child op offset
  modify fun st => { st with enclosures := .element offset op 0 none false :: st.enclosures }
  pure (.openElement tag)

/-- Close the innermost open construct, which must be of the given kind. -/
def close (op : Opcode) (offset : Nat) (element : Bool) : DecodeM Unit := do
  let st ← get
  match st.enclosures, element with
  | .element .. :: rest, true => set { st with enclosures := rest }
  | .fragment _ :: rest, false => set { st with enclosures := rest }
  | _, _ => throw (.unbalancedClose op offset)

/-- Decode a loop instruction at `offset`. -/
def loop (sub : List Word → Except DecodeError Program) (offset : Nat) : DecodeM Instruction := do
  let op := Opcode.loopMap
  let before ← match enclosingChildren (← get).enclosures with
    | some n => pure n
    | none => throw (.loopPlacement offset .outsideElement)
  child op offset
  modify fun st => { st with enclosures := markLoop offset st.enclosures }
  let collection ← function op offset .collection .collection
  let s ← slot op offset
  let key ← function op offset .key .key
  let props ← optionalFunction op offset .props .props
  let shouldUpdate ← optionalFunction op offset .shouldUpdate .shouldUpdate
  let template ← subprogram sub op offset .template
  pure (.loop ⟨collection, s, key, props, shouldUpdate, template, before == 0⟩)

/-- Decode the operands of one instruction with the given opcode at `offset`. -/
def instruction (sub : List Word → Except DecodeError Program) (op : Opcode) (offset : Nat) :
    DecodeM Instruction := do
  match op with
  | .elementOpen =>
    let tag ← string op offset .tagName
    openElement op offset (.named tag)
  | .elementOpenDiv => openElement op offset .div
  | .elementOpenSpan => openElement op offset .span
  | .elementClose => close op offset true; pure .closeElement
  | .fragmentOpen =>
    modify fun st => { st with enclosures := .fragment offset :: st.enclosures }
    pure .openFragment
  | .fragmentClose => close op offset false; pure .closeFragment
  | .propertyStaticClassName | .propertyStaticId | .propertyStaticStyle =>
    expectElement op offset
    let v ← string op offset .value
    let p := match op with
      | .propertyStaticClassName => Property.className
      | .propertyStaticId => .id
      | _ => .style
    pure (.staticProperty p v)
  | .propertyDynamicClassName | .propertyDynamicId | .propertyDynamicStyle =>
    expectElement op offset
    let b ← compute op offset
    let s ← valueSlot op offset
    let p := match op with
      | .propertyDynamicClassName => Property.className
      | .propertyDynamicId => .id
      | _ => .style
    pure (.dynamicProperty p b s)
  | .propertyDynamicClassNameFromSlot | .propertyDynamicIdFromSlot
  | .propertyDynamicStyleFromSlot =>
    expectElement op offset
    let b ← source op offset
    let s ← valueSlot op offset
    let p := match op with
      | .propertyDynamicClassNameFromSlot => Property.className
      | .propertyDynamicIdFromSlot => .id
      | _ => .style
    pure (.dynamicProperty p b s)
  | .attributeStatic =>
    expectElement op offset
    let n ← string op offset .attributeName
    let v ← string op offset .value
    pure (.staticAttribute n v)
  | .attributeDynamic =>
    expectElement op offset
    let n ← string op offset .attributeName
    let b ← compute op offset
    let s ← valueSlot op offset
    pure (.dynamicAttribute n b s)
  | .attributeDynamicFromSlot =>
    expectElement op offset
    let n ← string op offset .attributeName
    let b ← source op offset
    let s ← valueSlot op offset
    pure (.dynamicAttribute n b s)
  | .textStaticContent =>
    expectElement op offset
    textContent op offset
    pure (.staticText (← string op offset .text))
  | .textDynamicContent =>
    expectElement op offset
    textContent op offset
    let b ← compute op offset
    let s ← valueSlot op offset
    pure (.dynamicText b s)
  | .textStaticNode =>
    child op offset
    pure (.staticTextNode (← string op offset .text))
  | .textDynamicNode =>
    child op offset
    let b ← compute op offset
    let s ← valueSlot op offset
    pure (.dynamicTextNode b s)
  | .textDynamicNodeFromSlot =>
    child op offset
    let b ← source op offset
    let s ← valueSlot op offset
    pure (.dynamicTextNode b s)
  | .ternary =>
    child op offset
    let test ← function op offset .test .test
    let s ← slot op offset
    let consequent ← subprogram sub op offset .consequent
    let alternate ← subprogram sub op offset .alternate
    pure (.ternary ⟨test, s, consequent, alternate⟩)
  | .loopMap => loop sub offset
  | .componentInstance =>
    child op offset
    let factory ← function op offset .factory .factory
    let s ← slot op offset
    let body ← subprogram sub op offset .program
    pure (.component ⟨factory, s, body⟩)
  | .componentDidMount => .didMount <$> function op offset .callback .lifecycle
  | .componentDidUpdate => .didUpdate <$> function op offset .callback .lifecycle
  | .eventStaticBound | .eventDynamicBound =>
    expectElement op offset
    let n ← string op offset .eventName
    let h ← function op offset .handler .handler
    let s ← slot op offset
    pure (.event n h s (op == .eventDynamicBound))
  | _ => throw (.reserved op offset)

/-- Decode instructions until the words run out; `fuel` bounds the number of instructions. -/
def run (sub : List Word → Except DecodeError Program) : Nat → DecodeM Unit
  | 0 => pure ()
  | fuel + 1 => do
    let st ← get
    match st.rest with
    | [] => pure ()
    | .op t :: rest =>
      let offset := st.pos
      set { st with rest := rest, pos := offset + 1 }
      match Opcode.ofTag? t with
      | none => throw (.unrecognized t offset)
      | some op =>
        let i ← instruction sub op offset
        modify fun st => { st with instructions := st.instructions.push i }
        run sub fuel
    | _ :: _ => throw (.strayOperand st.pos)

/-- Check that nothing is left open, and build the program. -/
def finish : DecodeM Program := do
  let st ← get
  match st.enclosures with
  | .element o op .. :: _ => throw (.unclosed op o)
  | .fragment o :: _ => throw (.unclosed .fragmentOpen o)
  | [] => pure (.mk st.instructions.toList st.slotCount)

end Decoder

mutual
/-- How deep sub-programs nest in a list of words. -/
def Word.nesting : Word → Nat
  | .program ws => Word.nestingList ws + 1
  | _ => 0

/-- How deep sub-programs nest in a list of words. -/
def Word.nestingList : List Word → Nat
  | [] => 0
  | w :: ws => max (Word.nesting w) (Word.nestingList ws)
end

/-- Decode a list of words, with `fuel` bounding how deep sub-programs may nest. -/
def Program.decodeWith : Nat → List Word → Except DecodeError Program
  | 0, _ => .ok (.mk [] 0)
  | fuel + 1, ws =>
    let st : Decoder := { rest := ws, pos := 0, limit := ws.length }
    (do Decoder.run (Program.decodeWith fuel) ws.length; Decoder.finish).run' st

/-- Decode a wire program. -/
def Program.decode (ws : List Word) : Except DecodeError Program :=
  Program.decodeWith (Word.nestingList ws + 1) ws

end Canopy
