import Canopy.Program.Decode
import Mathlib.Data.List.Forall2

/-!
# The grammar of wire programs

A wire program is a flat list of words, but it describes a forest: elements and fragments
enclose the instructions between their open and close, and every other instruction is a leaf.
This file states, without reference to the decoder, which word lists are programs.

Each opcode has a *role* (what it does to the shape of a program) and a list of *operands*,
each of a kind that admits some words. A program is then read as a forest of `Wire.Markup`
whose instructions, written one after the other, are exactly its words, and
`Wire.WellFormed` asks that

* every instruction carries exactly its opcode's operands, of the required kinds;
* properties, attributes, events and text content stand directly inside an element, and a
  loop has an element around it, fragments in between being looked through;
* an element holds text content or nodes, never both, and nothing that adds a node follows a
  loop among the children of its element (again looking through fragments);
* slots are below the program's word count and no two instructions share one;
* an integer slot source names the slot of an earlier dynamic leaf;
* every sub-program operand is itself well formed, with slots of its own.
-/

namespace Canopy

/-- What an opcode does to the shape of a program. -/
inductive Role where
  | opensElement
  | closesElement
  | opensFragment
  | closesFragment
  /-- Sets a property, an attribute or an event binding of the innermost open element. -/
  | setsElement
  /-- Sets the text content of the innermost open element. -/
  | setsText
  /-- Adds a node to the document: a text node, a ternary or a component. -/
  | addsNode
  | loop
  /-- A lifecycle hook, which may stand anywhere. -/
  | hook
  /-- An opcode no program may use. -/
  | reserved
  deriving DecidableEq, Repr

namespace Role

/-- Whether an instruction of this role is a leaf of the program's forest. -/
def isLeaf : Role → Bool
  | .setsElement | .setsText | .addsNode | .loop | .hook => true
  | _ => false

/-- Whether an instruction of this role must stand directly inside an element. -/
def needsElement : Role → Bool
  | .setsElement | .setsText => true
  | _ => false

/-- Whether a piece of markup of this role is a child of its element in the document. -/
def addsChild : Role → Bool
  | .opensElement | .addsNode | .loop => true
  | _ => false

end Role

namespace Opcode

/-- The role of an opcode. -/
def role : Opcode → Role
  | .elementOpen | .elementOpenDiv | .elementOpenSpan => .opensElement
  | .elementClose => .closesElement
  | .fragmentOpen => .opensFragment
  | .fragmentClose => .closesFragment
  | .propertyStaticClassName | .propertyStaticId | .propertyStaticStyle
  | .propertyDynamicClassName | .propertyDynamicId | .propertyDynamicStyle
  | .propertyDynamicClassNameFromSlot | .propertyDynamicIdFromSlot
  | .propertyDynamicStyleFromSlot | .attributeStatic | .attributeDynamic
  | .attributeDynamicFromSlot | .eventStaticBound | .eventDynamicBound => .setsElement
  | .textStaticContent | .textDynamicContent => .setsText
  | .textStaticNode | .textDynamicNode | .textDynamicNodeFromSlot | .ternary
  | .componentInstance => .addsNode
  | .loopMap => .loop
  | .componentDidMount | .componentDidUpdate => .hook
  | _ => .reserved

/-- The operands an opcode takes, in order, each with its name in messages and its kind. -/
def operands : Opcode → List (Operand × OperandKind)
  | .elementOpen => [(.tagName, .string)]
  | .propertyStaticClassName | .propertyStaticId | .propertyStaticStyle => [(.value, .string)]
  | .propertyDynamicClassName | .propertyDynamicId | .propertyDynamicStyle
  | .textDynamicContent | .textDynamicNode => [(.value, .function .compute), (.slot, .slotIndex)]
  | .propertyDynamicClassNameFromSlot | .propertyDynamicIdFromSlot
  | .propertyDynamicStyleFromSlot | .textDynamicNodeFromSlot =>
    [(.source, .source), (.slot, .slotIndex)]
  | .attributeStatic => [(.attributeName, .string), (.value, .string)]
  | .attributeDynamic =>
    [(.attributeName, .string), (.value, .function .compute), (.slot, .slotIndex)]
  | .attributeDynamicFromSlot =>
    [(.attributeName, .string), (.source, .source), (.slot, .slotIndex)]
  | .textStaticContent | .textStaticNode => [(.text, .string)]
  | .ternary =>
    [(.test, .function .test), (.slot, .slotIndex), (.consequent, .subProgram),
      (.alternate, .subProgram)]
  | .loopMap =>
    [(.collection, .function .collection), (.slot, .slotIndex), (.key, .function .key),
      (.props, .functionOrNull .props), (.shouldUpdate, .functionOrNull .shouldUpdate),
      (.template, .subProgram)]
  | .componentInstance =>
    [(.factory, .function .factory), (.slot, .slotIndex), (.program, .subProgram)]
  | .componentDidMount | .componentDidUpdate => [(.callback, .function .lifecycle)]
  | .eventStaticBound | .eventDynamicBound =>
    [(.eventName, .string), (.handler, .function .handler), (.slot, .slotIndex)]
  | _ => []

/-- The kinds of an opcode's operands. -/
def operandKinds (op : Opcode) : List OperandKind :=
  op.operands.map Prod.snd

/-- Whether an opcode is a dynamic leaf, whose slot holds a value that later slot sources may
read. -/
def holdsValue : Opcode → Bool
  | .propertyDynamicClassName | .propertyDynamicId | .propertyDynamicStyle
  | .propertyDynamicClassNameFromSlot | .propertyDynamicIdFromSlot
  | .propertyDynamicStyleFromSlot | .attributeDynamic | .attributeDynamicFromSlot
  | .textDynamicContent | .textDynamicNode | .textDynamicNodeFromSlot => true
  | _ => false

end Opcode

namespace Word

/-- The integer of an integer word. -/
def int? : Word → Option Int
  | .int n => some n
  | _ => none

/-- The words of a sub-program word. -/
def program? : Word → Option (List Word)
  | .program ws => some ws
  | _ => none

end Word

/-- The words an operand kind admits: a slot index is a non-negative integer, a slot source a
prop name or an integer, and null stands only where a function may be left out. -/
def OperandKind.Admits : OperandKind → Word → Prop
  | .string, .str _ => True
  | .function k, .function k' _ => k' = k
  | .functionOrNull _, .null => True
  | .functionOrNull k, .function k' _ => k' = k
  | .source, .str _ => True
  | .source, .int _ => True
  | .slotIndex, .int n => 0 ≤ n
  | .subProgram, .program _ => True
  | _, _ => False

namespace Wire

/-- An instruction as it stands on the wire: an opcode and the operand words after it. -/
structure Instr where
  /-- The opcode. -/
  op : Opcode
  /-- The operand words. -/
  args : List Word

namespace Instr

/-- The words of an instruction: its opcode word, then its operands. -/
def words (x : Instr) : List Word :=
  .op x.op.tag :: x.args

/-- The operands are exactly those of the opcode, each of its kind. -/
def Admitted (x : Instr) : Prop :=
  List.Forall₂ OperandKind.Admits x.op.operandKinds x.args

/-- The operand words of a given kind. -/
def operandsOf (k : OperandKind) (x : Instr) : List Word :=
  ((x.op.operandKinds.zip x.args).filter (·.1 = k)).map Prod.snd

/-- The slots an instruction claims. -/
def slots (x : Instr) : List Int :=
  (x.operandsOf .slotIndex).filterMap Word.int?

/-- The slots of a dynamic leaf, which later slot sources may name. -/
def valueSlots (x : Instr) : List Int :=
  if x.op.holdsValue then x.slots else []

/-- The integer slot sources of an instruction. -/
def sources (x : Instr) : List Int :=
  (x.operandsOf .source).filterMap Word.int?

/-- The sub-programs of an instruction. -/
def subprograms (x : Instr) : List (List Word) :=
  (x.operandsOf .subProgram).filterMap Word.program?

end Instr

/-- A program read as a forest: an element with its opening instruction and its body, a
fragment with its body, or a single instruction. -/
inductive Markup where
  | element (opening : Instr) (body : List Markup)
  | fragment (body : List Markup)
  | leaf (x : Instr)

namespace Markup

/-- The close of an element. -/
def closeElement : Instr := ⟨.elementClose, []⟩

/-- The open of a fragment. -/
def openFragment : Instr := ⟨.fragmentOpen, []⟩

/-- The close of a fragment. -/
def closeFragment : Instr := ⟨.fragmentClose, []⟩

mutual
/-- The instructions of a piece of markup, in word order. -/
def instrs : Markup → List Instr
  | .element o body => o :: instrsList body ++ [closeElement]
  | .fragment body => openFragment :: instrsList body ++ [closeFragment]
  | .leaf x => [x]

/-- The instructions of a forest, in word order. -/
def instrsList : List Markup → List Instr
  | [] => []
  | m :: ms => m.instrs ++ instrsList ms
end

/-- The words of a forest. -/
def wordsList (f : List Markup) : List Word :=
  (instrsList f).flatMap Instr.words

mutual
/-- The children a piece of markup gives its element: a fragment is looked through. -/
def kids : Markup → List Markup
  | .fragment body => kidsList body
  | m => [m]

/-- The children a forest gives its element. -/
def kidsList : List Markup → List Markup
  | [] => []
  | m :: ms => m.kids ++ kidsList ms
end

/-- The role of a piece of markup: an element opens one, a fragment one, a leaf has its
opcode's role. -/
def role : Markup → Role
  | .element .. => .opensElement
  | .fragment _ => .opensFragment
  | .leaf x => x.op.role

end Markup

/-- The children of an element, as roles, fit together: text content stands alone, and
nothing that adds a child follows a loop. -/
structure KidsFit (rs : List Role) : Prop where
  text_alone : Role.setsText ∈ rs → ∀ r ∈ rs, r.addsChild = false
  loop_last : ∀ r, List.Sublist [Role.loop, r] rs → r.addsChild = false

namespace Markup

mutual
/-- A piece of markup stands where its role allows: `direct` says whether its parent is an
element, `enclosed` whether some element encloses it. -/
def Placed (direct enclosed : Bool) : Markup → Prop
  | .element o body =>
    o.op.role = .opensElement ∧ PlacedList true true body ∧
      KidsFit ((kidsList body).map role)
  | .fragment body => PlacedList false enclosed body
  | .leaf x =>
    x.op.role.isLeaf = true ∧ (x.op.role.needsElement = true → direct = true) ∧
      (x.op.role = .loop → enclosed = true)

/-- Every piece of a forest stands where its role allows. -/
def PlacedList (direct enclosed : Bool) : List Markup → Prop
  | [] => True
  | m :: ms => m.Placed direct enclosed ∧ PlacedList direct enclosed ms
end

end Markup

/-- The instruction-level rules of a program of `limit` words, for a list of instructions:
operands of the right kinds, slots below the limit and used once, slot sources naming the
slots of earlier dynamic leaves, and sub-programs satisfying `good`. -/
structure Fits (limit : Nat) (good : List Word → Prop) (xs : List Instr) : Prop where
  admitted : ∀ x ∈ xs, x.Admitted
  slot_lt : ∀ n ∈ xs.flatMap Instr.slots, n < limit
  slots_nodup : (xs.flatMap Instr.slots).Nodup
  sources_earlier :
    ∀ pre x post, xs = pre ++ x :: post → ∀ n ∈ x.sources, n ∈ pre.flatMap Instr.valueSlots
  subprograms_good : ∀ x ∈ xs, ∀ ws ∈ x.subprograms, good ws

/-- A well-formed wire program: its words are those of a forest whose pieces stand where their
roles allow, whose instructions follow the instruction-level rules, and whose sub-programs are
well formed in turn. -/
inductive WellFormed : List Word → Prop where
  | intro {ws : List Word} (f : List Markup) (words : Markup.wordsList f = ws)
      (placed : Markup.PlacedList false false f)
      (admitted : ∀ x ∈ Markup.instrsList f, x.Admitted)
      (slot_lt : ∀ n ∈ (Markup.instrsList f).flatMap Instr.slots, n < ws.length)
      (slots_nodup : ((Markup.instrsList f).flatMap Instr.slots).Nodup)
      (sources_earlier : ∀ pre x post, Markup.instrsList f = pre ++ x :: post →
        ∀ n ∈ x.sources, n ∈ pre.flatMap Instr.valueSlots)
      (subprograms : ∀ x ∈ Markup.instrsList f, ∀ ws' ∈ x.subprograms, WellFormed ws') :
      WellFormed ws

/-- A wire program is well formed when some forest spells it out, stands where it should and
follows the instruction-level rules with well-formed sub-programs. -/
theorem wellFormed_iff {ws : List Word} :
    WellFormed ws ↔ ∃ f, Markup.wordsList f = ws ∧ Markup.PlacedList false false f ∧
      Fits ws.length WellFormed (Markup.instrsList f) := by
  constructor
  · rintro ⟨f, hw, hp, ha, hlt, hnd, hsrc, hsub⟩
    exact ⟨f, hw, hp, ⟨ha, hlt, hnd, hsrc, hsub⟩⟩
  · rintro ⟨f, hw, hp, ⟨ha, hlt, hnd, hsrc, hsub⟩⟩
    exact .intro f hw hp ha hlt hnd hsrc hsub

end Wire

end Canopy
