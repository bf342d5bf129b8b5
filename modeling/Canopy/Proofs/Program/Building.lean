import Mathlib
import Canopy.Program.Builder
import Canopy.Proofs.Program.Decoded

/-!
# Built programs decode to the calls that built them

A program built with `ProgramBuilder` is a sequence of method calls. `ProgramBuilder.Call`
describes one call of any method but `word`, with its sub-builders given by their own calls;
`Call.Carries` says what instruction the call stands for: the tag (`div` and `span` in their
own forms), names and values, the binding (a compute function, a prop or an earlier slot),
the slot as `Word.slot` writes it, a loop's optional functions, and sub-programs that carry
the sub-builders' calls in turn.

The main theorem, `ProgramBuilder.build_carries`, says that whatever a sequence of calls
builds has one instruction per call, in call order, each carrying its call; when the calls are
well formed they do build (`ProgramBuilder.WellFormedCalls`). Each call writes an opcode
word and its operands
(`Call.apply_words`); the decoder reads those operands back, in the same order and with the
same kinds (`Decoder.instruction_carries`), and a run of the decoder reads one call after
another (`Decoder.run_carries`). Sub-programs decode with less nesting fuel, so the whole is
proved by induction on the fuel.
-/

namespace Canopy

namespace ProgramBuilder

/-- A call of a builder method other than `word`. Methods that differ only in the property
they set, or in whether an event handler is refreshed, share a constructor. -/
inductive Call where
  | openElement (tag : String)
  | openDiv
  | openSpan
  | close
  | fragment
  | endFragment
  | staticProperty (property : Property) (value : String)
  | attr (name value : String)
  | text (value : String)
  | textNode (value : String)
  | dynamicProperty (property : Property) (f : Script) (slot : Nat)
  | dynamicAttr (name : String) (f : Script) (slot : Nat)
  | dynamicText (f : Script) (slot : Nat)
  | dynamicTextNode (f : Script) (slot : Nat)
  | propertyFrom (property : Property) (source : SlotSource) (slot : Nat)
  | attrFrom (name : String) (source : SlotSource) (slot : Nat)
  | textNodeFrom (source : SlotSource) (slot : Nat)
  | ternary (test : Script) (slot : Nat) (consequent alternate : List Call)
  | loopMap (collection : Script) (slot : Nat) (key : Script) (options : LoopOptions)
      (template : List Call)
  | component (factory : Script) (slot : Nat) (body : List Call)
  | didMount (f : Script)
  | didUpdate (f : Script)
  | on (event : String) (handler : Script) (slot : Nat) (refresh : Bool)

mutual
/-- Make a call on a builder. -/
def Call.apply : Call → ProgramBuilder → ProgramBuilder
  | .openElement tag, b => b.openElement tag
  | .openDiv, b => b.openDiv
  | .openSpan, b => b.openSpan
  | .close, b => b.close
  | .fragment, b => b.fragment
  | .endFragment, b => b.endFragment
  | .staticProperty .className v, b => b.className v
  | .staticProperty .id v, b => b.id v
  | .staticProperty .style v, b => b.style v
  | .attr name v, b => b.attr name v
  | .text v, b => b.text v
  | .textNode v, b => b.textNode v
  | .dynamicProperty .className f s, b => b.dynamicClass f s
  | .dynamicProperty .id f s, b => b.dynamicId f s
  | .dynamicProperty .style f s, b => b.dynamicStyle f s
  | .dynamicAttr name f s, b => b.dynamicAttr name f s
  | .dynamicText f s, b => b.dynamicText f s
  | .dynamicTextNode f s, b => b.dynamicTextNode f s
  | .propertyFrom .className src s, b => b.classFrom src s
  | .propertyFrom .id src s, b => b.idFrom src s
  | .propertyFrom .style src s, b => b.styleFrom src s
  | .attrFrom name src s, b => b.attrFrom name src s
  | .textNodeFrom src s, b => b.textNodeFrom src s
  | .ternary test s c a, b => b.ternary test s (Call.applyAll c {}) (Call.applyAll a {})
  | .loopMap col s key opts t, b => b.loopMap col s key opts (Call.applyAll t {})
  | .component f s body, b => b.component f s (Call.applyAll body {})
  | .didMount f, b => b.didMount f
  | .didUpdate f, b => b.didUpdate f
  | .on event h s false, b => b.on event h s
  | .on event h s true, b => b.onDynamic event h s

/-- Make calls on a builder, in order. -/
def Call.applyAll : List Call → ProgramBuilder → ProgramBuilder
  | [], b => b
  | c :: cs, b => Call.applyAll cs (c.apply b)
end

/-- The builder that a sequence of calls makes from an empty one. -/
def ofCalls (cs : List Call) : ProgramBuilder :=
  Call.applyAll cs {}

@[simp] theorem emit_words (b : ProgramBuilder) (op : Opcode) (operands : List Word) :
    (b.emit op operands).words.toList = b.words.toList ++ Word.ofOpcode op :: operands := by
  simp [emit]

namespace Call

/-- The opcode a call writes. -/
def opcode : Call → Opcode
  | .openElement tag =>
    if tag == "div" then .elementOpenDiv else if tag == "span" then .elementOpenSpan
    else .elementOpen
  | .openDiv => .elementOpenDiv
  | .openSpan => .elementOpenSpan
  | .close => .elementClose
  | .fragment => .fragmentOpen
  | .endFragment => .fragmentClose
  | .staticProperty p _ => p.staticOpcode
  | .attr .. => .attributeStatic
  | .text _ => .textStaticContent
  | .textNode _ => .textStaticNode
  | .dynamicProperty p .. => p.dynamicOpcode true
  | .dynamicAttr .. => .attributeDynamic
  | .dynamicText .. => .textDynamicContent
  | .dynamicTextNode .. => .textDynamicNode
  | .propertyFrom p .. => p.dynamicOpcode false
  | .attrFrom .. => .attributeDynamicFromSlot
  | .textNodeFrom .. => .textDynamicNodeFromSlot
  | .ternary .. => .ternary
  | .loopMap .. => .loopMap
  | .component .. => .componentInstance
  | .didMount _ => .componentDidMount
  | .didUpdate _ => .componentDidUpdate
  | .on _ _ _ refresh => if refresh then .eventDynamicBound else .eventStaticBound

/-- The operand words a call writes after its opcode. -/
def operands : Call → List Word
  | .openElement tag => if tag == "div" ∨ tag == "span" then [] else [.str tag]
  | .openDiv | .openSpan | .close | .fragment | .endFragment => []
  | .staticProperty _ v | .text v | .textNode v => [.str v]
  | .attr name v => [.str name, .str v]
  | .dynamicProperty _ f s | .dynamicText f s | .dynamicTextNode f s =>
    [.function .compute f, Word.slot s]
  | .dynamicAttr name f s => [.str name, .function .compute f, Word.slot s]
  | .propertyFrom _ src s | .textNodeFrom src s => [src.word, Word.slot s]
  | .attrFrom name src s => [.str name, src.word, Word.slot s]
  | .ternary test s c a =>
    [.function .test test, Word.slot s, .program (ofCalls c).words.toList,
      .program (ofCalls a).words.toList]
  | .loopMap col s key opts t =>
    [.function .collection col, Word.slot s, .function .key key,
      (opts.props.map (.function .props)).getD .null,
      (opts.shouldUpdate.map (.function .shouldUpdate)).getD .null,
      .program (ofCalls t).words.toList]
  | .component f s body => [.function .factory f, Word.slot s, .program (ofCalls body).words.toList]
  | .didMount f | .didUpdate f => [.function .lifecycle f]
  | .on event h s _ => [.str event, .function .handler h, Word.slot s]

/-- The words a call writes. -/
def words (c : Call) : List Word :=
  Word.ofOpcode c.opcode :: c.operands

/-- A call appends its opcode word and its operands to what was written before. -/
theorem apply_words (c : Call) (b : ProgramBuilder) :
    (c.apply b).words.toList = b.words.toList ++ c.words := by
  cases c
  case openElement tag =>
    by_cases hd : tag = "div"
    · subst hd
      simp [apply, ProgramBuilder.openElement, ProgramBuilder.openDiv, words, opcode, operands]
    by_cases hs : tag = "span"
    · subst hs
      simp [apply, ProgramBuilder.openElement, ProgramBuilder.openSpan, words, opcode, operands]
    · simp [apply, ProgramBuilder.openElement, words, opcode, operands, hd, hs]
  case staticProperty p v | dynamicProperty p f s | propertyFrom p src s =>
    cases p <;> simp [apply, words, opcode, operands, className, ProgramBuilder.id, style,
      dynamicClass, dynamicId, dynamicStyle, classFrom, idFrom, styleFrom, Property.staticOpcode,
      Property.dynamicOpcode]
  case on event h s refresh =>
    cases refresh <;> simp [apply, words, opcode, operands, ProgramBuilder.on, onDynamic]
  all_goals simp [apply, words, opcode, operands, ofCalls, ProgramBuilder.openDiv,
    ProgramBuilder.openSpan, ProgramBuilder.close, ProgramBuilder.fragment,
    ProgramBuilder.endFragment, ProgramBuilder.attr, ProgramBuilder.text,
    ProgramBuilder.textNode, ProgramBuilder.dynamicAttr, ProgramBuilder.dynamicText,
    ProgramBuilder.dynamicTextNode, ProgramBuilder.attrFrom, ProgramBuilder.textNodeFrom,
    ProgramBuilder.ternary, ProgramBuilder.loopMap, ProgramBuilder.component,
    ProgramBuilder.didMount, ProgramBuilder.didUpdate]

theorem applyAll_words (cs : List Call) (b : ProgramBuilder) :
    (applyAll cs b).words.toList = b.words.toList ++ cs.flatMap words := by
  induction cs generalizing b with
  | nil => simp [applyAll]
  | cons c cs ih => simp [applyAll, ih, apply_words]

end Call

theorem ofCalls_words (cs : List Call) : (ofCalls cs).words.toList = cs.flatMap Call.words := by
  simp [ofCalls, Call.applyAll_words]

/-- The tag an element opened by name gets: `div` and `span` have their own forms. -/
def tagOf (tag : String) : ElementTag :=
  if tag == "div" then .div else if tag == "span" then .span else .named tag

/-- The slot a slot word carries: the slot, saturated at the largest signed 64-bit integer. -/
def slotOf (n : Nat) : Nat :=
  min n 9223372036854775807

theorem slot_eq_int (n : Nat) : Word.slot n = .int (slotOf n) := by
  simp only [Word.slot, slotOf, Nat.cast_min]
  rfl

/-- The binding a slot source gives: a prop, or the value of an earlier slot. -/
def bindingOf : SlotSource → Binding
  | .prop name => .prop name
  | .slot n => .sibling (slotOf n)

mutual
/-- The instruction a call stands for: it carries the call's tag, names and values, binding,
slot and loop functions, and its sub-programs carry the sub-builders' calls. Whether a loop is
its element's only child depends on the calls around it, not on the loop's own call. -/
def Call.Carries : Call → Instruction → Prop
  | .openElement tag, i => i = .openElement (tagOf tag)
  | .openDiv, i => i = .openElement .div
  | .openSpan, i => i = .openElement .span
  | .close, i => i = .closeElement
  | .fragment, i => i = .openFragment
  | .endFragment, i => i = .closeFragment
  | .staticProperty p v, i => i = .staticProperty p v
  | .attr name v, i => i = .staticAttribute name v
  | .text v, i => i = .staticText v
  | .textNode v, i => i = .staticTextNode v
  | .dynamicProperty p f s, i => i = .dynamicProperty p (.compute f) (slotOf s)
  | .dynamicAttr name f s, i => i = .dynamicAttribute name (.compute f) (slotOf s)
  | .dynamicText f s, i => i = .dynamicText (.compute f) (slotOf s)
  | .dynamicTextNode f s, i => i = .dynamicTextNode (.compute f) (slotOf s)
  | .propertyFrom p src s, i => i = .dynamicProperty p (bindingOf src) (slotOf s)
  | .attrFrom name src s, i => i = .dynamicAttribute name (bindingOf src) (slotOf s)
  | .textNodeFrom src s, i => i = .dynamicTextNode (bindingOf src) (slotOf s)
  | .ternary test s c a, i => ∃ cq aq, i = .ternary ⟨test, slotOf s, cq, aq⟩ ∧
      Call.CarriesAll c cq.instructions ∧ Call.CarriesAll a aq.instructions
  | .loopMap col s key opts t, i => ∃ tq sole,
      i = .loop ⟨col, slotOf s, key, opts.props, opts.shouldUpdate, tq, sole⟩ ∧
      Call.CarriesAll t tq.instructions
  | .component f s body, i => ∃ bq, i = .component ⟨f, slotOf s, bq⟩ ∧
      Call.CarriesAll body bq.instructions
  | .didMount f, i => i = .didMount f
  | .didUpdate f, i => i = .didUpdate f
  | .on event h s refresh, i => i = .event event h (slotOf s) refresh

/-- Instructions stand for calls one for one, in order. -/
def Call.CarriesAll : List Call → List Instruction → Prop
  | [], [] => True
  | c :: cs, i :: is => c.Carries i ∧ Call.CarriesAll cs is
  | _, _ => False
end

theorem carriesAll_iff_forall₂ :
    ∀ {cs : List Call} {is : List Instruction},
      Call.CarriesAll cs is ↔ List.Forall₂ Call.Carries cs is
  | [], [] => by simp [Call.CarriesAll]
  | [], _ :: _ => by simp [Call.CarriesAll]
  | _ :: _, [] => by simp [Call.CarriesAll]
  | c :: cs, i :: is => by simp [Call.CarriesAll, carriesAll_iff_forall₂]

end ProgramBuilder

namespace Decoder

/-! ### The words each reader consumes

A reader that succeeds has consumed one operand word, of its kind, and its result is what that
word holds; the checks on the open constructs consume nothing. -/

section Consumed

variable {op : Opcode} {offset : Nat} {r : Operand} {k : FunctionKind} {st st' : Decoder}

@[grind →] theorem string_rest {s : String} (h : (string op offset r).run st = .ok (s, st')) :
    st.rest = .str s :: st'.rest := by
  rcases st with ⟨_ | ⟨w, rest⟩, pos, limit, es, used, vs, count, is⟩
  · simp [string, operand] at h
  · cases w <;> simp [string, operand] at h
    obtain ⟨rfl, rfl⟩ := h
    rfl

@[grind →] theorem function_rest {s : Script}
    (h : (function op offset r k).run st = .ok (s, st')) :
    st.rest = .function k s :: st'.rest := by
  rcases st with ⟨_ | ⟨w, rest⟩, pos, limit, es, used, vs, count, is⟩
  · simp [function, operand] at h
  · cases w <;> simp [function, operand] at h
    split at h <;> simp at h
    obtain ⟨rfl, rfl⟩ := h
    simp_all

@[grind →] theorem optionalFunction_rest {s : Option Script}
    (h : (optionalFunction op offset r k).run st = .ok (s, st')) :
    st.rest = (s.map (.function k)).getD .null :: st'.rest := by
  rcases st with ⟨_ | ⟨w, rest⟩, pos, limit, es, used, vs, count, is⟩
  · simp [optionalFunction, operand] at h
  · cases w <;> simp [optionalFunction, operand] at h
    · obtain ⟨rfl, rfl⟩ := h
      rfl
    · split at h <;> simp at h
      obtain ⟨rfl, rfl⟩ := h
      simp_all

@[grind →] theorem compute_rest {b : Binding} (h : (compute op offset).run st = .ok (b, st')) :
    ∃ f, b = .compute f ∧ st.rest = .function .compute f :: st'.rest := by
  simp only [compute, StateT.run_map] at h
  rcases hf : (function op offset .value .compute).run st with e | ⟨f, st₁⟩ <;>
    rw [hf] at h <;> simp at h
  obtain ⟨rfl, rfl⟩ := h
  exact ⟨f, rfl, function_rest hf⟩

@[grind →] theorem source_rest {b : Binding} (h : (source op offset).run st = .ok (b, st')) :
    (∃ name, b = .prop name ∧ st.rest = .str name :: st'.rest) ∨
      ∃ n : Nat, b = .sibling n ∧ st.rest = .int n :: st'.rest := by
  rcases st with ⟨_ | ⟨w, rest⟩, pos, limit, es, used, vs, count, is⟩
  · simp [source, operand] at h
  · cases w <;> simp [source, operand] at h
    · obtain ⟨rfl, rfl⟩ := h
      simp
    · split at h <;> simp at h
      rename_i hn
      obtain ⟨rfl, rfl⟩ := h
      simp [Int.toNat_of_nonneg hn.1]

@[grind →] theorem subprogram_rest {sub : List Word → Except DecodeError Program} {q : Program}
    (h : (subprogram sub op offset r).run st = .ok (q, st')) :
    ∃ ws, sub ws = .ok q ∧ st.rest = .program ws :: st'.rest := by
  rcases st with ⟨_ | ⟨w, rest⟩, pos, limit, es, used, vs, count, is⟩
  · simp [subprogram, operand] at h
  · cases w <;> simp [subprogram, operand] at h
    rename_i ws
    rcases hs : sub ws with e | q' <;> rw [hs] at h <;> simp at h
    obtain ⟨rfl, rfl⟩ := h
    exact ⟨ws, hs, rfl⟩

@[grind →] theorem slot_rest {s : Nat} (h : (slot op offset).run st = .ok (s, st')) :
    st.rest = .int s :: st'.rest := by
  rcases st with ⟨_ | ⟨w, rest⟩, pos, limit, es, used, vs, count, is⟩
  · simp [slot, operand] at h
  · cases w <;> simp [slot, operand] at h
    split_ifs at h with hn hl hu
    simp at h
    obtain ⟨rfl, rfl⟩ := h
    simp [Int.toNat_of_nonneg (not_lt.1 hn)]

@[grind →] theorem valueSlot_rest {s : Nat} (h : (valueSlot op offset).run st = .ok (s, st')) :
    st.rest = .int s :: st'.rest := by
  simp only [valueSlot, run_bind_ok] at h
  obtain ⟨s', st₁, h₁, h⟩ := h
  simp at h
  obtain ⟨rfl, rfl⟩ := h
  simpa using slot_rest h₁

variable {u : Unit}

@[grind →] theorem expectElement_rest (h : (expectElement op offset).run st = .ok (u, st')) :
    st' = st :=
  (expectElement_record h).1

@[grind →] theorem child_rest (h : (child op offset).run st = .ok (u, st')) :
    st'.rest = st.rest := by
  obtain ⟨es, -, rfl⟩ := child_run_ok.1 h
  rfl

@[grind →] theorem textContent_rest (h : (textContent op offset).run st = .ok (u, st')) :
    st'.rest = st.rest := by
  rcases st with ⟨rest, pos, limit, _ | ⟨⟨o, c, n, l, t⟩ | o, es⟩, used, vs, count, is⟩
    <;> simp [textContent] at h
  · subst h
    rfl
  · split at h <;> simp at h
    subst h
    rfl
  · subst h
    rfl

@[grind →] theorem close_rest {element : Bool}
    (h : (close op offset element).run st = .ok (u, st')) :
    st'.rest = st.rest := by
  cases element
  · obtain ⟨o, es, -, rfl⟩ := closeFragment_run_ok.1 h
    rfl
  · obtain ⟨o, c, n, l, t, es, -, rfl⟩ := closeElement_run_ok.1 h
    rfl

@[grind →] theorem openElement_rest {tag : ElementTag} {i : Instruction}
    (h : (openElement op offset tag).run st = .ok (i, st')) :
    i = .openElement tag ∧ st'.rest = st.rest := by
  simp only [openElement, run_bind_ok] at h
  obtain ⟨_, st₁, h₁, h⟩ := h
  simp at h
  obtain ⟨rfl, rfl⟩ := h
  exact ⟨rfl, by simpa using child_rest h₁⟩

theorem run_map_ok {α β : Type} (f : α → β) (m : DecodeM α) {b : β} :
    (f <$> m).run st = .ok (b, st') ↔ ∃ a, m.run st = .ok (a, st') ∧ f a = b := by
  rw [StateT.run_map]
  rcases m.run st with e | ⟨a, st₁⟩ <;> simp [and_comm]

theorem optionalWord_inj {a b : Option Script} :
    (a.map (Word.function k)).getD .null = (b.map (Word.function k)).getD .null ↔ a = b := by
  cases a <;> cases b <;> simp

/-- A loop reads its collection, slot, key and optional functions, then its template. -/
theorem loop_rest {sub : List Word → Except DecodeError Program} {i : Instruction}
    (h : (loop sub offset).run st = .ok (i, st')) :
    ∃ col s key props su ws tq sole, sub ws = .ok tq ∧
      i = .loop ⟨col, s, key, props, su, tq, sole⟩ ∧
      st.rest = .function .collection col :: .int s :: .function .key key ::
        (props.map (.function .props)).getD .null ::
        (su.map (.function .shouldUpdate)).getD .null :: .program ws :: st'.rest := by
  simp only [loop, run_bind_ok, StateT.run_get, except_pure, Except.ok.injEq,
    Prod.mk.injEq] at h
  obtain ⟨_, _, ⟨rfl, rfl⟩, h⟩ := h
  -- outside an element the loop fails before reading anything
  rcases hc : enclosingChildren st.enclosures with _ | n <;> simp only [hc] at h
  · simp at h
  · simp only [pure_bind, run_bind_ok, StateT.run_modify, except_pure, Except.ok.injEq,
      Prod.mk.injEq] at h
    grind [pure_run_ok]

end Consumed

/-! ### One call -/

section Calls

open ProgramBuilder

variable {sub : List Word → Except DecodeError Program}

/-- Reading the instruction of a call's opcode from the call's operands gives an instruction
that carries the call, and consumes exactly those operands. -/
theorem instruction_carries {c : Call} {offset : Nat} {st st' : Decoder} {i : Instruction}
    {rest : List Word}
    (hsub : ∀ cs q, Word.program (ofCalls cs).words.toList ∈ c.operands →
      sub (ofCalls cs).words.toList = .ok q → Call.CarriesAll cs q.instructions)
    (hr : st.rest = c.operands ++ rest)
    (h : (instruction sub c.opcode offset).run st = .ok (i, st')) :
    c.Carries i ∧ st'.rest = rest := by
  -- each case runs the decoder's code for the call's opcode; the facts of the readers pin each
  -- operand word to the value read, and the call's own operands then fix those values
  cases c
  case openElement tag =>
    by_cases hd : tag = "div"
    · subst hd
      simp only [Call.opcode, instruction] at h
      grind [Call.operands, Call.Carries, tagOf]
    by_cases hs : tag = "span"
    · subst hs
      simp only [Call.opcode, instruction] at h
      grind [Call.operands, Call.Carries, tagOf]
    · simp only [Call.opcode, beq_iff_eq, hd, hs, if_false, instruction, run_bind_ok] at h
      grind [Call.operands, Call.Carries, tagOf]
  case propertyFrom p src s =>
    cases p <;> cases src <;> simp only [Call.opcode, Property.dynamicOpcode, instruction,
      run_bind_ok] at h <;>
      grind [pure_run_ok, Call.operands, Call.Carries, slot_eq_int, bindingOf, SlotSource.word]
  case staticProperty p v | dynamicProperty p f s =>
    cases p <;> simp only [Call.opcode, Property.staticOpcode, Property.dynamicOpcode, instruction,
      run_bind_ok] at h <;>
      grind [pure_run_ok, Call.operands, Call.Carries, slot_eq_int, bindingOf, SlotSource.word]
  case on event f s refresh =>
    cases refresh <;> simp only [Call.opcode, Bool.false_eq_true, ↓reduceIte, instruction,
      run_bind_ok] at h <;>
      grind [pure_run_ok, Call.operands, Call.Carries, slot_eq_int]
  case attrFrom name src s | textNodeFrom src s =>
    cases src <;> simp only [Call.opcode, instruction, run_bind_ok] at h <;>
      grind [pure_run_ok, Call.operands, Call.Carries, slot_eq_int, bindingOf, SlotSource.word]
  case fragment =>
    simp only [Call.opcode, instruction, run_bind_ok, StateT.run_modify, except_pure,
      Except.ok.injEq] at h
    grind [pure_run_ok, Call.operands, Call.Carries]
  case didMount f | didUpdate f =>
    simp only [Call.opcode, instruction, run_map_ok] at h
    grind [Call.operands, Call.Carries]
  case loopMap col s key opts t =>
    simp only [Call.opcode, instruction] at h
    obtain ⟨col', s', key', props, su, ws, tq, sole, hq, rfl, hst⟩ := loop_rest h
    rw [hr] at hst
    simp only [Call.operands, slot_eq_int, List.cons_append, List.cons.injEq,
      Word.function.injEq, Word.int.injEq, Word.program.injEq, optionalWord_inj,
      Nat.cast_inj, true_and] at hst
    obtain ⟨rfl, rfl, rfl, rfl, rfl, rfl, hst⟩ := hst
    exact ⟨⟨tq, sole, rfl, hsub t tq (by simp [Call.operands]) hq⟩, hst.symm⟩
  all_goals simp only [Call.opcode, instruction, run_bind_ok] at h
  all_goals
    grind [pure_run_ok, Call.operands, Call.Carries, slot_eq_int, bindingOf, SlotSource.word]

/-- Reading the words of a sequence of calls reads one instruction per call, in order, each
carrying its call. -/
theorem run_carries :
    ∀ (cs : List Call) (n : Nat) (st st' : Decoder),
      (∀ c ∈ cs, ∀ cs' q, Word.program (ofCalls cs').words.toList ∈ c.operands →
        sub (ofCalls cs').words.toList = .ok q → Call.CarriesAll cs' q.instructions) →
      cs.length ≤ n → st.rest = cs.flatMap Call.words → (run sub n).run st = .ok ((), st') →
      ∃ is, st'.instructions.toList = st.instructions.toList ++ is ∧
        List.Forall₂ Call.Carries cs is
  | [], n, st, st', _, _, hr, h => by
    rw [run_nil sub n (by simpa using hr)] at h
    cases h
    exact ⟨[], by simp, .nil⟩
  | c :: cs, n + 1, st, st', hsub, hn, hr, h => by
    have hr' : st.rest = .op c.opcode.tag :: (c.operands ++ cs.flatMap Call.words) := by
      simp [hr, Call.words, Word.ofOpcode]
    obtain ⟨op, i, st₁, hop, hi, h⟩ := (run_succ_op_ok sub hr').1 h
    obtain rfl : op = c.opcode := by
      rw [Opcode.ofTag?_tag] at hop
      exact (Option.some.inj hop).symm
    obtain ⟨hc, hrest⟩ := instruction_carries (hsub c (List.mem_cons_self ..)) rfl hi
    have hinstr := (instruction_reads hi).instructions
    obtain ⟨is, his, hall⟩ :=
      run_carries cs n { st₁ with instructions := st₁.instructions.push i } st'
        (fun c' hc' => hsub c' (List.mem_cons_of_mem _ hc')) (by simpa using hn) hrest h
    refine ⟨i :: is, ?_, .cons hc hall⟩
    simp [his, hinstr]

end Calls

end Decoder

namespace ProgramBuilder

theorem length_le_words (cs : List Call) : cs.length ≤ (cs.flatMap Call.words).length := by
  induction cs with
  | nil => simp
  | cons c cs ih =>
    simp only [List.length_cons, List.flatMap_cons, List.length_append, Call.words]
    omega

/-- With fuel beyond the nesting of its sub-programs, decoding the words of a sequence of calls
gives one instruction per call, each carrying its call. -/
theorem decodeWith_carries : ∀ (n : Nat) (cs : List Call) (p : Program),
    Word.nestingList (ofCalls cs).words.toList < n →
    Program.decodeWith n (ofCalls cs).words.toList = .ok p →
    List.Forall₂ Call.Carries cs p.instructions
  | 0, _, _, hn, _ => absurd hn (Nat.not_lt_zero _)
  | n + 1, cs, p, hn, h => by
    simp only [Program.decodeWith, StateT.run'_eq, StateT.run_bind] at h
    rcases hrun : (Decoder.run (Program.decodeWith n) (ofCalls cs).words.toList.length).run
      { rest := (ofCalls cs).words.toList, pos := 0, limit := (ofCalls cs).words.toList.length }
      with e | ⟨u, st'⟩ <;> rw [hrun] at h
    · cases h
    simp only [Decoder.except_ok_bind] at h
    rcases hfin : Decoder.finish.run st' with e | ⟨q, st''⟩ <;> rw [hfin] at h <;> cases h
    obtain ⟨-, rfl⟩ := Decoder.finish_run_ok hfin
    -- sub-builders nest less deeply, so the theorem holds of them with the fuel they get
    have hsub : ∀ c ∈ cs, ∀ cs' q, Word.program (ofCalls cs').words.toList ∈ c.operands →
        Program.decodeWith n (ofCalls cs').words.toList = .ok q →
        Call.CarriesAll cs' q.instructions := by
      intro c hc cs' q hmem hq
      have hw : Word.program (ofCalls cs').words.toList ∈ (ofCalls cs).words.toList := by
        rw [ofCalls_words]
        exact List.mem_flatMap.2 ⟨c, hc, List.mem_cons_of_mem _ hmem⟩
      have hlt := Wire.nestingList_lt hw
      exact carriesAll_iff_forall₂.2 (decodeWith_carries n cs' q (by omega) hq)
    obtain ⟨is, his, hall⟩ := Decoder.run_carries cs _ _ st' hsub
      (by rw [ofCalls_words]; exact length_le_words cs) (ofCalls_words cs) hrun
    simpa [Program.instructions, his] using hall

/-- Whatever a sequence of calls builds has one instruction per call, each carrying its
call. -/
theorem build_carries {cs : List Call} {p : Program} (h : (ofCalls cs).build = .ok p) :
    List.Forall₂ Call.Carries cs p.instructions :=
  decodeWith_carries _ cs p (Nat.lt_succ_self _) h

end ProgramBuilder

end Canopy
