import Mathlib
import Canopy.Proofs.Program.Building

/-!
# Well-formed builder calls build

`ProgramBuilder.build` checks nothing itself: it decodes the words the calls wrote. This file
states, on the calls alone, when those words are a program, and proves that such calls always
build.

Calls are well formed (`ProgramBuilder.WellFormedCalls`) when they read as a forest
(`ProgramBuilder.Nest`): every element and fragment is closed by its own call, calls that set
something on an element stand directly inside one, a loop stands inside some element and is the
last of its element's children, and an element holds text content or children, never both. The
slots the calls claim are distinct and below the number of words written, a slot source names
the slot of an earlier dynamic leaf, and every sub-builder is well formed in turn.

Each call writes the instruction its opcode takes, operand for operand (`Call.instr_reads`), and
the forest of calls writes a forest of instructions standing where the same rules put them
(`Nest.placed_markup`). So well-formed calls write a well-formed wire program
(`WellFormedCalls.wire`), which the decoder accepts, one instruction per call.
-/

namespace Canopy

namespace ProgramBuilder

namespace Call

/-- The wire instruction a call writes. -/
def instr (c : Call) : Wire.Instr :=
  ⟨c.opcode, c.operands⟩

/-- The role of the instruction a call writes. -/
def role (c : Call) : Role :=
  c.opcode.role

/-- The slot a call claims, if it claims one. -/
def slots : Call → List Nat
  | .dynamicProperty _ _ s | .dynamicAttr _ _ s | .dynamicText _ s | .dynamicTextNode _ s
  | .propertyFrom _ _ s | .attrFrom _ _ s | .textNodeFrom _ s | .ternary _ s _ _
  | .loopMap _ s _ _ _ | .component _ s _ | .on _ _ s _ => [s]
  | _ => []

/-- The slot of a call that writes a dynamic leaf, whose value later slot sources may read. -/
def valueSlots : Call → List Nat
  | .dynamicProperty _ _ s | .dynamicAttr _ _ s | .dynamicText _ s | .dynamicTextNode _ s
  | .propertyFrom _ _ s | .attrFrom _ _ s | .textNodeFrom _ s => [s]
  | _ => []

/-- The earlier slot a call takes its value from, if its source is a slot. -/
def sources : Call → List Nat
  | .propertyFrom _ (.slot n) _ | .attrFrom _ (.slot n) _ | .textNodeFrom (.slot n) _ => [n]
  | _ => []

/-- The calls of a call's sub-builders. -/
def subBuilders : Call → List (List Call)
  | .ternary _ _ c a => [c, a]
  | .loopMap _ _ _ _ t => [t]
  | .component _ _ body => [body]
  | _ => []

theorem instr_words (c : Call) : c.instr.words = c.words := rfl

/-- Read by operand kind, the instruction a call writes has exactly the operands its opcode
takes, and its slots, value slots, slot sources and sub-programs are the call's own. -/
theorem instr_reads (c : Call) :
    c.instr.Admitted ∧ c.instr.slots = c.slots.map (fun n => (slotOf n : Int)) ∧
      c.instr.valueSlots = c.valueSlots.map (fun n => (slotOf n : Int)) ∧
      c.instr.sources = c.sources.map (fun n => (slotOf n : Int)) ∧
      c.instr.subprograms = c.subBuilders.map (fun cs => (ofCalls cs).words.toList) := by
  simp only [instr, Wire.Instr.Admitted, Wire.Instr.slots, Wire.Instr.valueSlots,
    Wire.Instr.sources, Wire.Instr.subprograms, Wire.Instr.operandsOf, Opcode.operandKinds]
  cases c
  case openElement tag =>
    -- `div` and `span` have opcodes of their own, without the tag operand
    simp only [opcode, operands]
    split_ifs <;> simp_all [Opcode.operands, Opcode.holdsValue, OperandKind.Admits, Word.int?,
      Word.program?, slots, valueSlots, sources, subBuilders]
  case staticProperty p v | dynamicProperty p f s | propertyFrom p src s | attrFrom name src s
    | textNodeFrom src s | on event h s refresh =>
    first | cases p | cases refresh | skip
    all_goals (try cases src)
    all_goals simp [opcode, operands, Opcode.operands, Opcode.holdsValue, OperandKind.Admits,
      Property.staticOpcode, Property.dynamicOpcode, SlotSource.word, slot_eq_int, Word.int?,
      Word.program?, slots, valueSlots, sources, subBuilders]
  case loopMap col s key opts t =>
    rcases opts with ⟨_ | props, _ | su⟩ <;> simp [opcode, operands, Opcode.operands,
      Opcode.holdsValue, OperandKind.Admits, slot_eq_int, Word.int?, Word.program?, slots,
      valueSlots, sources, subBuilders]
  all_goals simp [opcode, operands, Opcode.operands, Opcode.holdsValue, OperandKind.Admits,
    slot_eq_int, Word.int?, Word.program?, slots, valueSlots, sources, subBuilders]

/-- Read over a sequence of calls, a part of the instructions that each call's own part gives
is the calls' parts put together. -/
theorem flatMap_instr {α : Type} {g : Wire.Instr → List α} {h : Call → List Nat} (φ : Nat → α)
    (hg : ∀ c, g c.instr = (h c).map φ) (cs : List Call) :
    (cs.map instr).flatMap g = (cs.flatMap h).map φ := by
  simp [List.flatMap_map, hg, List.map_flatMap]

end Call

/-- Calls read as a forest: an element from its opening call to its `close`, a fragment from
`fragment` to `endFragment`, each with the calls in between, or a single call. -/
inductive Nest where
  | element (opening : Call) (body : List Nest)
  | fragment (body : List Nest)
  | leaf (c : Call)

namespace Nest

mutual
/-- The calls of a piece of a forest, in order. -/
def calls : Nest → List Call
  | .element o body => o :: callsList body ++ [.close]
  | .fragment body => .fragment :: callsList body ++ [.endFragment]
  | .leaf c => [c]

/-- The calls of a forest, in order. -/
def callsList : List Nest → List Call
  | [] => []
  | n :: ns => n.calls ++ callsList ns
end

mutual
/-- The children a piece of a forest gives its element: a fragment is looked through. -/
def kids : Nest → List Nest
  | .fragment body => kidsList body
  | n => [n]

/-- The children a forest gives its element. -/
def kidsList : List Nest → List Nest
  | [] => []
  | n :: ns => n.kids ++ kidsList ns
end

/-- The role of a piece of a forest: an element opens one, a fragment one, and a single call
has the role of what it writes. -/
def role : Nest → Role
  | .element .. => .opensElement
  | .fragment _ => .opensFragment
  | .leaf c => c.role

mutual
/-- A piece of a forest stands where its calls may: `direct` says whether its parent is an
element, `enclosed` whether some element encloses it. An element is opened by a call that opens
one, and its children hold text content alone or nothing after a loop; a single call is a leaf,
directly inside an element if it sets something on one, and inside some element if it is a
loop. -/
def Placed (direct enclosed : Bool) : Nest → Prop
  | .element o body =>
    o.role = .opensElement ∧ PlacedList true true body ∧ Wire.KidsFit ((kidsList body).map role)
  | .fragment body => PlacedList false enclosed body
  | .leaf c =>
    c.role.isLeaf = true ∧ (c.role.needsElement = true → direct = true) ∧
      (c.role = .loop → enclosed = true)

/-- Every piece of a forest stands where its calls may. -/
def PlacedList (direct enclosed : Bool) : List Nest → Prop
  | [] => True
  | n :: ns => n.Placed direct enclosed ∧ PlacedList direct enclosed ns
end

mutual
/-- The wire markup a piece of a forest writes. -/
def markup : Nest → Wire.Markup
  | .element o body => .element o.instr (markupList body)
  | .fragment body => .fragment (markupList body)
  | .leaf c => .leaf c.instr

/-- The wire markup a forest writes. -/
def markupList : List Nest → List Wire.Markup
  | [] => []
  | n :: ns => n.markup :: markupList ns
end

mutual
theorem instrs_markup : ∀ n : Nest, n.markup.instrs = n.calls.map Call.instr
  | .element o body => by
    simp [markup, calls, Wire.Markup.instrs, instrsList_markupList body]
    rfl
  | .fragment body => by
    simp [markup, calls, Wire.Markup.instrs, instrsList_markupList body]
    constructor <;> rfl
  | .leaf c => rfl

theorem instrsList_markupList :
    ∀ ns : List Nest, Wire.Markup.instrsList (markupList ns) = (callsList ns).map Call.instr
  | [] => rfl
  | n :: ns => by
    simp [markupList, callsList, Wire.Markup.instrsList, instrs_markup n, instrsList_markupList ns]
end

mutual
theorem kids_markup : ∀ n : Nest, n.markup.kids = n.kids.map markup
  | .element o body => rfl
  | .fragment body => by simp [markup, kids, Wire.Markup.kids, kidsList_markupList body]
  | .leaf c => rfl

theorem kidsList_markupList :
    ∀ ns : List Nest, Wire.Markup.kidsList (markupList ns) = (kidsList ns).map markup
  | [] => rfl
  | n :: ns => by
    simp [markupList, kidsList, Wire.Markup.kidsList, kids_markup n, kidsList_markupList ns]
end

theorem role_markup (n : Nest) : n.markup.role = n.role := by
  cases n <;> rfl

mutual
theorem placed_markup {d e : Bool} : ∀ n : Nest, n.Placed d e → n.markup.Placed d e
  | .element o body, ⟨ho, hbody, hfit⟩ => by
    refine ⟨ho, placedList_markupList body hbody, ?_⟩
    simpa [kidsList_markupList, Function.comp_def, role_markup] using hfit
  | .fragment body, h => placedList_markupList body h
  | .leaf c, h => h

theorem placedList_markupList {d e : Bool} :
    ∀ ns : List Nest, PlacedList d e ns → Wire.Markup.PlacedList d e (markupList ns)
  | [], _ => trivial
  | n :: ns, ⟨hn, hns⟩ => ⟨placed_markup n hn, placedList_markupList ns hns⟩
end

end Nest

/-- Well-formed builder calls: they read as a forest whose pieces stand where their calls may;
the words they write fit the signed 64-bit range, as every array in memory does; the slots they
claim are distinct and below the number of words; a slot source names the slot of an earlier
dynamic leaf; and every sub-builder's calls are well formed in turn. -/
inductive WellFormedCalls : List Call → Prop where
  | intro {cs : List Call} (f : List Nest) (calls : Nest.callsList f = cs)
      (placed : Nest.PlacedList false false f)
      (fits : (ofCalls cs).words.size ≤ 9223372036854775807)
      (slot_lt : ∀ n ∈ cs.flatMap Call.slots, n < (ofCalls cs).words.size)
      (slots_nodup : (cs.flatMap Call.slots).Nodup)
      (sources_earlier : ∀ i (hi : i < cs.length), ∀ n ∈ cs[i].sources,
        n ∈ (cs.take i).flatMap Call.valueSlots)
      (subBuilders : ∀ c ∈ cs, ∀ sub ∈ c.subBuilders, WellFormedCalls sub) :
      WellFormedCalls cs

theorem WellFormedCalls.nil : WellFormedCalls [] :=
  .intro [] rfl trivial (by decide) (by simp) (by simp) (by simp) (by simp)

theorem slotOf_of_lt {n : Nat} (h : n < 9223372036854775807) : slotOf n = n :=
  Nat.min_eq_left h.le

/-- Well-formed calls write a well-formed wire program. -/
theorem WellFormedCalls.wire {cs : List Call} (h : WellFormedCalls cs) :
    Wire.WellFormed (ofCalls cs).words.toList := by
  -- induction on the sub-builders; the forest of calls writes the forest of the words
  induction h with
  | @intro cs f hcalls hplaced hfits hlt hnd hsrc _ ih =>
  have hinstrs : Wire.Markup.instrsList (Nest.markupList f) = cs.map Call.instr := by
    rw [Nest.instrsList_markupList, hcalls]
  have hslots := Call.flatMap_instr _ (fun c => (Call.instr_reads c).2.1) cs
  have hvalues := Call.flatMap_instr _ (fun c => (Call.instr_reads c).2.2.1)
  -- below the word count, and so below the saturation point, a slot is written as itself
  have hsat : ∀ n ∈ cs.flatMap Call.slots, slotOf n = n := fun n hn =>
    slotOf_of_lt (by have := hlt n hn; omega)
  refine .intro (Nest.markupList f) ?_ (Nest.placedList_markupList f hplaced) ?_ ?_ ?_ ?_ ?_ <;>
    simp only [Wire.Markup.wordsList, hinstrs]
  · simp [List.flatMap_map, Call.instr_words, ofCalls_words]
  · simp only [List.mem_map]
    rintro _ ⟨c, -, rfl⟩
    exact (Call.instr_reads c).1
  · rw [hslots]
    simp only [List.mem_map, Array.length_toList]
    rintro _ ⟨n, hn, rfl⟩
    rw [hsat n hn]
    exact_mod_cast hlt n hn
  · rw [hslots]
    refine hnd.map_on fun a ha b hb hab => ?_
    rw [hsat a ha, hsat b hb] at hab
    exact_mod_cast hab
  · -- the instruction at a split of the written instructions is the call at that position
    intro pre x post hsplit n hn
    obtain ⟨l₁, l₂, rfl, rfl, hl₂⟩ := List.map_eq_append_iff.1 hsplit
    obtain ⟨c, post', rfl, rfl, -⟩ := List.map_eq_cons_iff.1 hl₂
    rw [(Call.instr_reads c).2.2.2.1] at hn
    obtain ⟨m, hm, rfl⟩ := List.mem_map.1 hn
    have hearlier := hsrc l₁.length (by simp) m (by simpa using hm)
    simp only [List.take_left'] at hearlier
    rw [hvalues]
    exact List.mem_map_of_mem hearlier
  · simp only [List.mem_map]
    rintro _ ⟨c, hc, rfl⟩ ws hws
    rw [(Call.instr_reads c).2.2.2.2] at hws
    obtain ⟨sub, hsub, rfl⟩ := List.mem_map.1 hws
    exact ih c hc sub hsub

/-- Well-formed builder calls build, and the program has exactly one instruction per call, in
call order, each carrying its call's operands: the tag, names and values, binding, slot, loop
functions and, recursively, sub-programs. -/
theorem build_ofCalls {cs : List Call} (h : WellFormedCalls cs) :
    ∃ p, (ofCalls cs).build = .ok p ∧ List.Forall₂ Call.Carries cs p.instructions := by
  obtain ⟨p, hp⟩ := (Program.decode_ok_iff_wellFormed _).2 h.wire
  exact ⟨p, hp, build_carries hp⟩

/-- A `div` whose id copies its computed class name, holding a ternary between a text node and
nothing. -/
def ternaryInDiv : List Call :=
  [.openElement "div", .dynamicProperty .className ⟨.str "box"⟩ 0, .propertyFrom .id (.slot 0) 1,
    .ternary ⟨.bool true⟩ 2 [.textNode "yes"] [], .close]

theorem build_ternaryInDiv :
    WellFormedCalls ternaryInDiv ∧ ∃ p, (ofCalls ternaryInDiv).build = .ok p ∧
      List.Forall₂ Call.Carries ternaryInDiv p.instructions := by
  have hyes : WellFormedCalls [.textNode "yes"] :=
    .intro [.leaf (.textNode "yes")] rfl
      (by simp [Nest.PlacedList, Nest.Placed, Call.role, Call.opcode, Opcode.role, Role.isLeaf,
        Role.needsElement])
      (by decide +kernel) (by simp [Call.slots]) (by simp [Call.slots]) (by simp [Call.sources])
      (by simp [Call.subBuilders])
  have h : WellFormedCalls ternaryInDiv := by
    refine .intro [.element (.openElement "div") [.leaf (.dynamicProperty .className ⟨.str "box"⟩ 0),
      .leaf (.propertyFrom .id (.slot 0) 1), .leaf (.ternary ⟨.bool true⟩ 2 [.textNode "yes"] [])]]
      rfl ?_ (by decide +kernel) (by decide +kernel) (by decide +kernel) (by decide +kernel) ?_
    · simp [Nest.PlacedList, Nest.Placed, Nest.kidsList, Nest.kids, Nest.role, Call.role,
        Call.opcode, Opcode.role, Role.isLeaf, Role.needsElement, Property.dynamicOpcode]
      exact ⟨by simp, fun r h => absurd (h.subset List.mem_cons_self) (by simp)⟩
    · simp only [ternaryInDiv, List.mem_cons, List.not_mem_nil, or_false]
      rintro c (rfl | rfl | rfl | rfl | rfl) sub hsub <;> simp [Call.subBuilders] at hsub
      rcases hsub with rfl | rfl
      · exact hyes
      · exact .nil
  exact ⟨h, build_ofCalls h⟩

end ProgramBuilder

end Canopy
