import Canopy.Proofs.Program.Layout
import Canopy.Proofs.Wire.Acceptance

/-!
# Decoded programs are well formed

`Program.decode` checks the shape of a program while it reads it, one instruction at a time,
and every check it makes is one of the layout's rules (`Program.WellFormed`): so whatever it
returns is well formed.

The decoder's state carries a `Layout` of its own: its open elements and fragments, the slots it
has claimed and the slots of dynamic values. Reading one instruction admits it after that
layout and pushes it (`Decoder.Reads`), so along the whole read the decoder's layout is the
layout of the instructions it has built (`Decoder.Builds`); at the end nothing is open.
-/

namespace Canopy

/-- Whether an open construct is an element. -/
def Enclosure.isElement : Enclosure → Bool
  | .element .. => true
  | .fragment _ => false

namespace Decoder

/-- The layout the decoder has laid down: its open constructs, innermost first, the slots it
has claimed and the slots of dynamic values. -/
def layout (st : Decoder) : Layout :=
  ⟨st.enclosures.map Enclosure.isElement, st.used, st.valueSlots⟩

/-- What a program's layout is read from: the decoder's layout, its slot count and the
instructions built so far. -/
def record (st : Decoder) : Layout × Nat × Array Instruction :=
  (st.layout, st.slotCount, st.instructions)

/-! ### The shape of the open constructs -/

/-- Counting a child changes no open construct into another kind. -/
theorem addChild_shape {op : Opcode} {offset : Nat} :
    ∀ {es es' : List Enclosure}, addChild op offset es = .ok es' →
      es'.map Enclosure.isElement = es.map Enclosure.isElement
  | [], _, h => by
    simp only [addChild] at h
    cases h
    rfl
  | .fragment o :: es, es', h => by
    simp only [addChild] at h
    rcases hc : addChild op offset es with e | es₁ <;> rw [hc] at h
    · cases h
    · cases h
      simp [Enclosure.isElement, addChild_shape hc]
  | .element o c n l t :: es, es', h => by
    simp only [addChild] at h
    split at h
    · cases h
    · split at h <;> cases h
      rfl

theorem markLoop_shape (offset : Nat) :
    ∀ es : List Enclosure, (markLoop offset es).map Enclosure.isElement =
      es.map Enclosure.isElement
  | [] => rfl
  | .fragment _ :: es => by simp [markLoop, Enclosure.isElement, markLoop_shape offset es]
  | .element .. :: _ => rfl

theorem mem_shape_of_enclosingChildren :
    ∀ {es : List Enclosure} {n : Nat}, enclosingChildren es = some n →
      true ∈ es.map Enclosure.isElement
  | [], _, h => by simp [enclosingChildren] at h
  | .fragment _ :: _, _, h => List.mem_cons_of_mem _ (mem_shape_of_enclosingChildren h)
  | .element .. :: _, _, _ => List.mem_cons_self

/-! ### One operand reader at a time -/

section Readers

variable {op : Opcode} {offset : Nat} {r : Operand} {k : FunctionKind} {st st' : Decoder}

theorem string_record {s : String} (h : (string op offset r).run st = .ok (s, st')) :
    st'.record = st.record := by
  rcases st with ⟨_ | ⟨w, rest⟩, pos, limit, es, used, vs, count, is⟩
  · simp [string, operand] at h
  · cases w <;> simp [string, operand] at h
    obtain ⟨-, rfl⟩ := h
    rfl

theorem function_record {s : Script} (h : (function op offset r k).run st = .ok (s, st')) :
    st'.record = st.record := by
  rcases st with ⟨_ | ⟨w, rest⟩, pos, limit, es, used, vs, count, is⟩
  · simp [function, operand] at h
  · cases w <;> simp [function, operand] at h
    split at h <;> simp at h
    obtain ⟨-, rfl⟩ := h
    rfl

theorem optionalFunction_record {s : Option Script}
    (h : (optionalFunction op offset r k).run st = .ok (s, st')) : st'.record = st.record := by
  rcases st with ⟨_ | ⟨w, rest⟩, pos, limit, es, used, vs, count, is⟩
  · simp [optionalFunction, operand] at h
  · cases w <;> simp [optionalFunction, operand] at h
    · obtain ⟨-, rfl⟩ := h
      rfl
    · split at h <;> simp at h
      obtain ⟨-, rfl⟩ := h
      rfl

theorem compute_record {b : Binding} (h : (compute op offset).run st = .ok (b, st')) :
    st'.record = st.record ∧ b.sibling? = none := by
  simp only [compute, StateT.run_map] at h
  rcases hf : (function op offset .value .compute).run st with e | ⟨s, st₁⟩ <;>
    rw [hf] at h <;> simp at h
  obtain ⟨rfl, rfl⟩ := h
  exact ⟨function_record hf, rfl⟩

/-- A slot source names a slot of a dynamic value read before. -/
theorem source_record {b : Binding} (h : (source op offset).run st = .ok (b, st')) :
    st'.record = st.record ∧ ∀ s ∈ b.sibling?, s ∈ st.valueSlots := by
  rcases st with ⟨_ | ⟨w, rest⟩, pos, limit, es, used, vs, count, is⟩
  · simp [source, operand] at h
  · cases w <;> simp [source, operand] at h
    · obtain ⟨rfl, rfl⟩ := h
      exact ⟨rfl, by simp [Binding.sibling?]⟩
    · split at h <;> simp at h
      rename_i hn
      obtain ⟨rfl, rfl⟩ := h
      refine ⟨rfl, ?_⟩
      simp only [Binding.sibling?, Option.mem_def, Option.some.injEq, forall_eq']
      exact hn.2

/-- A sub-program operand is a program the sub-program decoder returned. -/
theorem subprogram_record {sub : List Word → Except DecodeError Program} {q : Program}
    (h : (subprogram sub op offset r).run st = .ok (q, st')) :
    st'.record = st.record ∧ ∃ ws, sub ws = .ok q := by
  rcases st with ⟨_ | ⟨w, rest⟩, pos, limit, es, used, vs, count, is⟩
  · simp [subprogram, operand] at h
  · cases w <;> simp [subprogram, operand] at h
    rename_i ws
    rcases hs : sub ws with e | q' <;> rw [hs] at h <;> simp at h
    obtain ⟨rfl, rfl⟩ := h
    exact ⟨rfl, ws, hs⟩

/-- A slot operand claims a slot not claimed before. -/
theorem slot_record {s : Nat} (h : (slot op offset).run st = .ok (s, st')) :
    s ∉ st.used ∧ st'.record =
      (⟨st.layout.frames, s :: st.used, st.valueSlots⟩, max st.slotCount (s + 1),
        st.instructions) := by
  rcases st with ⟨_ | ⟨w, rest⟩, pos, limit, es, used, vs, count, is⟩
  · simp [slot, operand] at h
  · cases w <;> simp [slot, operand] at h
    split_ifs at h with hn hl hu
    simp at h
    obtain ⟨rfl, rfl⟩ := h
    exact ⟨hu, rfl⟩

/-- A slot operand of a dynamic value claims a slot and records it as a value slot. -/
theorem valueSlot_record {s : Nat} (h : (valueSlot op offset).run st = .ok (s, st')) :
    s ∉ st.used ∧ st'.record =
      (⟨st.layout.frames, s :: st.used, s :: st.valueSlots⟩, max st.slotCount (s + 1),
        st.instructions) := by
  simp only [valueSlot, run_bind_ok] at h
  obtain ⟨s', st₁, h₁, h⟩ := h
  obtain ⟨hu, hr⟩ := slot_record h₁
  simp at h
  obtain ⟨rfl, rfl⟩ := h
  simp only [record, layout, Prod.mk.injEq, Layout.mk.injEq] at hr ⊢
  exact ⟨hu, ⟨hr.1.1, hr.1.2.1, congrArg (s' :: ·) hr.1.2.2⟩, hr.2⟩

end Readers

/-! ### Placement -/

section Placement

variable {op : Opcode} {offset : Nat} {st st' : Decoder} {u : Unit}

theorem expectElement_record (h : (expectElement op offset).run st = .ok (u, st')) :
    st' = st ∧ st.layout.frames.head? = some true := by
  obtain ⟨⟨o, c, n, l, t, es, he⟩, rfl⟩ := expectElement_run_ok.1 h
  simp [layout, he, Enclosure.isElement]

theorem child_record (h : (child op offset).run st = .ok (u, st')) :
    st'.record = st.record := by
  obtain ⟨es, he, rfl⟩ := child_run_ok.1 h
  simp [record, layout, addChild_shape he]

theorem textContent_record (h : (textContent op offset).run st = .ok (u, st')) :
    st'.record = st.record := by
  rcases st with ⟨rest, pos, limit, _ | ⟨⟨o, c, n, l, t⟩ | o, es⟩, used, vs, count, is⟩ <;>
    simp [textContent] at h
  · subst h
    rfl
  · -- an element takes the text-content flag, which changes no kind of open construct
    split at h <;> simp at h
    subst h
    rfl
  · subst h
    rfl

theorem openElement_record {tag : ElementTag} {i : Instruction}
    (h : (openElement op offset tag).run st = .ok (i, st')) :
    i = .openElement tag ∧ st'.record =
      (⟨true :: st.layout.frames, st.used, st.valueSlots⟩, st.slotCount, st.instructions) := by
  simp only [openElement, run_bind_ok] at h
  obtain ⟨_, st₁, h₁, h⟩ := h
  have hr := child_record h₁
  simp at h
  obtain ⟨rfl, rfl⟩ := h
  simp only [record, layout, Prod.mk.injEq, Layout.mk.injEq] at hr ⊢
  simp [Enclosure.isElement, hr]

theorem close_record {element : Bool} (h : (close op offset element).run st = .ok (u, st')) :
    st.layout.frames.head? = some element ∧ st'.record =
      (⟨st.layout.frames.tail, st.used, st.valueSlots⟩, st.slotCount, st.instructions) := by
  cases element
  · obtain ⟨o, es, he, rfl⟩ := closeFragment_run_ok.1 h
    simp [record, layout, he, Enclosure.isElement]
  · obtain ⟨o, c, n, l, t, es, he, rfl⟩ := closeElement_run_ok.1 h
    simp [record, layout, he, Enclosure.isElement]

end Placement

/-! ### One instruction -/

theorem pure_run_ok {α : Type} {a b : α} {st st' : Decoder}
    (h : (pure a : DecodeM α).run st = .ok (b, st')) : a = b ∧ st = st' := by
  simpa using h

variable (sub : List Word → Except DecodeError Program)

/-- What reading instruction `i` does to the decoder's state: `i` stands where it may in the
open constructs and pushes them on, its slot is new and claimed (as a value slot for a dynamic
value), its slot source was a value slot before it, and its sub-programs are programs `sub`
returned. -/
structure Reads (st : Decoder) (i : Instruction) (st' : Decoder) : Prop where
  frames : i.enter st.layout.frames = some st'.layout.frames
  used : st'.used = i.slot?.toList ++ st.used
  valueSlots : st'.valueSlots = i.valueSlot?.toList ++ st.valueSlots
  slot_new : ∀ s ∈ i.slot?, s ∉ st.used
  slot_lt : ∀ s ∈ i.slot?, s < st'.slotCount
  slotCount : st.slotCount ≤ st'.slotCount
  source : ∀ s ∈ i.source?, s ∈ st.valueSlots
  instructions : st'.instructions = st.instructions
  programs : ∀ q ∈ i.programs, ∃ ws, sub ws = .ok q

variable {sub}

namespace Reads

variable {st st₁ st' : Decoder} {i : Instruction}

/-- An instruction without a slot changes only the open constructs. -/
theorem keep {fs : List Bool} (henter : i.enter st.layout.frames = some fs)
    (h : st'.record = (⟨fs, st.used, st.valueSlots⟩, st.slotCount, st.instructions))
    (hslot : i.slot? = none) (hvalue : i.valueSlot? = none) (hsource : i.source? = none)
    (hprograms : i.programs = []) : Reads sub st i st' := by
  simp only [record, layout, Prod.mk.injEq, Layout.mk.injEq] at h henter
  obtain ⟨⟨hf, hu, hv⟩, hc, hi⟩ := h
  refine ⟨?_, ?_, ?_, ?_, ?_, ?_, ?_, hi, ?_⟩ <;>
    simp [layout, hf, hu, hv, hc, henter, hslot, hvalue, hsource, hprograms]

/-- An instruction without a slot that stands in the open constructs and leaves them as
they are changes nothing a layout is read from. -/
theorem same (henter : i.enter st.layout.frames = some st.layout.frames)
    (h : st'.record = st.record) (hslot : i.slot? = none) (hvalue : i.valueSlot? = none)
    (hsource : i.source? = none) (hprograms : i.programs = []) : Reads sub st i st' :=
  keep henter h hslot hvalue hsource hprograms

/-- A dynamic value claims its slot as a value slot. -/
theorem value {s : Nat} (henter : i.enter st.layout.frames = some st.layout.frames)
    (hslot : i.slot? = some s) (hvalue : i.valueSlot? = some s)
    (hsource : ∀ t ∈ i.source?, t ∈ st.valueSlots) (hprograms : i.programs = [])
    (hnew : s ∉ st.used)
    (h : st'.record = (⟨st.layout.frames, s :: st.used, s :: st.valueSlots⟩,
      max st.slotCount (s + 1), st.instructions)) : Reads sub st i st' := by
  simp only [record, layout, Prod.mk.injEq, Layout.mk.injEq] at h henter
  obtain ⟨⟨hf, hu, hv⟩, hc, hi⟩ := h
  refine ⟨?_, ?_, ?_, ?_, ?_, ?_, hsource, hi, ?_⟩
  · simp [layout, hf, henter]
  · simp [hu, hslot]
  · simp [hv, hvalue]
  · simp [hslot, hnew]
  · simp only [hslot, Option.mem_def, Option.some.injEq, forall_eq', hc]
    exact Nat.lt_of_lt_of_le (Nat.lt_succ_self s) (Nat.le_max_right _ _)
  · rw [hc]
    exact Nat.le_max_left _ _
  · simp [hprograms]

/-- A control structure or an event binding claims its slot. -/
theorem claim {s : Nat} (henter : i.enter st.layout.frames = some st.layout.frames)
    (hslot : i.slot? = some s) (hvalue : i.valueSlot? = none) (hsource : i.source? = none)
    (hprograms : ∀ q ∈ i.programs, ∃ ws, sub ws = .ok q) (hnew : s ∉ st.used)
    (h : st'.record = (⟨st.layout.frames, s :: st.used, st.valueSlots⟩,
      max st.slotCount (s + 1), st.instructions)) : Reads sub st i st' := by
  simp only [record, layout, Prod.mk.injEq, Layout.mk.injEq] at h henter
  obtain ⟨⟨hf, hu, hv⟩, hc, hi⟩ := h
  refine ⟨?_, ?_, ?_, ?_, ?_, ?_, ?_, hi, hprograms⟩
  · simp [layout, hf, henter]
  · simp [hu, hslot]
  · simp [hv, hvalue]
  · simp [hslot, hnew]
  · simp only [hslot, Option.mem_def, Option.some.injEq, forall_eq', hc]
    exact Nat.lt_of_lt_of_le (Nat.lt_succ_self s) (Nat.le_max_right _ _)
  · rw [hc]
    exact Nat.le_max_left _ _
  · simp [hsource]

/-- Reads that change nothing a layout is read from may come first. -/
theorem congr_left (h₁ : st₁.record = st.record) (h : Reads sub st₁ i st') :
    Reads sub st i st' := by
  simp only [record, Prod.mk.injEq] at h₁
  obtain ⟨hl, hc, hi⟩ := h₁
  have hu : st₁.used = st.used := congrArg Layout.slots hl
  have hv : st₁.valueSlots = st.valueSlots := congrArg Layout.values hl
  obtain ⟨hf, hused, hvs, hnew, hlt, hcount, hsrc, hins, hprog⟩ := h
  exact ⟨hl ▸ hf, hu ▸ hused, hv ▸ hvs, hu ▸ hnew, hlt, hc ▸ hcount, hv ▸ hsrc,
    hi ▸ hins, hprog⟩

theorem congr_right (h : Reads sub st i st₁) (h₁ : st'.record = st₁.record) :
    Reads sub st i st' := by
  simp only [record, Prod.mk.injEq] at h₁
  obtain ⟨hl, hc, hi⟩ := h₁
  have hu : st'.used = st₁.used := congrArg Layout.slots hl
  have hv : st'.valueSlots = st₁.valueSlots := congrArg Layout.values hl
  obtain ⟨hf, hused, hvs, hnew, hlt, hcount, hsrc, hins, hprog⟩ := h
  exact ⟨hl ▸ hf, hu ▸ hused, hv ▸ hvs, hnew, hc ▸ hlt, hc ▸ hcount, hsrc, hi ▸ hins, hprog⟩

end Reads

variable {offset : Nat} {st st' : Decoder} {i : Instruction}

theorem layout_eq_of_record {st₁ : Decoder} (h : st₁.record = st.record) :
    st₁.layout = st.layout :=
  congrArg Prod.fst h

/-- A loop stands inside an element, counts as its last child, and claims its slot. -/
theorem loop_reads (h : (loop sub offset).run st = .ok (i, st')) : Reads sub st i st' := by
  simp only [loop, run_bind_ok] at h
  obtain ⟨g, st₀, hg, h⟩ := h
  simp at hg
  obtain ⟨rfl, rfl⟩ := hg
  rcases he : enclosingChildren st.enclosures with _ | n <;> simp only [he] at h
  · simp at h
  simp only [run_bind_ok] at h
  obtain ⟨before, st₁, hb, _, st₂, hc, _, st₃, hm, coll, st₄, h₄, s, st₅, h₅, key, st₆, h₆,
    props, st₇, h₇, su, st₈, h₈, t, st₉, h₉, h⟩ := h
  obtain ⟨rfl, rfl⟩ := pure_run_ok hb
  obtain ⟨rfl, rfl⟩ := pure_run_ok h
  -- marking the loop changes no kind of open construct
  have r₃ : st₃.record = st₂.record := by
    simp at hm
    subst hm
    simp [record, layout, markLoop_shape]
  have r₄ : st₄.record = st.record :=
    (function_record h₄).trans (r₃.trans (child_record hc))
  obtain ⟨hs, r₅⟩ := slot_record h₅
  obtain ⟨r₉, hws⟩ := subprogram_record h₉
  have hin : true ∈ st₄.layout.frames := by
    rw [show st₄.layout = st.layout from congrArg Prod.fst r₄]
    exact mem_shape_of_enclosingChildren he
  refine ((Reads.claim ?_ rfl rfl rfl ?_ hs r₅).congr_left r₄).congr_right ?_
  · simp [Instruction.enter, hin]
  · simpa [Instruction.programs] using hws
  · exact r₉.trans ((optionalFunction_record h₈).trans
      ((optionalFunction_record h₇).trans (function_record h₆)))

/-- A dynamic value whose binding has been read from the same layout claims its slot. -/
theorem Reads.valueAfter {op : Opcode} {st₁ : Decoder} {s : Nat}
    (henter : i.enter st.layout.frames = some st.layout.frames) (r : st₁.record = st.record)
    (hslot : i.slot? = some s) (hvalue : i.valueSlot? = some s)
    (hsource : ∀ t ∈ i.source?, t ∈ st.valueSlots) (hprograms : i.programs = [])
    (h : (valueSlot op offset).run st₁ = .ok (s, st')) : Reads sub st i st' := by
  obtain ⟨hs, r'⟩ := valueSlot_record h
  have hl := layout_eq_of_record r
  refine (Reads.value ?_ hslot hvalue ?_ hprograms hs r').congr_left r
  · rwa [hl]
  · simpa only [show st₁.valueSlots = st.valueSlots from congrArg Layout.values hl]

/-- A control structure or event binding whose earlier operands have been read from the same
layout claims its slot. -/
theorem Reads.claimAfter {op : Opcode} {st₁ st₂ : Decoder} {s : Nat}
    (henter : i.enter st.layout.frames = some st.layout.frames) (r : st₁.record = st.record)
    (hslot : i.slot? = some s) (hvalue : i.valueSlot? = none) (hsource : i.source? = none)
    (hprograms : ∀ q ∈ i.programs, ∃ ws, sub ws = .ok q)
    (h : (slot op offset).run st₁ = .ok (s, st₂)) (r' : st'.record = st₂.record) :
    Reads sub st i st' := by
  obtain ⟨hs, r₂⟩ := slot_record h
  refine ((Reads.claim ?_ hslot hvalue hsource hprograms hs r₂).congr_left r).congr_right r'
  rwa [layout_eq_of_record r]

/-- Reading one instruction admits it after the decoder's layout and pushes it. -/
theorem instruction_reads {op : Opcode} (h : (instruction sub op offset).run st = .ok (i, st')) :
    Reads sub st i st' := by
  cases op <;> simp only [instruction, run_bind_ok] at h
  case elementOpen =>
    obtain ⟨tag, st₁, h₁, h⟩ := h
    obtain ⟨rfl, hr⟩ := openElement_record h
    exact (Reads.keep (by simp [Instruction.enter]) hr rfl rfl rfl rfl).congr_left (string_record h₁)
  case elementOpenDiv | elementOpenSpan =>
    obtain ⟨rfl, hr⟩ := openElement_record h
    exact Reads.keep (by simp [Instruction.enter]) hr rfl rfl rfl rfl
  case elementClose | fragmentClose =>
    obtain ⟨_, st₁, h₁, h⟩ := h
    obtain ⟨rfl, rfl⟩ := pure_run_ok h
    obtain ⟨hhead, hr⟩ := close_record h₁
    exact Reads.keep (by simp [Instruction.enter, hhead]) hr rfl rfl rfl rfl
  case fragmentOpen =>
    obtain ⟨_, st₁, h₁, h⟩ := h
    obtain ⟨rfl, rfl⟩ := pure_run_ok h
    simp at h₁
    subst h₁
    have henter : Instruction.openFragment.enter st.layout.frames =
        some (false :: st.layout.frames) := rfl
    exact Reads.keep henter (by simp [record, layout, Enclosure.isElement]) rfl rfl rfl rfl
  case propertyStaticClassName | propertyStaticId | propertyStaticStyle =>
    obtain ⟨_, st₁, h₁, v, st₂, h₂, h⟩ := h
    obtain ⟨rfl, rfl⟩ := pure_run_ok h
    obtain ⟨rfl, he⟩ := expectElement_record h₁
    exact Reads.same (by simp [Instruction.enter, Instruction.onElement, he])
      (string_record h₂) rfl rfl rfl rfl
  case attributeStatic =>
    obtain ⟨_, st₁, h₁, n, st₂, h₂, v, st₃, h₃, h⟩ := h
    obtain ⟨rfl, rfl⟩ := pure_run_ok h
    obtain ⟨rfl, he⟩ := expectElement_record h₁
    exact Reads.same (by simp [Instruction.enter, Instruction.onElement, he])
      ((string_record h₃).trans (string_record h₂)) rfl rfl rfl rfl
  case textStaticContent =>
    obtain ⟨_, st₁, h₁, _, st₂, h₂, v, st₃, h₃, h⟩ := h
    obtain ⟨rfl, rfl⟩ := pure_run_ok h
    obtain ⟨rfl, he⟩ := expectElement_record h₁
    exact Reads.same (by simp [Instruction.enter, Instruction.onElement, he])
      ((string_record h₃).trans (textContent_record h₂)) rfl rfl rfl rfl
  case propertyDynamicClassName | propertyDynamicId | propertyDynamicStyle =>
    obtain ⟨_, st₁, h₁, b, st₂, h₂, s, st₃, h₃, h⟩ := h
    obtain ⟨rfl, rfl⟩ := pure_run_ok h
    obtain ⟨rfl, he⟩ := expectElement_record h₁
    obtain ⟨r₂, hb⟩ := compute_record h₂
    exact Reads.valueAfter (by simp [Instruction.enter, Instruction.onElement, he]) r₂ rfl rfl
      (by simp [Instruction.source?, hb]) rfl h₃
  case attributeDynamic =>
    obtain ⟨_, st₁, h₁, n, st₂, h₂, b, st₃, h₃, s, st₄, h₄, h⟩ := h
    obtain ⟨rfl, rfl⟩ := pure_run_ok h
    obtain ⟨rfl, he⟩ := expectElement_record h₁
    obtain ⟨r₃, hb⟩ := compute_record h₃
    exact Reads.valueAfter (by simp [Instruction.enter, Instruction.onElement, he])
      (r₃.trans (string_record h₂)) rfl rfl (by simp [Instruction.source?, hb]) rfl h₄
  case textDynamicContent =>
    obtain ⟨_, st₁, h₁, _, st₂, h₂, b, st₃, h₃, s, st₄, h₄, h⟩ := h
    obtain ⟨rfl, rfl⟩ := pure_run_ok h
    obtain ⟨rfl, he⟩ := expectElement_record h₁
    obtain ⟨r₃, hb⟩ := compute_record h₃
    exact Reads.valueAfter (by simp [Instruction.enter, Instruction.onElement, he])
      (r₃.trans (textContent_record h₂)) rfl rfl (by simp [Instruction.source?, hb]) rfl h₄
  case propertyDynamicClassNameFromSlot | propertyDynamicIdFromSlot
      | propertyDynamicStyleFromSlot =>
    obtain ⟨_, st₁, h₁, b, st₂, h₂, s, st₃, h₃, h⟩ := h
    obtain ⟨rfl, rfl⟩ := pure_run_ok h
    obtain ⟨rfl, he⟩ := expectElement_record h₁
    obtain ⟨r₂, hb⟩ := source_record h₂
    exact Reads.valueAfter (by simp [Instruction.enter, Instruction.onElement, he]) r₂ rfl rfl
      hb rfl h₃
  case attributeDynamicFromSlot =>
    obtain ⟨_, st₁, h₁, n, st₂, h₂, b, st₃, h₃, s, st₄, h₄, h⟩ := h
    obtain ⟨rfl, rfl⟩ := pure_run_ok h
    obtain ⟨rfl, he⟩ := expectElement_record h₁
    have r₂ := string_record h₂
    obtain ⟨r₃, hb⟩ := source_record h₃
    refine Reads.valueAfter (by simp [Instruction.enter, Instruction.onElement, he])
      (r₃.trans r₂) rfl rfl ?_ rfl h₄
    simpa only [Instruction.source?, show st₂.valueSlots = st₁.valueSlots from
      congrArg Layout.values (layout_eq_of_record r₂)] using hb
  case textStaticNode =>
    obtain ⟨_, st₁, h₁, v, st₂, h₂, h⟩ := h
    obtain ⟨rfl, rfl⟩ := pure_run_ok h
    exact Reads.same (by simp [Instruction.enter, Instruction.onElement])
      ((string_record h₂).trans (child_record h₁)) rfl rfl rfl rfl
  case textDynamicNode =>
    obtain ⟨_, st₁, h₁, b, st₂, h₂, s, st₃, h₃, h⟩ := h
    obtain ⟨rfl, rfl⟩ := pure_run_ok h
    obtain ⟨r₂, hb⟩ := compute_record h₂
    exact Reads.valueAfter (by simp [Instruction.enter, Instruction.onElement])
      (r₂.trans (child_record h₁)) rfl rfl (by simp [Instruction.source?, hb]) rfl h₃
  case textDynamicNodeFromSlot =>
    obtain ⟨_, st₁, h₁, b, st₂, h₂, s, st₃, h₃, h⟩ := h
    obtain ⟨rfl, rfl⟩ := pure_run_ok h
    have r₁ := child_record h₁
    obtain ⟨r₂, hb⟩ := source_record h₂
    refine Reads.valueAfter (by simp [Instruction.enter, Instruction.onElement])
      (r₂.trans r₁) rfl rfl ?_ rfl h₃
    simpa only [Instruction.source?, show st₁.valueSlots = st.valueSlots from
      congrArg Layout.values (layout_eq_of_record r₁)] using hb
  case ternary =>
    obtain ⟨_, st₁, h₁, t, st₂, h₂, s, st₃, h₃, c, st₄, h₄, a, st₅, h₅, h⟩ := h
    obtain ⟨rfl, rfl⟩ := pure_run_ok h
    obtain ⟨r₄, hc⟩ := subprogram_record h₄
    obtain ⟨r₅, ha⟩ := subprogram_record h₅
    refine Reads.claimAfter (by simp [Instruction.enter, Instruction.onElement])
      ((function_record h₂).trans (child_record h₁)) rfl rfl rfl ?_ h₃ (r₅.trans r₄)
    simpa [Instruction.programs] using ⟨hc, ha⟩
  case loopMap => exact loop_reads h
  case componentInstance =>
    obtain ⟨_, st₁, h₁, f, st₂, h₂, s, st₃, h₃, b, st₄, h₄, h⟩ := h
    obtain ⟨rfl, rfl⟩ := pure_run_ok h
    obtain ⟨r₄, hb⟩ := subprogram_record h₄
    refine Reads.claimAfter (by simp [Instruction.enter, Instruction.onElement])
      ((function_record h₂).trans (child_record h₁)) rfl rfl rfl ?_ h₃ r₄
    simpa [Instruction.programs] using hb
  case componentDidMount | componentDidUpdate =>
    simp only [StateT.run_map] at h
    rcases hf : (function _ offset .callback .lifecycle).run st with e | ⟨cb, st₁⟩ <;>
      rw [hf] at h <;> simp at h
    obtain ⟨rfl, rfl⟩ := h
    exact Reads.same (by simp [Instruction.enter, Instruction.onElement]) (function_record hf)
      rfl rfl rfl rfl
  case eventStaticBound | eventDynamicBound =>
    obtain ⟨_, st₁, h₁, n, st₂, h₂, f, st₃, h₃, s, st₄, h₄, h⟩ := h
    obtain ⟨rfl, rfl⟩ := pure_run_ok h
    obtain ⟨rfl, he⟩ := expectElement_record h₁
    exact Reads.claimAfter (by simp [Instruction.enter, Instruction.onElement, he])
      ((function_record h₃).trans (string_record h₂)) rfl rfl rfl (by simp [Instruction.programs])
      h₄ rfl
  all_goals simp at h

/-! ### The whole read -/

/-- The decoder's layout is the layout of the instructions it has built, each of which was
admissible after the ones before it, and their sub-programs are well formed. -/
structure Builds (st : Decoder) : Prop where
  layout : ({} : Layout).pushAll st.instructions.toList = st.layout
  admits : Layout.Admits st.slotCount {} st.instructions.toList
  programs : ∀ i ∈ st.instructions.toList, ∀ q ∈ i.programs, q.WellFormed

/-- Reading one more instruction keeps the decoder building its instructions' layout. -/
theorem Builds.push (hsub : ∀ ws q, sub ws = .ok q → q.WellFormed) (hb : Builds st)
    (hr : Reads sub st i st') : Builds { st' with instructions := st'.instructions.push i } := by
  have hlayout : st'.layout = st.layout.push i := by
    have hf := hr.frames
    simp only [Decoder.layout] at hf ⊢
    simp only [Layout.push, hf, Option.getD_some, hr.used, hr.valueSlots]
  refine ⟨?_, ?_, ?_⟩
  · show _ = st'.layout
    simp [Layout.pushAll_append, hb.layout, hr.instructions, hlayout]
  · simp only [Array.toList_push, hr.instructions, Layout.admits_append, Layout.admits_cons,
      Layout.admits_nil, and_true, hb.layout]
    refine ⟨hb.admits.mono hr.slotCount, ?_⟩
    exact ⟨by rw [hr.frames]; rfl, hr.slot_lt, hr.slot_new, hr.source⟩
  · simp only [Array.toList_push, hr.instructions, List.mem_append, List.mem_singleton]
    rintro j (hj | rfl) q hq
    · exact hb.programs j hj q hq
    · obtain ⟨ws, hws⟩ := hr.programs q hq
      exact hsub ws q hws

/-- Every instruction read keeps the decoder building its instructions' layout. -/
theorem run_builds (hsub : ∀ ws q, sub ws = .ok q → q.WellFormed) :
    ∀ (n : Nat) {st st' : Decoder}, Builds st → (run sub n).run st = .ok ((), st') → Builds st'
  | 0, st, st', hb, h => by
    simp [run] at h
    exact h ▸ hb
  | n + 1, st, st', hb, h => by
    rcases hrest : st.rest with _ | ⟨w, rest⟩
    · rw [run_nil sub _ hrest] at h
      cases h
      exact hb
    · cases w with
      | op t =>
        obtain ⟨op, i, st₁, -, hi, hrun⟩ := (run_succ_op_ok sub hrest).1 h
        -- reading the opcode word moves past it and changes nothing a layout is read from
        have hb' : Builds { st with rest := rest, pos := st.pos + 1 } :=
          ⟨hb.layout, hb.admits, hb.programs⟩
        exact run_builds hsub n (hb'.push hsub (instruction_reads hi)) hrun
      | _ => simp [run_succ_operand sub hrest] at h

theorem finish_run_ok {p : Program} (h : finish.run st = .ok (p, st')) :
    st.enclosures = [] ∧ p = .mk st.instructions.toList st.slotCount := by
  rcases st with ⟨rest, pos, limit, _ | ⟨_ | _, es⟩, used, vs, count, is⟩ <;> simp [finish] at h
  exact ⟨rfl, h.1.symm⟩

end Decoder

namespace Program

/-- Whatever decoding with fuel returns is well formed. -/
theorem decodeWith_wellFormed : ∀ (n : Nat) (ws : List Word) (p : Program),
    decodeWith n ws = .ok p → p.WellFormed
  | 0, _, p, h => by
    simp only [decodeWith, Except.ok.injEq] at h
    subst h
    exact .mk ⟨trivial, rfl⟩ (by simp)
  | n + 1, ws, p, h => by
    simp only [decodeWith, StateT.run'_eq, StateT.run_bind] at h
    rcases hrun : (Decoder.run (decodeWith n) ws.length).run
      { rest := ws, pos := 0, limit := ws.length } with e | ⟨u, st'⟩ <;> rw [hrun] at h
    · cases h
    · simp only [Decoder.except_ok_bind] at h
      rcases hfin : Decoder.finish.run st' with e | ⟨q, st''⟩ <;> rw [hfin] at h <;> cases h
      obtain ⟨hclosed, rfl⟩ := Decoder.finish_run_ok hfin
      have hstart : Decoder.Builds { rest := ws, pos := 0, limit := ws.length } :=
        ⟨rfl, trivial, by simp⟩
      have hb := Decoder.run_builds (decodeWith_wellFormed n) ws.length hstart hrun
      refine .mk ⟨hb.admits, ?_⟩ hb.programs
      rw [hb.layout]
      simp [Decoder.layout, hclosed]

theorem decode_wellFormed {ws : List Word} {p : Program} (h : decode ws = .ok p) :
    p.WellFormed :=
  decodeWith_wellFormed _ ws p h

end Program

end Canopy
