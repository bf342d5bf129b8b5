import Canopy.Program.Basic
import Mathlib.Data.List.Nodup

/-!
# The layout of a program

What a renderer takes for granted about the instructions of every program it mounts, stated on
the decoded instructions themselves. Reading a program from the left, each instruction meets
what the ones before it laid down: the open frames (elements and fragments, innermost first),
the slots already taken and the slots of dynamic values. An instruction is *admissible* there
when

* it may stand in the open frames: a close closes an open construct of its kind, a property,
  an attribute, text content or an event binding has an element as the innermost open frame,
  and a loop has an element around it, fragments in between being looked through;
* its slot, if it has one, is below the slot count and not taken yet;
* its slot source, if it reads one, is the slot of an earlier dynamic value.

A well-formed program (`Program.WellFormed`) admits each of its instructions in turn, closes
every frame it opens, and every sub-program is well formed with slots of its own.
-/

namespace Canopy

/-- The earlier slot a binding reads, if it is a slot source. -/
def Binding.sibling? : Binding → Option Nat
  | .sibling s => some s
  | _ => none

namespace Instruction

/-- Whether an instruction acts on the innermost open element. -/
def onElement : Instruction → Bool
  | .staticProperty .. | .dynamicProperty .. | .staticAttribute .. | .dynamicAttribute ..
  | .staticText .. | .dynamicText .. | .event .. => true
  | _ => false

/-- The open frames after an instruction, given those before it (innermost first, `true` for
an element); `none` where the instruction may not stand. -/
def enter (fs : List Bool) : Instruction → Option (List Bool)
  | .openElement _ => some (true :: fs)
  | .closeElement => if fs.head? = some true then some fs.tail else none
  | .openFragment => some (false :: fs)
  | .closeFragment => if fs.head? = some false then some fs.tail else none
  | .loop _ => if true ∈ fs then some fs else none
  | i => if !i.onElement || fs.head? == some true then some fs else none

/-- An instruction on the innermost element stands only where an element is innermost, and
leaves the open frames as they are. -/
theorem enter_of_onElement {i : Instruction} {fs : List Bool} (hi : i.onElement = true)
    (h : (i.enter fs).isSome) : fs.head? = some true ∧ i.enter fs = some fs := by
  cases i <;> simp_all [enter, onElement]

theorem enter_loop {l : LoopSpec Program} {fs : List Bool} (h : ((loop l).enter fs).isSome) :
    true ∈ fs ∧ (loop l).enter fs = some fs := by
  by_cases ht : true ∈ fs <;> simp_all [enter]

/-- The slot of a dynamic value, which later slot sources may read. -/
def valueSlot? : Instruction → Option Nat
  | .dynamicProperty _ _ s | .dynamicAttribute _ _ s | .dynamicText _ s
  | .dynamicTextNode _ s => some s
  | _ => none

/-- The earlier slot a dynamic value is read from, if its binding is a slot source. -/
def source? : Instruction → Option Nat
  | .dynamicProperty _ b _ | .dynamicAttribute _ b _ | .dynamicText b _
  | .dynamicTextNode b _ => b.sibling?
  | _ => none

/-- The sub-programs of an instruction. -/
def programs : Instruction → List Program
  | .ternary t => [t.consequent, t.alternate]
  | .loop l => [l.template]
  | .component c => [c.body]
  | _ => []

end Instruction

/-- What a prefix of a program's instructions has laid down. -/
structure Layout where
  /-- The open frames, innermost first, `true` for an element. -/
  frames : List Bool := []
  /-- The slots taken, last first. -/
  slots : List Nat := []
  /-- The slots of dynamic values, last first. -/
  values : List Nat := []
  deriving DecidableEq

namespace Layout

/-- What is laid down once one more instruction is read. -/
def push (l : Layout) (i : Instruction) : Layout :=
  ⟨(i.enter l.frames).getD [], i.slot?.toList ++ l.slots, i.valueSlot?.toList ++ l.values⟩

/-- What is laid down once a list of instructions is read. -/
def pushAll (l : Layout) (is : List Instruction) : Layout :=
  is.foldl push l

/-- Whether an instruction may follow what is laid down, in a program with `n` slots. -/
structure Admissible (n : Nat) (l : Layout) (i : Instruction) : Prop where
  frames : (i.enter l.frames).isSome
  slot_lt : ∀ s ∈ i.slot?, s < n
  slot_new : ∀ s ∈ i.slot?, s ∉ l.slots
  source : ∀ s ∈ i.source?, s ∈ l.values

/-- Whether each of a list of instructions may follow what is laid down before it. -/
def Admits (n : Nat) : Layout → List Instruction → Prop
  | _, [] => True
  | l, i :: is => Admissible n l i ∧ Admits n (l.push i) is

@[simp] theorem pushAll_nil (l : Layout) : l.pushAll [] = l := rfl

@[simp] theorem pushAll_cons (l : Layout) (i : Instruction) (is : List Instruction) :
    l.pushAll (i :: is) = (l.push i).pushAll is := rfl

theorem pushAll_append (l : Layout) (pre suf : List Instruction) :
    l.pushAll (pre ++ suf) = (l.pushAll pre).pushAll suf :=
  List.foldl_append

@[simp] theorem pushAll_singleton (l : Layout) (i : Instruction) :
    l.pushAll [i] = l.push i := rfl

@[simp] theorem admits_nil (n : Nat) (l : Layout) : Admits n l [] := trivial

@[simp] theorem admits_cons (n : Nat) (l : Layout) (i : Instruction) (is : List Instruction) :
    Admits n l (i :: is) ↔ Admissible n l i ∧ Admits n (l.push i) is := Iff.rfl

theorem admits_append (n : Nat) (l : Layout) (pre suf : List Instruction) :
    Admits n l (pre ++ suf) ↔ Admits n l pre ∧ Admits n (l.pushAll pre) suf := by
  induction pre generalizing l with
  | nil => simp
  | cons i pre ih => simp only [List.cons_append, admits_cons, ih, pushAll_cons, and_assoc]

theorem Admissible.mono {n m : Nat} {l : Layout} {i : Instruction} (h : Admissible n l i)
    (hnm : n ≤ m) : Admissible m l i :=
  ⟨h.frames, fun s hs => Nat.lt_of_lt_of_le (h.slot_lt s hs) hnm, h.slot_new, h.source⟩

theorem Admits.mono {n m : Nat} (hnm : n ≤ m) :
    ∀ {l : Layout} {is : List Instruction}, Admits n l is → Admits m l is
  | _, [], _ => trivial
  | _, _ :: _, ⟨hi, his⟩ => ⟨hi.mono hnm, Admits.mono hnm his⟩

theorem slots_pushAll (l : Layout) (is : List Instruction) :
    (l.pushAll is).slots = (is.filterMap Instruction.slot?).reverse ++ l.slots := by
  induction is generalizing l with
  | nil => rfl
  | cons i is ih =>
    cases h : i.slot? <;> simp [ih, push, h]

theorem values_pushAll (l : Layout) (is : List Instruction) :
    (l.pushAll is).values = (is.filterMap Instruction.valueSlot?).reverse ++ l.values := by
  induction is generalizing l with
  | nil => rfl
  | cons i is ih =>
    cases h : i.valueSlot? <;> simp [ih, push, h]

theorem mem_slots_pushAll {is : List Instruction} {i : Instruction} (hi : i ∈ is) {s : Nat}
    (hs : i.slot? = some s) (l : Layout) : s ∈ (l.pushAll is).slots := by
  rw [slots_pushAll]
  exact List.mem_append_left _ (List.mem_reverse.2 (List.mem_filterMap.2 ⟨i, hi, hs⟩))

theorem exists_of_mem_values_pushAll {is : List Instruction} {s : Nat}
    (hs : s ∈ (({} : Layout).pushAll is).values) : ∃ i ∈ is, i.valueSlot? = some s := by
  simpa [values_pushAll] using hs

/-- The slots taken along an admitted list of instructions are pairwise distinct. -/
theorem Admits.slots_nodup {n : Nat} :
    ∀ {l : Layout} {is : List Instruction}, l.slots.Nodup → Admits n l is →
      (l.pushAll is).slots.Nodup
  | _, [], hl, _ => hl
  | l, i :: is, hl, ⟨hi, his⟩ => by
    rw [pushAll_cons]
    refine Admits.slots_nodup ?_ his
    cases h : i.slot? with
    | none => simpa [push, h] using hl
    | some s => simpa [push, h] using ⟨hi.slot_new s h, hl⟩

end Layout

/-- A program's instructions are laid out for `n` slots: each is admissible after the ones
before it, and every frame opened is closed. -/
structure Program.LaidOut (n : Nat) (is : List Instruction) : Prop where
  admits : Layout.Admits n {} is
  closed : (({} : Layout).pushAll is).frames = []

/-- A well-formed program: laid out for its slot count, with well-formed sub-programs. -/
inductive Program.WellFormed : Program → Prop
  | mk {is : List Instruction} {n : Nat} : Program.LaidOut n is →
      (∀ i ∈ is, ∀ q ∈ i.programs, Program.WellFormed q) → Program.WellFormed (.mk is n)

namespace Program

theorem WellFormed.laidOut {p : Program} (h : p.WellFormed) :
    LaidOut p.slotCount p.instructions := by
  cases h with
  | mk hl _ => exact hl

theorem WellFormed.of_mem_programs {p q : Program} {i : Instruction} (h : p.WellFormed)
    (hi : i ∈ p.instructions) (hq : q ∈ i.programs) : q.WellFormed := by
  cases h with
  | mk _ hs => exact hs i hi q hq

theorem WellFormed.admissible {p : Program} (h : p.WellFormed) {pre suf : List Instruction}
    {i : Instruction} (he : p.instructions = pre ++ i :: suf) :
    Layout.Admissible p.slotCount (({} : Layout).pushAll pre) i := by
  have ha := h.laidOut.admits
  rw [he, Layout.admits_append] at ha
  exact ha.2.1

theorem WellFormed.slot_lt {p : Program} (h : p.WellFormed) {i : Instruction}
    (hi : i ∈ p.instructions) {s : Nat} (hs : i.slot? = some s) : s < p.slotCount := by
  obtain ⟨pre, suf, he⟩ := List.append_of_mem hi
  exact (h.admissible he).slot_lt s hs

theorem WellFormed.slots_nodup {p : Program} (h : p.WellFormed) :
    (p.instructions.filterMap Instruction.slot?).Nodup := by
  have hn := h.laidOut.admits.slots_nodup List.nodup_nil
  rw [Layout.slots_pushAll, List.append_nil, List.nodup_reverse] at hn
  exact hn

/-- Two members of a list that `f` sends to one value are one member, when the values it
gives are pairwise distinct. -/
private theorem eq_of_nodup_filterMap {α β : Type} {f : α → Option β} {b : β} :
    ∀ {l : List α}, (l.filterMap f).Nodup → ∀ {x y : α}, x ∈ l → y ∈ l →
      f x = some b → f y = some b → x = y
  | [], _, _, _, hx, _, _, _ => absurd hx List.not_mem_nil
  | a :: l, hl, x, y, hx, hy, hfx, hfy => by
    have hin : ∀ {z}, z ∈ l → f z = some b → b ∈ l.filterMap f :=
      fun hz hfz => List.mem_filterMap.2 ⟨_, hz, hfz⟩
    have htail : (l.filterMap f).Nodup := by
      cases hfa : f a with
      | none => rwa [List.filterMap_cons_none hfa] at hl
      | some c => exact (List.filterMap_cons_some hfa ▸ hl).of_cons
    rcases List.mem_cons.1 hx with rfl | hxl <;> rcases List.mem_cons.1 hy with rfl | hyl
    · rfl
    · rw [List.filterMap_cons_some hfx] at hl
      exact absurd (hin hyl hfy) (List.nodup_cons.1 hl).1
    · rw [List.filterMap_cons_some hfy] at hl
      exact absurd (hin hxl hfx) (List.nodup_cons.1 hl).1
    · exact eq_of_nodup_filterMap htail hxl hyl hfx hfy

theorem WellFormed.eq_of_slot_eq {p : Program} (h : p.WellFormed) {i j : Instruction}
    (hi : i ∈ p.instructions) (hj : j ∈ p.instructions) {s : Nat} (his : i.slot? = some s)
    (hjs : j.slot? = some s) : i = j :=
  eq_of_nodup_filterMap h.slots_nodup hi hj his hjs

end Program

theorem Instruction.depth_le_depthList {i : Instruction} :
    ∀ {is : List Instruction}, i ∈ is → i.depth ≤ Instruction.depthList is
  | _ :: _, .head _ => by
    rw [Instruction.depthList]
    exact Nat.le_max_left _ _
  | _ :: _, .tail _ h => by
    rw [Instruction.depthList]
    exact Nat.le_trans (depth_le_depthList h) (Nat.le_max_right _ _)

theorem Instruction.depth_lt_of_mem_programs {i : Instruction} {q : Program}
    (hq : q ∈ i.programs) : q.depth < i.depth := by
  match i, hq with
  | .ternary ⟨_, _, c, a⟩, hq =>
    simp only [programs, List.mem_cons, List.not_mem_nil, or_false] at hq
    rw [Instruction.depth]
    rcases hq with rfl | rfl
    · exact Nat.lt_succ_of_le (Nat.le_max_left _ _)
    · exact Nat.lt_succ_of_le (Nat.le_max_right _ _)
  | .loop ⟨_, _, _, _, _, t, _⟩, hq =>
    simp only [programs, List.mem_singleton] at hq
    subst hq
    exact Nat.lt_succ_self _
  | .component ⟨_, _, b⟩, hq =>
    simp only [programs, List.mem_singleton] at hq
    subst hq
    exact Nat.lt_succ_self _

theorem Program.depth_lt_of_mem_programs {p q : Program} {i : Instruction}
    (hi : i ∈ p.instructions) (hq : q ∈ i.programs) : q.depth < p.depth := by
  cases p with
  | mk is n =>
    exact Nat.lt_of_lt_of_le (Instruction.depth_lt_of_mem_programs hq)
      (Instruction.depth_le_depthList hi)

end Canopy
