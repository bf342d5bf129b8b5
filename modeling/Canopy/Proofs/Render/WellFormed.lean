import Canopy.Proofs.Program.Layout
import Canopy.Render.Node
import Canopy.Render.Error
import Mathlib.Data.List.Nodup

/-!
# Well-formed mounted nodes

A mounted node is well formed when its program is, it has one slot per slot index of its
program, and each instruction's slot holds what a mount put there: a value and the document
node it was written to for a dynamic value, an element for an event binding, a branch of one of
its two programs for a ternary, items of its template with pairwise distinct keys for a loop,
and a node of its program for a component. Every node a slot holds is well formed in turn.

These are the facts a later pass relies on: each update op finds the kind of slot it expects,
every slot index it reads or writes is below the node's slot count, and a loop reconciles items
whose keys are distinct.
-/

namespace Canopy

/-- The nodes a slot holds: a ternary's branch, a loop's items, a component's node. -/
def Slot.nodes : Slot → List Mounted
  | .ternary _ b _ _ => [b]
  | .loop _ items => items.map (·.node)
  | .component _ n => [n]
  | _ => []

/-- What the slot of an instruction may hold in a mounted node of its program: a value and
its document node for a dynamic value, an element for an event binding, a branch of one of its
two programs for a ternary, items of its template with pairwise distinct keys for a loop, and a
node of its program for a component. -/
def Instruction.Holds : Instruction → Slot → Prop
  | .dynamicProperty .., x | .dynamicAttribute .., x | .dynamicText .., x
  | .dynamicTextNode .., x => ∃ h v, x = .leaf h v
  | .event .., x => ∃ e, x = .event e
  | .ternary t, x => ∃ d b m p, x = .ternary d b m p ∧
      b.program = if d then t.consequent else t.alternate
  | .loop l, x => ∃ p items, x = .loop p items ∧
      (items.map (·.key)).Nodup ∧ ∀ it ∈ items, it.node.program = l.template
  | .component c, x => ∃ o n, x = .component o n ∧ n.program = c.body
  | _, _ => True

/-- The slot of an instruction, if it has one, holds what it may. -/
def Instruction.Fills (slots : Array Slot) (i : Instruction) : Prop :=
  ∀ s ∈ i.slot?, ∃ x, slots[s]? = some x ∧ i.Holds x

namespace Instruction

variable {slots : Array Slot} {i : Instruction} {s : Nat}

theorem fills_of_slot?_eq_none (h : i.slot? = none) : i.Fills slots := by
  intro s hs
  simp [h] at hs

theorem Fills.setIfInBounds (h : i.Fills slots) (hs : i.slot? ≠ some s) (x : Slot) :
    i.Fills (slots.setIfInBounds s x) := by
  intro t ht
  have hne : s ≠ t := fun hst => hs (hst ▸ ht)
  rw [Array.getElem?_setIfInBounds_ne hne]
  exact h t ht

theorem fills_setIfInBounds_self (hs : i.slot? = some s) (hlt : s < slots.size) {x : Slot}
    (hx : i.Holds x) : i.Fills (slots.setIfInBounds s x) := by
  intro t ht
  rw [hs, Option.mem_def, Option.some.injEq] at ht
  subst ht
  exact ⟨x, Array.getElem?_setIfInBounds_self_of_lt hlt, hx⟩

theorem slot?_of_valueSlot? (hs : i.valueSlot? = some s) : i.slot? = some s := by
  cases i <;> simp_all [valueSlot?, slot?]

theorem holds_iff_of_valueSlot? (hs : i.valueSlot? = some s) (x : Slot) :
    i.Holds x ↔ ∃ e v, x = .leaf e v := by
  cases i <;> simp_all [valueSlot?, Holds]

/-- The slot of a dynamic value holds a value. -/
theorem Fills.leaf (h : i.Fills slots) (hs : i.valueSlot? = some s) :
    ∃ e v, slots[s]? = some (.leaf e v) := by
  obtain ⟨x, hx, hh⟩ := h s (slot?_of_valueSlot? hs)
  obtain ⟨e, v, rfl⟩ := (holds_iff_of_valueSlot? hs x).1 hh
  exact ⟨e, v, hx⟩

end Instruction

/-- A well-formed mounted node. -/
inductive Mounted.WellFormed : Mounted → Prop
  | mk {site : List Nat} {p : Program} {refs : List RootRef} {slots : Array Slot} :
      p.WellFormed → slots.size = p.slotCount → (∀ i ∈ p.instructions, i.Fills slots) →
      (∀ sl ∈ slots, ∀ n ∈ sl.nodes, Mounted.WellFormed n) →
      Mounted.WellFormed (.mk site p refs slots)

theorem Slot.nodes_setIfInBounds {slots : Array Slot}
    (h : ∀ sl ∈ slots, ∀ m ∈ sl.nodes, m.WellFormed) {x : Slot}
    (hx : ∀ m ∈ x.nodes, m.WellFormed) (s : Nat) :
    ∀ sl ∈ slots.setIfInBounds s x, ∀ m ∈ sl.nodes, m.WellFormed := by
  intro sl hsl
  rcases Array.mem_or_eq_of_mem_setIfInBounds hsl with hsl | rfl
  · exact h sl hsl
  · exact hx

/-- Whether a render error is a defensive one, which only a broken invariant gives and no
well-formed program reaches: a slot of another kind than expected, or the invariant error. -/
@[simp] def RenderError.isDefensive : RenderError → Bool
  | .slotMismatch .. | .invariant _ => true
  | _ => false

namespace Mounted

@[simp] theorem program_mk (site : List Nat) (p : Program) (refs : List RootRef)
    (slots : Array Slot) : (Mounted.mk site p refs slots).program = p := rfl

@[simp] theorem slots_mk (site : List Nat) (p : Program) (refs : List RootRef)
    (slots : Array Slot) : (Mounted.mk site p refs slots).slots = slots := rfl

@[simp] theorem program_setSlot (n : Mounted) (s : Nat) (x : Slot) :
    (n.setSlot s x).program = n.program := rfl

@[simp] theorem slots_setSlot (n : Mounted) (s : Nat) (x : Slot) :
    (n.setSlot s x).slots = n.slots.setIfInBounds s x := rfl

@[simp] theorem program_addRoot (n : Mounted) (r : RootRef) :
    (n.addRoot r).program = n.program := rfl

@[simp] theorem slots_addRoot (n : Mounted) (r : RootRef) :
    (n.addRoot r).slots = n.slots := rfl

@[simp] theorem program_fresh (site : List Nat) (p : Program) :
    (fresh site p).program = p := rfl

@[simp] theorem slots_fresh (site : List Nat) (p : Program) :
    (fresh site p).slots = Array.replicate p.slotCount .empty := rfl

theorem eq_mk (n : Mounted) : n = .mk n.site n.program n.rootRefs n.slots := by
  cases n
  rfl

namespace WellFormed

variable {n : Mounted}

theorem program (h : n.WellFormed) : n.program.WellFormed := by
  cases h with
  | mk hp _ _ _ => exact hp

theorem size (h : n.WellFormed) : n.slots.size = n.program.slotCount := by
  cases h with
  | mk _ hs _ _ => exact hs

theorem fills (h : n.WellFormed) : ∀ i ∈ n.program.instructions, i.Fills n.slots := by
  cases h with
  | mk _ _ hf _ => exact hf

theorem nodes (h : n.WellFormed) : ∀ sl ∈ n.slots, ∀ m ∈ sl.nodes, m.WellFormed := by
  cases h with
  | mk _ _ _ hn => exact hn

theorem intro (hp : n.program.WellFormed) (hs : n.slots.size = n.program.slotCount)
    (hf : ∀ i ∈ n.program.instructions, i.Fills n.slots)
    (hn : ∀ sl ∈ n.slots, ∀ m ∈ sl.nodes, m.WellFormed) : n.WellFormed := by
  rw [n.eq_mk]
  exact .mk hp hs hf hn

theorem slot_lt (h : n.WellFormed) {i : Instruction} (hi : i ∈ n.program.instructions) {s : Nat}
    (hs : i.slot? = some s) : s < n.slots.size :=
  h.size ▸ h.program.slot_lt hi hs

/-- A node with the program and slots of a well-formed node is well formed: its roots do not
matter. -/
theorem of_eq {m : Mounted} (h : n.WellFormed) (hp : m.program = n.program)
    (hs : m.slots = n.slots) : m.WellFormed :=
  intro (hp ▸ h.program) (hs ▸ hp ▸ h.size) (hs ▸ hp ▸ h.fills) (hs ▸ h.nodes)

theorem addRoot (h : n.WellFormed) (r : RootRef) : (n.addRoot r).WellFormed :=
  h.of_eq rfl rfl

/-- The slot of an instruction of a well-formed node holds what it may. -/
theorem holds (h : n.WellFormed) {i : Instruction} (hi : i ∈ n.program.instructions) {s : Nat}
    (hs : i.slot? = some s) : ∃ x, n.slot? s = some x ∧ i.Holds x :=
  h.fills i hi s hs

theorem nodes_of_slot (h : n.WellFormed) {s : Nat} {x : Slot} (hs : n.slot? s = some x) :
    ∀ m ∈ x.nodes, m.WellFormed :=
  h.nodes x (Array.mem_of_getElem? hs)

/-- Writing what the slot of an instruction may hold, made of well-formed nodes, keeps a node
well formed. -/
theorem setSlot (h : n.WellFormed) {i : Instruction} (hi : i ∈ n.program.instructions)
    {s : Nat} (hs : i.slot? = some s) {x : Slot} (hx : i.Holds x)
    (hn : ∀ m ∈ x.nodes, m.WellFormed) : (n.setSlot s x).WellFormed := by
  apply intro
  · exact h.program
  · simpa using h.size
  · intro j hj
    rw [program_setSlot] at hj
    rw [slots_setSlot]
    by_cases hjs : j.slot? = some s
    · obtain rfl := h.program.eq_of_slot_eq hi hj hs hjs
      exact Instruction.fills_setIfInBounds_self hs (h.slot_lt hi hs) hx
    · exact (h.fills j hj).setIfInBounds hjs x
  · rw [slots_setSlot]
    exact Slot.nodes_setIfInBounds h.nodes hn s

end WellFormed

end Mounted

end Canopy
