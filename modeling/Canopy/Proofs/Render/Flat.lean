import Canopy.Proofs.Document.Links
import Canopy.Proofs.Render.MountSteps
import Canopy.Proofs.Render.WellFormed

/-!
# Flat programs

A flat program has no ternary, loop or component: it describes a fixed piece of document. Mounting
one creates its elements and text nodes and places each exactly once: under the innermost open
element, or at the target when none is open. So a mount logs no move, and it attaches under the
target's parent exactly as many nodes as the program has top-level nodes
(`Program.topLevelNodes`), counted on the program's text by following its open frames.

Updating a mounted flat node writes values into the elements and text nodes its slots hold and
changes neither its roots nor its program; unmounting it leaves the document alone.

`FlatMount` is what holds of a mount in progress: every node it has created is newer than the
document it started from, the open elements have no parent yet, and the nodes of `K` that hang
under the target's parent still do.
-/

namespace Canopy

/-- A program is flat when none of its instructions has a sub-program. -/
def Program.Flat (p : Program) : Prop :=
  ∀ i ∈ p.instructions, i.programs = []

namespace Instruction

/-- Whether an instruction read where `fs` are the open frames places a node at the target: an
element closed with no element around it, or a text node with none. -/
def placesRoot (fs : List Bool) : Instruction → Bool
  | .closeElement => !fs.tail.contains true
  | .staticTextNode _ => !fs.contains true
  | .dynamicTextNode _ _ => !fs.contains true
  | _ => false

/-- How many nodes a list of instructions, read after what `l` laid down, places at the
target. -/
def rootsPlaced : Layout → List Instruction → Nat
  | _, [] => 0
  | l, i :: is => (i.placesRoot l.frames).toNat + rootsPlaced (l.push i) is

end Instruction

/-- How many nodes a program places at its target. -/
def Program.topLevelNodes (p : Program) : Nat :=
  Instruction.rootsPlaced {} p.instructions

/-- Whether an update op only writes values: no ternary, loop or component. -/
def UpdateOp.writesOnly : UpdateOp → Bool
  | .ternary _ | .loop _ | .component _ => false
  | _ => true

namespace Mounted

@[simp] theorem rootRefs_setSlot (n : Mounted) (s : Nat) (x : Slot) :
    (n.setSlot s x).rootRefs = n.rootRefs := rfl

@[simp] theorem rootRefs_addRoot (n : Mounted) (r : RootRef) :
    (n.addRoot r).rootRefs = n.rootRefs ++ [r] := rfl

@[simp] theorem rootRefs_fresh (site : List Nat) (p : Program) :
    (fresh site p).rootRefs = [] := rfl

theorem slot?_setSlot (n : Mounted) (s t : Nat) (x : Slot) :
    (n.setSlot s x).slot? t = if s = t ∧ t < n.slots.size then some x else n.slot? t := by
  simp only [slot?, slots_setSlot, Array.getElem?_setIfInBounds]
  by_cases h : s = t
  · subst h
    by_cases ht : s < n.slots.size <;> simp [ht]
  · simp [h]

/-- A node whose roots are host nodes stands for exactly those nodes. -/
theorem roots_of_hosts {n : Mounted} {xs : List NodeId} (h : n.rootRefs = xs.map .host) :
    n.roots = xs := by
  cases n with
  | mk site p refs slots =>
    change refs = _ at h
    subst h
    simp only [roots]
    induction xs with
    | nil => rfl
    | cons x xs ih => simp [ih]

end Mounted

namespace Pass

open Document

variable {P : NodeId} {K : List NodeId} {base : Nat}

/-- A mount in progress at a target under `P`, started from a document with `base` nodes: what
it created is newer, the open elements have no parent, the nodes of `K` still hang under `P`,
and the node's roots and the handles of its values are new nodes. -/
structure FlatMount (P : NodeId) (K : List NodeId) (base : Nat) (node : Mounted)
    (stack : List (Option NodeId)) (d : Document) : Prop where
  anchored : Anchored P K d
  base_le : base ≤ d.nodes.size
  parent_lt : P < base
  anchored_lt : ∀ x ∈ K, x < base
  open_new : ∀ e, some e ∈ stack → base ≤ e ∧ e < d.nodes.size ∧ d.parent? e = none
  open_nodup : (stack.filterMap id).Nodup
  roots_new : ∀ ref ∈ node.rootRefs, ∃ x, ref = .host x ∧ base ≤ x
  leaves_new : ∀ s h v, node.slot? s = some (.leaf h v) → base ≤ h

namespace FlatMount

variable {node : Mounted} {stack : List (Option NodeId)} {d d' : Document}

/-- Rewriting values keeps a mount in progress. -/
theorem rewrites (h : FlatMount P K base node stack d) (hw : Rewrites d d') :
    FlatMount P K base node stack d' where
  anchored := h.anchored.rewrites hw
  base_le := hw.size ▸ h.base_le
  parent_lt := h.parent_lt
  anchored_lt := h.anchored_lt
  open_new e he := by
    obtain ⟨h₁, h₂, h₃⟩ := h.open_new e he
    exact ⟨h₁, hw.size ▸ h₂, (hw.parent e).trans h₃⟩
  open_nodup := h.open_nodup
  roots_new := h.roots_new
  leaves_new := h.leaves_new

/-- A mount starts with a fresh node and nothing open. -/
theorem start (h : Anchored P K d) (site : List Nat) (p : Program) :
    FlatMount P K d.nodes.size (Mounted.fresh site p) [] d where
  anchored := h
  base_le := Nat.le_refl _
  parent_lt := h.lt_size
  anchored_lt _ hx := h.lt_size_of_mem hx
  open_new _ he := absurd he List.not_mem_nil
  open_nodup := List.nodup_nil
  roots_new _ href := absurd href List.not_mem_nil
  leaves_new s hd v hs := by
    simp only [Mounted.slot?, Mounted.slots_fresh, Array.getElem?_replicate] at hs
    split at hs <;> cases hs

theorem lt_size_of_mem_anchored (h : FlatMount P K base node stack d) :
    ∀ x ∈ K, x < d.nodes.size :=
  fun _ hx => h.anchored.lt_size_of_mem hx

/-- Opening an element pushes a node that is newer than every other. -/
theorem createElement (h : FlatMount P K base node stack d) (tag : String) :
    FlatMount P K base node (some d.nodes.size :: stack) (d.createElement tag).2 where
  anchored := h.anchored.createElement tag
  base_le := by simp only [size_createElement]; exact Nat.le_succ_of_le h.base_le
  parent_lt := h.parent_lt
  anchored_lt := h.anchored_lt
  open_new e he := by
    rw [size_createElement, parent?_createElement]
    rcases List.mem_cons.1 he with he | he
    · cases he
      exact ⟨h.base_le, Nat.lt_succ_self _, Document.parent?_eq_none_of_size_le (Nat.le_refl _)⟩
    · obtain ⟨h₁, h₂, h₃⟩ := h.open_new e he
      exact ⟨h₁, Nat.lt_succ_of_lt h₂, h₃⟩
  open_nodup := by
    simp only [id]
    refine List.nodup_cons.2 ⟨fun hin => ?_, h.open_nodup⟩
    obtain ⟨o, ho, hoe⟩ := List.mem_filterMap.1 hin
    subst hoe
    exact Nat.lt_irrefl _ (h.open_new _ ho).2.1
  roots_new := h.roots_new
  leaves_new := h.leaves_new

/-- Writing the text content of an open element keeps a mount in progress: the element is new,
so it is not the parent of `K`. -/
theorem setTextContent (h : FlatMount P K base node stack d) {e : NodeId} (he : some e ∈ stack)
    (text : String) : FlatMount P K base node stack (d.setTextContent e text) where
  anchored := h.anchored.setTextContent
    (Nat.ne_of_gt (Nat.lt_of_lt_of_le h.parent_lt (h.open_new e he).1)) text
  base_le := Nat.le_trans h.base_le (size_le_setTextContent d e text)
  parent_lt := h.parent_lt
  anchored_lt := h.anchored_lt
  open_new e' he' := by
    obtain ⟨h₁, h₂, h₃⟩ := h.open_new e' he'
    exact ⟨h₁, Nat.lt_of_lt_of_le h₂ (size_le_setTextContent d e text),
      parent?_setTextContent_of_none text h₂ h₃⟩
  open_nodup := h.open_nodup
  roots_new := h.roots_new
  leaves_new := h.leaves_new

/-- Attaching a new node without a parent that is not open keeps a mount in progress; at the
top it becomes a root. -/
theorem attach (h : FlatMount P K base node stack d) {q c : NodeId} (b : Option NodeId)
    (hc : base ≤ c) (hcs : c < d.nodes.size) (hcn : some c ∉ stack) (root : Bool) :
    FlatMount P K base (if root then node.addRoot (.host c) else node) stack (d.attach q c b) where
  anchored := h.anchored.attach b hcs fun hK => absurd (h.anchored_lt c hK) (Nat.not_lt.2 hc)
  base_le := by simpa using h.base_le
  parent_lt := h.parent_lt
  anchored_lt := h.anchored_lt
  open_new e he := by
    obtain ⟨h₁, h₂, h₃⟩ := h.open_new e he
    have hec : e ≠ c := fun hec => hcn (hec ▸ he)
    refine ⟨h₁, by simpa using h₂, ?_⟩
    rw [parent?_attach b hcs, if_neg hec, h₃]
  open_nodup := h.open_nodup
  roots_new ref href := by
    cases root with
    | false => exact h.roots_new ref href
    | true =>
      simp only [if_true, Mounted.rootRefs_addRoot, List.mem_append, List.mem_singleton] at href
      rcases href with href | rfl
      · exact h.roots_new ref href
      · exact ⟨c, rfl, hc⟩
  leaves_new := by
    cases root with
    | false => exact h.leaves_new
    | true => exact h.leaves_new

/-- Filling a slot with a value written to a new node, or with anything but a value, keeps a
mount in progress. -/
theorem setSlot (h : FlatMount P K base node stack d) (s : Nat) {x : Slot}
    (hx : ∀ h v, x = .leaf h v → base ≤ h) : FlatMount P K base (node.setSlot s x) stack d where
  anchored := h.anchored
  base_le := h.base_le
  parent_lt := h.parent_lt
  anchored_lt := h.anchored_lt
  open_new := h.open_new
  open_nodup := h.open_nodup
  roots_new := h.roots_new
  leaves_new t hd v ht := by
    rw [Mounted.slot?_setSlot] at ht
    split at ht
    · exact hx hd v (Option.some.inj ht)
    · exact h.leaves_new t hd v ht

/-- Creating a text node keeps a mount in progress; the node is new and has no parent. -/
theorem createText (h : FlatMount P K base node stack d) (text : String) :
    FlatMount P K base node stack (d.createText text).2 where
  anchored := h.anchored.createText text
  base_le := by simp only [size_createText]; exact Nat.le_succ_of_le h.base_le
  parent_lt := h.parent_lt
  anchored_lt := h.anchored_lt
  open_new e he := by
    rw [size_createText, parent?_createText]
    obtain ⟨h₁, h₂, h₃⟩ := h.open_new e he
    exact ⟨h₁, Nat.lt_succ_of_lt h₂, h₃⟩
  open_nodup := h.open_nodup
  roots_new := h.roots_new
  leaves_new := h.leaves_new

theorem size_not_open (h : FlatMount P K base node stack d) : some d.nodes.size ∉ stack :=
  fun hin => Nat.lt_irrefl _ (h.open_new _ hin).2.1

/-- Closing the innermost construct keeps a mount in progress. -/
theorem pop (h : FlatMount P K base node (o :: stack) d) : FlatMount P K base node stack d where
  anchored := h.anchored
  base_le := h.base_le
  parent_lt := h.parent_lt
  anchored_lt := h.anchored_lt
  open_new e he := h.open_new e (List.mem_cons_of_mem _ he)
  open_nodup := by
    cases o with
    | none => simpa using h.open_nodup
    | some e => exact (List.nodup_cons.1 (by simpa using h.open_nodup)).2
  roots_new := h.roots_new
  leaves_new := h.leaves_new

theorem not_mem_of_head {e : NodeId} {rest : List (Option NodeId)}
    (h : FlatMount P K base node (some e :: rest) d) : some e ∉ rest := by
  intro he
  have hn := h.open_nodup
  simp only [List.filterMap_cons, id] at hn
  exact (List.nodup_cons.1 hn).1 (List.mem_filterMap.2 ⟨_, he, rfl⟩)

/-- Opening a fragment keeps a mount in progress. -/
theorem pushFragment (h : FlatMount P K base node stack d) :
    FlatMount P K base node (none :: stack) d where
  anchored := h.anchored
  base_le := h.base_le
  parent_lt := h.parent_lt
  anchored_lt := h.anchored_lt
  open_new e he := h.open_new e (by simpa using he)
  open_nodup := by simpa using h.open_nodup
  roots_new := h.roots_new
  leaves_new := h.leaves_new

end FlatMount

/-! ## Each instruction of a flat program -/

theorem mem_of_enclosing {stack : List (Option NodeId)} {q : NodeId} (h : enclosing stack = some q) :
    some q ∈ stack := by
  obtain ⟨o, ho, hoq⟩ := List.exists_of_findSome?_eq_some h
  cases hoq
  exact ho

/-- No element is open exactly when the open frames hold none. -/
theorem enclosing_eq_none_iff {stack : List (Option NodeId)} :
    enclosing stack = none ↔ (stack.map Option.isSome).contains true = false := by
  simp only [enclosing, List.findSome?_eq_none_iff, id, Bool.eq_false_iff, ne_eq,
    List.contains_iff_mem, List.mem_map, not_exists, not_and]
  constructor
  · intro h o ho hs
    rw [h o ho] at hs
    cases hs
  · intro h o ho
    cases o with
    | none => rfl
    | some e => exact absurd rfl (h _ ho)

theorem writeProperty_rewrites {e : NodeId} {prop : Property} {text : String} {r r' : Renderer}
    {u : Unit} (h : (writeProperty e prop text).run r = .ok u r') :
    Rewrites r.document r'.document := by
  cases prop <;> simp only [writeProperty] at h <;> rw [RenderM.run_doc_ok h]
  · exact rewrites_setClassName _ _ _
  · exact rewrites_setAttribute _ _ _ _
  · exact rewrites_setStyle _ _ _

theorem register_rewrites {name : String} {e : NodeId} {reg : Registration} {r r' : Renderer}
    {u : Unit} (h : (register name e reg).run r = .ok u r') :
    r'.document = r.document ∨ Rewrites r.document r'.document := by
  cases h
  simp only [EventTables.register]
  split
  · exact .inl rfl
  · exact .inr (rewrites_addListener _ _ _)

/-- Placing a new node without a parent: under the innermost open element, or at the target,
where it is attached under `P` and becomes a root. -/
theorem place_flat {stack : List (Option NodeId)} {node node' : Mounted} {anchor : Option NodeId}
    {c : NodeId} {r r' : Renderer} (h : (place stack node ⟨P, anchor⟩ c).run r = .ok node' r')
    (hinv : FlatMount P K base node stack r.document) (hc : base ≤ c)
    (hcs : c < r.document.nodes.size) (hpc : r.document.parent? c = none) (hcn : some c ∉ stack) :
    FlatMount P K base node' stack r'.document ∧
    Logs P K r.document r'.document 0 (!(stack.map Option.isSome).contains true).toNat ∧
    node'.program = node.program ∧ node'.slots = node.slots ∧
    node'.rootRefs.length = node.rootRefs.length + (!(stack.map Option.isSome).contains true).toNat := by
  unfold place at h
  split at h
  · -- an open element takes the node
    rename_i q hq
    obtain ⟨u, r₁, h₁, h₂⟩ := RenderM.run_bind_ok h
    have hqs := mem_of_enclosing hq
    have hqP : q ≠ P := Nat.ne_of_gt (Nat.lt_of_lt_of_le hinv.parent_lt (hinv.open_new q hqs).1)
    have hcontains : (stack.map Option.isSome).contains true = true := by
      simpa using ⟨some q, hqs, rfl⟩
    rw [RenderM.run_doc_ok h₁] at h₂
    obtain ⟨rfl, rfl⟩ := RenderM.run_pure_ok h₂
    have hlog := Logs.attach_of_none (p := P) (K := K) (q := q) hpc none
    rw [if_neg hqP] at hlog
    rw [hcontains]
    exact ⟨hinv.attach none hc hcs hcn false, hlog, rfl, rfl, rfl⟩
  · -- at the target the node becomes a root
    rename_i hq
    obtain ⟨u, r₁, h₁, h₂⟩ := RenderM.run_bind_ok h
    have hcontains := enclosing_eq_none_iff.1 hq
    rw [RenderM.run_doc_ok h₁] at h₂
    obtain ⟨rfl, rfl⟩ := RenderM.run_pure_ok h₂
    have hlog := Logs.attach_of_none (p := P) (K := K) (q := P) hpc anchor
    rw [if_pos rfl] at hlog
    rw [hcontains]
    exact ⟨hinv.attach anchor hc hcs hcn true, hlog, rfl, rfl, by simp⟩

/-- One instruction of a flat program, mounted where it is admissible: a mount in progress stays
one, the open elements follow the open frames, the log gains no move and one insertion under
`P` when the instruction places a root, and the node gains that root. -/
theorem mountInstr_flat {sub : MountFn} {site : List Nat} {env : Env} {anchor : Option NodeId}
    {node node' : Mounted} {stack stack' : List (Option NodeId)} {i : Instruction} {k : Nat}
    {r r' : Renderer} (hi : i.programs = []) (hadm : (i.enter (stack.map Option.isSome)).isSome)
    (h : (mountInstr sub site env ⟨P, anchor⟩ node stack i k).run r = .ok (node', stack') r')
    (hinv : FlatMount P K base node stack r.document) :
    FlatMount P K base node' stack' r'.document ∧
    stack'.map Option.isSome = (i.enter (stack.map Option.isSome)).getD [] ∧
    Logs P K r.document r'.document 0 (i.placesRoot (stack.map Option.isSome)).toNat ∧
    node'.program = node.program ∧
    node'.rootRefs.length = node.rootRefs.length + (i.placesRoot (stack.map Option.isSome)).toNat := by
  cases i with
  | openElement tag =>
    obtain ⟨rfl, rfl, rfl⟩ := mountInstr_openElement_ok h
    exact ⟨hinv.createElement _, by simp [Instruction.enter],
      Logs.createElement hinv.lt_size_of_mem_anchored _, rfl, rfl⟩
  | closeElement =>
    obtain ⟨e, rest, rfl, h₁, rfl⟩ := mountInstr_closeElement_ok h
    obtain ⟨he₁, he₂, he₃⟩ := hinv.open_new e (List.mem_cons_self ..)
    obtain ⟨hf, hl, hp, -, hr⟩ := place_flat h₁ hinv.pop he₁ he₂ he₃ hinv.not_mem_of_head
    exact ⟨hf, by simp [Instruction.enter], hl, hp, hr⟩
  | openFragment =>
    obtain ⟨rfl, rfl, rfl⟩ := mountInstr_openFragment_ok h
    exact ⟨hinv.pushFragment, by simp [Instruction.enter], Logs.refl _ _ _, rfl, rfl⟩
  | closeFragment =>
    obtain ⟨rfl, rfl, rfl⟩ := mountInstr_closeFragment_ok h
    -- only a fragment is closed where the instruction is admissible
    rcases stack with _ | ⟨_ | _, rest⟩
    · simp [Instruction.enter] at hadm
    · exact ⟨hinv.pop, by simp [Instruction.enter], Logs.refl _ _ _, rfl, rfl⟩
    · simp [Instruction.enter] at hadm
  | staticProperty prop v =>
    obtain ⟨e, rest, rfl, h₁, rfl, rfl⟩ := mountInstr_staticProperty_ok h
    have hw := writeProperty_rewrites h₁
    exact ⟨hinv.rewrites hw, by simp [Instruction.enter, Instruction.onElement], Logs.rewrites hw,
      rfl, rfl⟩
  | staticAttribute name v =>
    obtain ⟨e, rest, rfl, h₁, rfl, rfl⟩ := mountInstr_staticAttribute_ok h
    rw [RenderM.run_doc_ok h₁]
    have hw := rewrites_setAttribute r.document e name v
    exact ⟨hinv.rewrites hw, by simp [Instruction.enter, Instruction.onElement], Logs.rewrites hw,
      rfl, rfl⟩
  | staticText t =>
    obtain ⟨e, rest, rfl, h₁, rfl, rfl⟩ := mountInstr_staticText_ok h
    rw [RenderM.run_doc_ok h₁]
    exact ⟨hinv.setTextContent (List.mem_cons_self ..) t,
      by simp [Instruction.enter, Instruction.onElement], Logs.setTextContent _ _, rfl, rfl⟩
  | staticTextNode t =>
    obtain ⟨h₁, rfl⟩ := mountInstr_staticTextNode_ok h
    obtain ⟨hf, hl, hp, -, hr⟩ := place_flat h₁ (hinv.createText t) hinv.base_le
      (by simp) (by simp [Document.parent?_eq_none_of_size_le]) hinv.size_not_open
    have hlog := (Logs.createText hinv.lt_size_of_mem_anchored t).trans hl
    rw [Nat.zero_add, Nat.zero_add] at hlog
    exact ⟨hf, by simp [Instruction.enter, Instruction.onElement], hlog, hp, hr⟩
  | dynamicProperty prop b s =>
    obtain ⟨e, rest, v, r₁, rfl, -, hd₁, h₁, rfl, rfl⟩ := mountInstr_dynamicProperty_ok h
    have hw := writeProperty_rewrites h₁
    rw [hd₁] at hw
    have he := (hinv.open_new e (List.mem_cons_self ..)).1
    exact ⟨(hinv.rewrites hw).setSlot s fun _ _ hx => by cases hx; exact he,
      by simp [Instruction.enter, Instruction.onElement], Logs.rewrites hw, rfl, rfl⟩
  | dynamicAttribute name b s =>
    obtain ⟨e, rest, v, r₁, rfl, -, hd₁, h₁, rfl, rfl⟩ := mountInstr_dynamicAttribute_ok h
    rw [RenderM.run_doc_ok h₁, hd₁]
    have hw := rewrites_setAttribute r.document e name v.contentText
    have he := (hinv.open_new e (List.mem_cons_self ..)).1
    exact ⟨(hinv.rewrites hw).setSlot s fun _ _ hx => by cases hx; exact he,
      by simp [Instruction.enter, Instruction.onElement], Logs.rewrites hw, rfl, rfl⟩
  | dynamicText b s =>
    obtain ⟨e, rest, v, r₁, rfl, -, hd₁, h₁, rfl, rfl⟩ := mountInstr_dynamicText_ok h
    rw [RenderM.run_doc_ok h₁, hd₁]
    have he := (hinv.open_new e (List.mem_cons_self ..)).1
    exact ⟨(hinv.setTextContent (List.mem_cons_self ..) _).setSlot s fun _ _ hx => by
        cases hx; exact he,
      by simp [Instruction.enter, Instruction.onElement], Logs.setTextContent _ _, rfl, rfl⟩
  | dynamicTextNode b s =>
    obtain ⟨v, r₁, n, -, hd₁, h₁, rfl, rfl⟩ := mountInstr_dynamicTextNode_ok h
    rw [← hd₁] at hinv
    obtain ⟨hf, hl, hp, -, hr⟩ := place_flat h₁ (hinv.createText _) hinv.base_le
      (by simp) (by simp [Document.parent?_eq_none_of_size_le]) hinv.size_not_open
    have hlog := (Logs.createText hinv.lt_size_of_mem_anchored _).trans hl
    rw [Nat.zero_add, Nat.zero_add, hd₁] at hlog
    exact ⟨hf.setSlot s fun _ _ hx => by cases hx; exact hinv.base_le,
      by simp [Instruction.enter, Instruction.onElement], hlog, hp, hr⟩
  | ternary t => simp [Instruction.programs] at hi
  | loop l => simp [Instruction.programs] at hi
  | component c => simp [Instruction.programs] at hi
  | didMount cb =>
    obtain ⟨h₁, rfl, rfl⟩ := mountInstr_didMount_ok h
    rw [(RenderM.keepsDocument_defer _).ok h₁]
    exact ⟨hinv, by simp [Instruction.enter, Instruction.onElement], Logs.refl _ _ _, rfl, rfl⟩
  | didUpdate cb =>
    obtain ⟨rfl, rfl, rfl⟩ := mountInstr_didUpdate_ok h
    exact ⟨hinv, by simp [Instruction.enter, Instruction.onElement], Logs.refl _ _ _, rfl, rfl⟩
  | event name handler s refresh =>
    obtain ⟨e, rest, rfl, h₁, rfl, rfl⟩ := mountInstr_event_ok h
    have hslot : ∀ h v, Slot.event e = .leaf h v → base ≤ h := fun _ _ hx => by cases hx
    rcases register_rewrites h₁ with hd | hw
    · rw [hd]
      exact ⟨hinv.setSlot s hslot, by simp [Instruction.enter, Instruction.onElement],
        Logs.refl _ _ _, rfl, rfl⟩
    · exact ⟨(hinv.rewrites hw).setSlot s hslot, by simp [Instruction.enter, Instruction.onElement],
        Logs.rewrites hw, rfl, rfl⟩

/-- Roots that are all host nodes with a property are the hosts of a list of such nodes. -/
theorem exists_hosts {refs : List RootRef} {Q : NodeId → Prop}
    (h : ∀ ref ∈ refs, ∃ x, ref = .host x ∧ Q x) :
    ∃ xs : List NodeId, refs = xs.map .host ∧ ∀ x ∈ xs, Q x := by
  induction refs with
  | nil => exact ⟨[], rfl, fun _ hx => absurd hx List.not_mem_nil⟩
  | cons ref refs ih =>
    obtain ⟨x, rfl, hx⟩ := h ref (List.mem_cons_self ..)
    obtain ⟨xs, rfl, hxs⟩ := ih fun ref' h' => h ref' (List.mem_cons_of_mem _ h')
    exact ⟨x :: xs, rfl, fun y hy => (List.mem_cons.1 hy).elim (fun e => e ▸ hx) (hxs y)⟩

/-- Mounting a well-formed flat program at a target under `P`: the nodes of `K` still hang under
`P`, the log gains no move and one insertion under `P` per top-level node, and the node's roots
and the handles of its values are new nodes. -/
theorem mount_flat {fuel : Nat} {site : List Nat} {T : Program} {env : Env}
    {anchor : Option NodeId} {node : Mounted} {r r' : Renderer} (hflat : T.Flat)
    (hwf : T.WellFormed) (h : (mount fuel site T env ⟨P, anchor⟩).run r = .ok node r')
    (hA : Anchored P K r.document) :
    Anchored P K r'.document ∧ Logs P K r.document r'.document 0 T.topLevelNodes ∧
    node.program = T ∧
    (∃ xs : List NodeId, node.rootRefs = xs.map .host ∧ xs.length = T.topLevelNodes ∧
      ∀ x ∈ xs, r.document.nodes.size ≤ x) ∧
    ∀ s hd v, node.slot? s = some (.leaf hd v) → r.document.nodes.size ≤ hd := by
  cases fuel with
  | zero => cases h
  | succ fuel =>
    rw [mount_succ, RenderM.run_get_bind] at h
    obtain ⟨acc, r₁, h₁, h₂⟩ := RenderM.run_bind_ok h
    obtain ⟨u, r₂, h₃, h₄⟩ := RenderM.run_bind_ok h₂
    obtain ⟨rfl, rfl⟩ := RenderM.run_pure_ok h₄
    rw [(RenderM.keepsDocument_installPlan site _).ok h₃]
    have hloop := RenderM.run_forIn_ok (fun rest (acc : Mounted × List (Option NodeId)) s =>
        ∃ l : Layout, Layout.Admits T.slotCount l (rest.map Prod.fst) ∧
          (∀ i ∈ rest.map Prod.fst, i.programs = []) ∧ acc.2.map Option.isSome = l.frames ∧
          FlatMount P K r.document.nodes.size acc.1 acc.2 s.document ∧
          Logs P K r.document s.document 0 acc.1.rootRefs.length ∧
          acc.1.rootRefs.length + Instruction.rootsPlaced l (rest.map Prod.fst) = T.topLevelNodes ∧
          acc.1.program = T)
      ?_ ?_ ?_ h₁
    · obtain ⟨l, -, -, -, hfm, hlog, hcount, hprog⟩ := hloop
      obtain ⟨xs, hxs, hnew⟩ := exists_hosts hfm.roots_new
      have hlen : acc.1.rootRefs.length = T.topLevelNodes := by
        simpa [Instruction.rootsPlaced] using hcount
      refine ⟨hfm.anchored, hlen ▸ hlog, hprog, ⟨xs, hxs, ?_, hnew⟩, hfm.leaves_new⟩
      rw [← hlen, hxs, List.length_map]
    · rintro ⟨instr, k⟩ rest ⟨node₀, stack₀⟩ s ⟨node₁, stack₁⟩ s'
        ⟨l, hadm, hflat', hfr, hfm, hlog, hcount, hprog⟩ hrun
      obtain ⟨res, s₁, hm, hy⟩ := RenderM.run_bind_ok hrun
      obtain ⟨hres, rfl⟩ := RenderM.run_pure_ok hy
      cases hres
      obtain ⟨hadm₁, hadm₂⟩ := hadm
      have hi : instr.programs = [] := hflat' instr (List.mem_cons_self ..)
      have he : (instr.enter (stack₀.map Option.isSome)).isSome := by rw [hfr]; exact hadm₁.frames
      obtain ⟨hfm', hfr', hlog', hprog', hlen'⟩ := mountInstr_flat hi he hm hfm
      refine ⟨l.push instr, hadm₂, fun i hi' => hflat' i (List.mem_cons_of_mem _ hi'), ?_, hfm', ?_,
        ?_, hprog'.trans hprog⟩
      · rw [hfr', hfr]
        rfl
      · rw [hlen']
        simpa using hlog.trans hlog'
      · rw [hlen', hfr, ← hcount]
        simp only [List.map_cons, Instruction.rootsPlaced]
        omega
    · rintro ⟨instr, k⟩ rest _ s _ s' _ hrun
      obtain ⟨res, s₁, hm, hy⟩ := RenderM.run_bind_ok hrun
      cases RenderM.run_pure_ok hy |>.1
    · refine ⟨{}, ?_, ?_, rfl, FlatMount.start hA site T, Logs.refl _ _ _, ?_, rfl⟩
      · rw [List.zipIdx_map_fst]
        exact hwf.laidOut.admits
      · rw [List.zipIdx_map_fst]
        exact hflat
      · simp [Program.topLevelNodes, List.zipIdx_map_fst]

/-! ## Updating a flat node -/

/-- The elements and text nodes a node's values were written to are not `P`. -/
def LeavesAvoid (P : NodeId) (n : Mounted) : Prop :=
  ∀ s h v, n.slot? s = some (.leaf h v) → h ≠ P

/-- What an update of a node that leaves the nodes under `P` alone keeps: the anchoring, a log
without moves, insertions, removals or creations, the node's program and roots, and where its
values are written. -/
structure UpdateKeeps (P : NodeId) (K : List NodeId) (node : Mounted) (d : Document)
    (node' : Mounted) (d' : Document) : Prop where
  anchored : Anchored P K d'
  logs : Logs P K d d' 0 0
  program : node'.program = node.program
  rootRefs : node'.rootRefs = node.rootRefs
  leaves : LeavesAvoid P node'

namespace UpdateKeeps

variable {node node' node'' : Mounted} {d d' d'' : Document}

theorem refl (hA : Anchored P K d) (hl : LeavesAvoid P node) : UpdateKeeps P K node d node d :=
  ⟨hA, Logs.refl _ _ _, rfl, rfl, hl⟩

theorem trans (h₁ : UpdateKeeps P K node d node' d') (h₂ : UpdateKeeps P K node' d' node'' d'') :
    UpdateKeeps P K node d node'' d'' :=
  ⟨h₂.anchored, by simpa using h₁.logs.trans h₂.logs, h₂.program.trans h₁.program,
    h₂.rootRefs.trans h₁.rootRefs, h₂.leaves⟩

theorem of_document (h : UpdateKeeps P K node d node' d') (he : d'' = d') :
    UpdateKeeps P K node d node' d'' := he ▸ h

end UpdateKeeps

/-- Writing a value into a node other than `P` keeps the anchoring and logs nothing that counts. -/
def WritesAvoid (P : NodeId) (K : List NodeId) (write : NodeId → String → RenderM Unit) : Prop :=
  ∀ h t r u r', h ≠ P → (write h t).run r = .ok u r' → Anchored P K r.document →
    Anchored P K r'.document ∧ Logs P K r.document r'.document 0 0

theorem writesAvoid_property (prop : Property) : WritesAvoid P K fun h t => writeProperty h prop t :=
  fun _ _ _ _ _ _ hrun hA =>
    have hw := writeProperty_rewrites hrun
    ⟨hA.rewrites hw, Logs.rewrites hw⟩

theorem writesAvoid_attribute (name : String) :
    WritesAvoid P K fun h t => RenderM.doc (·.setAttribute h name t) := by
  intro h t r u r' _ hrun hA
  rw [RenderM.run_doc_ok hrun]
  have hw := rewrites_setAttribute r.document h name t
  exact ⟨hA.rewrites hw, Logs.rewrites hw⟩

theorem writesAvoid_text : WritesAvoid P K fun h t => RenderM.doc (·.setTextContent h t) := by
  intro h t r u r' hP hrun hA
  rw [RenderM.run_doc_ok hrun]
  exact ⟨hA.setTextContent hP t, Logs.setTextContent h t⟩

/-- Refreshing a value writes it, if it changed, into the node it was written to before. -/
theorem refreshLeaf_keeps {node : Mounted} {s : Nat} {value : RenderM Value}
    {write : NodeId → String → RenderM Unit} {res : Mounted × Option RenderError} {r r' : Renderer}
    (hvalue : RenderM.KeepsDocument value) (hwrite : WritesAvoid P K write)
    (h : (refreshLeaf node s value write).run r = .ok res r') (hA : Anchored P K r.document)
    (hl : LeavesAvoid P node) : UpdateKeeps P K node r.document res.1 r'.document := by
  unfold refreshLeaf at h
  obtain ⟨x, r₁, h₁, h₂⟩ := RenderM.run_bind_ok h
  have hd₁ := hvalue.attempt.ok h₁
  rw [← hd₁] at hA ⊢
  split at h₂
  · obtain ⟨rfl, rfl⟩ := RenderM.run_pure_ok h₂
    exact .refl hA hl
  · split at h₂
    · rename_i v hd last hs
      split at h₂
      · obtain ⟨rfl, rfl⟩ := RenderM.run_pure_ok h₂
        exact .refl hA hl
      · obtain ⟨u, r₂, h₃, h₄⟩ := RenderM.run_bind_ok h₂
        obtain ⟨rfl, rfl⟩ := RenderM.run_pure_ok h₄
        obtain ⟨hA', hlog⟩ := hwrite hd _ _ _ _ (hl s hd last hs) h₃ hA
        refine ⟨hA', hlog, rfl, rfl, fun t h' v' ht => ?_⟩
        rw [Mounted.slot?_setSlot] at ht
        split at ht
        · simp only [Option.some.injEq, Slot.leaf.injEq] at ht
          rw [← ht.1]
          exact hl s hd last hs
        · exact hl t h' v' ht
    · obtain ⟨rfl, rfl⟩ := RenderM.run_pure_ok h₂
      exact .refl hA hl

theorem writesOnly_of_mem_updateOps {instr : Instruction} {op : UpdateOp}
    (hi : instr.programs = []) (hop : op ∈ instr.updateOps) : op.writesOnly = true := by
  cases instr with
  | ternary t => simp [Instruction.programs] at hi
  | loop l => simp [Instruction.programs] at hi
  | component c => simp [Instruction.programs] at hi
  | event name handler s refresh =>
    cases refresh <;> simp [Instruction.updateOps] at hop
    subst hop
    rfl
  | _ => simp [Instruction.updateOps] at hop <;> subst hop <;> rfl

/-- An update op that only writes values keeps what an update of a flat node keeps. -/
theorem updateOp_flat {sub : Subpasses} {node : Mounted} {k : Nat} {op : UpdateOp} {env : Env}
    {res : Mounted × Option RenderError} {r r' : Renderer} (hop : op.writesOnly = true)
    (h : (updateOp sub node k op env).run r = .ok res r') (hA : Anchored P K r.document)
    (hl : LeavesAvoid P node) : UpdateKeeps P K node r.document res.1 r'.document := by
  match op, hop, h with
  | .property prop b s, _, h =>
    exact refreshLeaf_keeps (keepsDocument_resolve _ _ _ _) (writesAvoid_property prop) h hA hl
  | .attribute name b s, _, h =>
    exact refreshLeaf_keeps (keepsDocument_resolve _ _ _ _) (writesAvoid_attribute name) h hA hl
  | .text code b s, _, h =>
    exact refreshLeaf_keeps (keepsDocument_resolve _ _ _ _) writesAvoid_text h hA hl
  | .didUpdate cb, _, h =>
    simp only [updateOp] at h
    obtain ⟨u, r₁, h₁, h₂⟩ := RenderM.run_bind_ok h
    obtain ⟨rfl, rfl⟩ := RenderM.run_pure_ok h₂
    rw [(RenderM.keepsDocument_defer _).ok h₁]
    exact .refl hA hl
  | .refreshEvent name handler s, _, h =>
    simp only [updateOp] at h
    split at h
    · obtain ⟨u, r₁, h₁, h₂⟩ := RenderM.run_bind_ok h
      obtain ⟨rfl, rfl⟩ := RenderM.run_pure_ok h₂
      cases h₁
      exact .refl hA hl
    · obtain ⟨rfl, rfl⟩ := RenderM.run_pure_ok h
      exact .refl hA hl

/-- Updating a flat node whose values were not written into `P`: the nodes under `P` are left
alone, and the node keeps its program, its roots and where its values are written. -/
theorem updateNode_flat {fuel : Nat} {node : Mounted} {env : Env}
    {res : Mounted × Option RenderError} {r r' : Renderer} (hflat : node.program.Flat)
    (h : (updateNode fuel node env).run r = .ok res r') (hA : Anchored P K r.document)
    (hl : LeavesAvoid P node) : UpdateKeeps P K node r.document res.1 r'.document := by
  cases fuel with
  | zero =>
    obtain ⟨rfl, rfl⟩ := RenderM.run_pure_ok h
    exact .refl hA hl
  | succ fuel =>
    rw [updateNode.eq_2, RenderM.run_get_bind] at h
    split at h
    · obtain ⟨rfl, rfl⟩ := RenderM.run_pure_ok h
      exact .refl hA hl
    obtain ⟨acc, r₁, h₁, h₂⟩ := RenderM.run_bind_ok h
    -- both loops keep: the node so far, and the node handed back with an error, are updates
    -- that leave the nodes under `P` alone
    let Inv := fun (acc : Option (Mounted × Option RenderError) × Mounted) (s : Renderer) =>
      UpdateKeeps P K node r.document acc.2 s.document ∧
        ∀ x ∈ acc.1, UpdateKeeps P K node r.document x.1 s.document
    have hinit : Inv (none, node) r := ⟨.refl hA hl, fun x hx => by cases hx⟩
    have hloop := RenderM.run_forIn_inv Inv ?_ hinit h₁
    · obtain ⟨hk, hks⟩ := hloop
      dsimp only at h₂
      split at h₂
      · rename_i x hx
        obtain ⟨hres, hr⟩ := RenderM.run_pure_ok h₂
        subst hres hr
        exact hks _ hx
      · obtain ⟨rfl, rfl⟩ := RenderM.run_pure_ok h₂
        exact hk
    rintro ⟨instr, k⟩ hmem ⟨ret, n⟩ s step s' ⟨hk, -⟩ hrun
    have hi : instr.programs = [] :=
      hflat instr (List.mem_of_getElem? (List.mk_mem_zipIdx_iff_getElem?.1 hmem))
    obtain ⟨inner, s₁, h₁, h₂⟩ := RenderM.run_bind_ok hrun
    have hinit : Inv (none, n) s := ⟨hk, fun x hx => by cases hx⟩
    have hinner := RenderM.run_forIn_inv Inv ?_ hinit h₁
    · obtain ⟨hk₁, hks₁⟩ := hinner
      dsimp only at h₂
      split at h₂
      · rename_i x hx
        obtain ⟨rfl, rfl⟩ := RenderM.run_pure_ok h₂
        exact ⟨hk₁, fun y hy => by cases hy; exact hks₁ _ hx⟩
      · obtain ⟨rfl, rfl⟩ := RenderM.run_pure_ok h₂
        exact ⟨hk₁, fun y hy => by cases hy⟩
    rintro op hop ⟨ret, n⟩ s step s' ⟨hk, -⟩ hstep
    obtain ⟨⟨n₁, err⟩, s₁, h₃, h₄⟩ := RenderM.run_bind_ok hstep
    have hkeep := hk.trans (updateOp_flat (writesOnly_of_mem_updateOps hi hop) h₃ hk.anchored hk.leaves)
    dsimp only at h₄
    split at h₄
    · obtain ⟨rfl, rfl⟩ := RenderM.run_pure_ok h₄
      exact ⟨hkeep, fun y hy => by cases hy; exact hkeep⟩
    · obtain ⟨rfl, rfl⟩ := RenderM.run_pure_ok h₄
      exact ⟨hkeep, fun y hy => by cases hy⟩

end Pass

end Canopy
