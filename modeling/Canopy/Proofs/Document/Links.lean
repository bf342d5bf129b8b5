import Canopy.Document.Basic
import Mathlib.Data.List.InsertIdx

/-!
# Which nodes a change of the document moves

Each change of the document touches few nodes. The lemmas here say which: every other node keeps
its parent and its children, the arena only grows, and the log grows by exactly the change.

Two notions are built on them for judging a pass by what it does to one parent `p`.
`Document.Anchored p K d` says that the nodes `K` hang under `p` and under no other node; a
change keeps it unless it takes a node of `K` away from `p` (`Anchored.attach`,
`Anchored.removeChild`, `Anchored.setTextContent`). `Document.Logs p K d d' moves inserts` says
that from `d` to `d'` the log grows by changes of which `moves` move an attached node and
`inserts` put a node that had no parent under `p`, none of them removing or creating a node of
`K`.
-/

namespace Canopy

namespace DocOp

/-- Whether a change attaches a node that had no parent under `p`: an append or an insert
there. -/
def insertsInto (p : NodeId) : DocOp → Bool
  | .append q _ => q == p
  | .insert q _ _ => q == p
  | _ => false

/-- The node a change removes from its parent, if it is a removal. -/
def removed? : DocOp → Option NodeId
  | .remove _ c => some c
  | _ => none

/-- The node a change creates, if it creates one. -/
def created? : DocOp → Option NodeId
  | .createElement n _ => some n
  | .createText n _ => some n
  | _ => none

end DocOp

namespace Document

variable {d d' : Document} {n m x p c : NodeId}

/-! ## The arena -/

@[simp] theorem nodes_record (d : Document) (op : DocOp) : (d.record op).nodes = d.nodes := rfl

@[simp] theorem log_record (d : Document) (op : DocOp) : (d.record op).log = d.log.push op := rfl

@[simp] theorem log_modifyNode (d : Document) (n : NodeId) (f : NodeData → NodeData) :
    (d.modifyNode n f).log = d.log := rfl

@[simp] theorem size_modifyNode (d : Document) (n : NodeId) (f : NodeData → NodeData) :
    (d.modifyNode n f).nodes.size = d.nodes.size := Array.size_modify

@[simp] theorem fst_alloc (d : Document) (k : NodeKind) : (d.alloc k).1 = d.nodes.size := rfl

@[simp] theorem size_alloc (d : Document) (k : NodeKind) :
    (d.alloc k).2.nodes.size = d.nodes.size + 1 := Array.size_push _

@[simp] theorem log_alloc (d : Document) (k : NodeKind) : (d.alloc k).2.log = d.log := rfl

theorem get?_modifyNode (f : NodeData → NodeData) :
    (d.modifyNode n f).get? x = if n = x then (d.get? x).map f else d.get? x :=
  Array.getElem?_modify

theorem lt_size_of_parent? (h : d.parent? x = some p) : x < d.nodes.size := by
  unfold parent? get? at h
  rcases Nat.lt_or_ge x d.nodes.size with hx | hx
  · exact hx
  · rw [Array.getElem?_eq_none hx] at h
    cases h

theorem parent?_eq_none_of_size_le (h : d.nodes.size ≤ x) : d.parent? x = none := by
  simp [parent?, get?, Array.getElem?_eq_none h]

theorem lt_size_of_get? {nd : NodeData} (h : d.get? x = some nd) : x < d.nodes.size :=
  (Array.getElem?_eq_some_iff.1 h).1

theorem parent?_of_nodes (h : d'.nodes = d.nodes) : d'.parent? x = d.parent? x := by
  unfold parent? get?
  rw [h]

theorem children_of_nodes (h : d'.nodes = d.nodes) : d'.children x = d.children x := by
  unfold children get?
  rw [h]

theorem parent?_modifyNode_ne (f : NodeData → NodeData) (h : n ≠ x) :
    (d.modifyNode n f).parent? x = d.parent? x := by
  simp only [parent?, get?_modifyNode, if_neg h]

theorem children_modifyNode_ne (f : NodeData → NodeData) (h : n ≠ x) :
    (d.modifyNode n f).children x = d.children x := by
  simp only [children, get?_modifyNode, if_neg h]

theorem parent?_modifyNode (f : NodeData → NodeData) (hf : ∀ nd, (f nd).parent = nd.parent) :
    (d.modifyNode n f).parent? x = d.parent? x := by
  by_cases h : n = x
  · subst h
    cases hx : d.get? n <;> simp [parent?, get?_modifyNode, hx, hf]
  · exact parent?_modifyNode_ne f h

theorem children_modifyNode (f : NodeData → NodeData) (hf : ∀ nd, (f nd).children = nd.children) :
    (d.modifyNode n f).children x = d.children x := by
  by_cases h : n = x
  · subst h
    cases hx : d.get? n <;> simp [children, get?_modifyNode, hx, hf]
  · exact children_modifyNode_ne f h

/-- A change of a node that only drops children adds no child anywhere. -/
theorem mem_children_modifyNode (f : NodeData → NodeData)
    (hf : ∀ nd, ∀ y ∈ (f nd).children, y ∈ nd.children) (h : x ∈ (d.modifyNode n f).children m) :
    x ∈ d.children m := by
  by_cases hn : n = m
  · subst hn
    cases hget : d.get? n with
    | none => simp [children, get?_modifyNode, hget] at h
    | some nd =>
      simp only [children, get?_modifyNode, hget, Option.map_some, Option.getD_some] at h ⊢
      exact hf nd x h
  · rwa [children_modifyNode_ne _ hn] at h

theorem mem_children_modifyNode_self {cs : List NodeId}
    (h : x ∈ (d.modifyNode n fun nd => { nd with children := cs }).children n) : x ∈ cs := by
  cases hget : d.get? n <;> simp_all [children, get?_modifyNode]

theorem parent?_modifyNode_setParent (o : Option NodeId) (hn : n < d.nodes.size) :
    (d.modifyNode n fun nd => { nd with parent := o }).parent? x =
      if x = n then o else d.parent? x := by
  split
  · subst x
    have hget : d.get? n = some d.nodes[n] := Array.getElem?_eq_getElem hn
    simp [parent?, get?_modifyNode, hget]
  · exact parent?_modifyNode_ne _ (Ne.symm ‹_›)

@[simp] theorem parent?_modifyNode_setChildren (g : NodeData → List NodeId) :
    (d.modifyNode n fun nd => { nd with children := g nd }).parent? x = d.parent? x :=
  parent?_modifyNode _ fun _ => rfl

@[simp] theorem parent?_modifyNode_setKind (g : NodeData → NodeKind) :
    (d.modifyNode n fun nd => { nd with kind := g nd }).parent? x = d.parent? x :=
  parent?_modifyNode _ fun _ => rfl

@[simp] theorem children_modifyNode_setKind (g : NodeData → NodeKind) :
    (d.modifyNode n fun nd => { nd with kind := g nd }).children x = d.children x :=
  children_modifyNode _ fun _ => rfl

@[simp] theorem children_modifyNode_setParent (o : Option NodeId) :
    (d.modifyNode n fun nd => { nd with parent := o }).children x = d.children x :=
  children_modifyNode _ fun _ => rfl

@[simp] theorem parent?_alloc (k : NodeKind) : (d.alloc k).2.parent? x = d.parent? x := by
  simp only [alloc, parent?, get?, Array.getElem?_push]
  split
  · subst x
    simp
  · rfl

@[simp] theorem children_alloc (k : NodeKind) : (d.alloc k).2.children x = d.children x := by
  simp only [alloc, children, get?, Array.getElem?_push]
  split
  · subst x
    simp
  · rfl

/-! ## Detaching and attaching -/

@[simp] theorem size_detach (d : Document) (c : NodeId) : (d.detach c).nodes.size = d.nodes.size := by
  unfold detach
  split <;> simp

@[simp] theorem log_detach (d : Document) (c : NodeId) : (d.detach c).log = d.log := by
  unfold detach
  split <;> simp

theorem parent?_detach : (d.detach c).parent? x = if x = c then none else d.parent? x := by
  unfold detach
  split
  · rename_i hc
    split
    · subst x
      exact hc
    · rfl
  · rename_i q hc
    dsimp only
    rw [parent?_modifyNode, parent?_modifyNode_setParent none (lt_size_of_parent? hc)]
    intro nd
    rfl

theorem mem_children_detach (h : x ∈ (d.detach c).children n) : x ∈ d.children n := by
  unfold detach at h
  split at h
  · exact h
  · dsimp only at h
    have h₁ := mem_children_modifyNode _ (fun _ _ hy => (List.mem_filter.1 hy).1) h
    rwa [children_modifyNode_setParent] at h₁

@[simp] theorem size_attach (d : Document) (p c : NodeId) (b : Option NodeId) :
    (d.attach p c b).nodes.size = d.nodes.size := by
  simp [attach]

/-- Attaching logs one change: a move for a node that had a parent, and otherwise an insert or
an append under the new parent. -/
theorem log_attach (d : Document) (p c : NodeId) (b : Option NodeId) :
    ∃ op, (d.attach p c b).log = d.log.push op ∧ op.isMove = (d.parent? c).isSome ∧
      (∀ q, op.insertsInto q = (!(d.parent? c).isSome && p == q)) ∧ op.removed? = none ∧
      op.created? = none := by
  unfold attach
  dsimp only
  simp only [log_record, log_modifyNode, log_detach]
  refine ⟨_, rfl, ?_⟩
  cases h : (d.parent? c).isSome <;> cases b <;>
    simp [DocOp.isMove, DocOp.insertsInto, DocOp.removed?, DocOp.created?]

/-- An attached node of the arena takes its new parent; every other node keeps its own. -/
theorem parent?_attach (b : Option NodeId) (hc : c < d.nodes.size) :
    (d.attach p c b).parent? x = if x = c then some p else d.parent? x := by
  unfold attach
  dsimp only
  rw [parent?_of_nodes (nodes_record _ _), parent?_modifyNode_setParent _ (by simpa using hc),
    parent?_modifyNode, parent?_detach]
  · by_cases hx : x = c <;> simp [hx]
  · intro nd
    rfl

/-- Attaching adds only the attached node, and only to the new parent's children. -/
theorem mem_children_attach (b : Option NodeId) (h : x ∈ (d.attach p c b).children n) :
    x ∈ d.children n ∨ (x = c ∧ n = p) := by
  unfold attach at h
  dsimp only at h
  rw [children_of_nodes (nodes_record _ _), children_modifyNode_setParent] at h
  by_cases hp : p = n
  · subst hp
    cases hget : (d.detach c).get? p with
    | none => simp [children, get?_modifyNode, hget] at h
    | some nd =>
      simp only [children, get?_modifyNode, hget, if_true, Option.map_some,
        Option.getD_some] at h
      rcases List.eq_or_mem_of_mem_insertIdx h with rfl | hx
      · exact Or.inr ⟨rfl, rfl⟩
      · have hold : x ∈ (d.detach c).children p := by simp [children, hget, hx]
        exact Or.inl (mem_children_detach hold)
  · rw [children_modifyNode_ne _ hp] at h
    exact Or.inl (mem_children_detach h)

/-! ## Removing -/

@[simp] theorem size_removeChild (d : Document) (p c : NodeId) :
    (d.removeChild p c).nodes.size = d.nodes.size := by
  simp only [removeChild, nodes_record]
  split <;> simp

@[simp] theorem log_removeChild (d : Document) (p c : NodeId) :
    (d.removeChild p c).log = d.log.push (.remove p c) := by
  simp only [removeChild, log_record]
  split <;> simp

theorem parent?_removeChild (h : x ≠ c) : (d.removeChild p c).parent? x = d.parent? x := by
  simp only [removeChild, parent?_of_nodes (nodes_record _ _)]
  split
  · rw [parent?_detach, if_neg h]
  · rfl

theorem mem_children_removeChild (h : x ∈ (d.removeChild p c).children n) : x ∈ d.children n := by
  simp only [removeChild, children_of_nodes (nodes_record _ _)] at h
  split at h
  · exact mem_children_detach h
  · exact h

/-! ## Writing values -/

theorem nodes_size_modifyElement (d : Document) (n : NodeId) f :
    (d.modifyElement n f).nodes.size = d.nodes.size := size_modifyNode _ _ _

theorem parent?_modifyElement (f) : (d.modifyElement n f).parent? x = d.parent? x := by
  refine parent?_modifyNode _ fun nd => ?_
  split <;> rfl

theorem children_modifyElement (f) : (d.modifyElement n f).children x = d.children x := by
  refine children_modifyNode _ fun nd => ?_
  split <;> rfl

/-- Clearing the parent field of each of a list of nodes. -/
theorem parent?_foldl_unparent (cs : List NodeId) (d : Document) :
    (cs.foldl (fun (d : Document) c => d.modifyNode c fun cd => { cd with parent := none }) d).parent? x =
      if x ∈ cs then none else d.parent? x := by
  induction cs generalizing d with
  | nil => simp
  | cons c cs ih =>
    rw [List.foldl_cons, ih]
    by_cases hx : x ∈ cs
    · simp [hx]
    · by_cases hc : c = x
      · subst hc
        cases hget : d.get? c <;> simp [parent?, get?_modifyNode, hget, hx]
      · simp [hx, Ne.symm hc, parent?_modifyNode_ne _ hc]

theorem foldl_unparent_facts (cs : List NodeId) (d : Document) :
    (cs.foldl (fun (d : Document) c => d.modifyNode c fun cd => { cd with parent := none }) d).nodes.size =
      d.nodes.size ∧
    (∀ x, (cs.foldl (fun (d : Document) c => d.modifyNode c fun cd => { cd with parent := none }) d).children x =
      d.children x) ∧
    (cs.foldl (fun (d : Document) c => d.modifyNode c fun cd => { cd with parent := none }) d).log = d.log := by
  induction cs generalizing d with
  | nil => simp
  | cons c cs ih =>
    obtain ⟨hs, hch, hl⟩ := ih (d.modifyNode c fun cd => { cd with parent := none })
    refine ⟨by simp [hs], fun x => ?_, by simp [hl]⟩
    rw [List.foldl_cons, hch, children_modifyNode_setParent]

end Document

end Canopy

namespace Canopy

namespace Document

variable {d : Document} {n m x : NodeId}

/-! ## Setting text content -/

@[simp] theorem log_setTextContent (d : Document) (n : NodeId) (text : String) :
    (d.setTextContent n text).log = d.log.push (.setTextContent n text) := by
  unfold setTextContent
  simp only [log_record]
  congr 1
  split
  · rfl
  · rename_i nd _ _
    obtain ⟨-, -, hl⟩ := foldl_unparent_facts nd.children d
    split <;> simp [hl]
  · rfl

theorem size_le_setTextContent (d : Document) (n : NodeId) (text : String) :
    d.nodes.size ≤ (d.setTextContent n text).nodes.size := by
  unfold setTextContent
  simp only [nodes_record]
  split
  · simp
  · rename_i nd _ _
    obtain ⟨hs, -, -⟩ := foldl_unparent_facts nd.children d
    split <;> simp [hs]
  · exact Nat.le_refl _

/-- A node of the arena that is not a child of the written node keeps its parent. -/
theorem parent?_setTextContent (text : String) (hx : x < d.nodes.size) (hxn : x ∉ d.children n) :
    (d.setTextContent n text).parent? x = d.parent? x := by
  unfold setTextContent
  rw [parent?_of_nodes (nodes_record _ _)]
  split
  · exact parent?_modifyNode_setKind _
  · rename_i nd _ hget
    obtain ⟨hs, -, -⟩ := foldl_unparent_facts nd.children d
    have hxc : x ∉ nd.children := by simpa [children, hget] using hxn
    have hd₁ := parent?_foldl_unparent (x := x) nd.children d
    rw [if_neg hxc] at hd₁
    dsimp only
    split
    · rw [parent?_modifyNode_setChildren, hd₁]
    · rw [parent?_modifyNode_setChildren, parent?_modifyNode_ne, parent?_alloc,
        parent?_modifyNode_setChildren, hd₁]
      simp only [fst_alloc, size_modifyNode, hs]
      exact Nat.ne_of_gt hx
  · rfl

/-- Writing text content never gives a parent to a node of the arena that has none. -/
theorem parent?_setTextContent_of_none (text : String) (hx : x < d.nodes.size)
    (h : d.parent? x = none) : (d.setTextContent n text).parent? x = none := by
  unfold setTextContent
  rw [parent?_of_nodes (nodes_record _ _)]
  split
  · rw [parent?_modifyNode_setKind, h]
  · rename_i nd _ hget
    obtain ⟨hs, -, -⟩ := foldl_unparent_facts nd.children d
    have hd₁ := parent?_foldl_unparent (x := x) nd.children d
    rw [h, ite_self] at hd₁
    dsimp only
    split
    · rw [parent?_modifyNode_setChildren, hd₁]
    · rw [parent?_modifyNode_setChildren, parent?_modifyNode_ne, parent?_alloc,
        parent?_modifyNode_setChildren, hd₁]
      simp only [fst_alloc, size_modifyNode, hs]
      exact Nat.ne_of_gt hx
  · exact h

/-- Writing text content adds no child but, possibly, the new text node. -/
theorem mem_children_setTextContent (text : String) (h : x ∈ (d.setTextContent n text).children m) :
    x ∈ d.children m ∨ x = d.nodes.size := by
  unfold setTextContent at h
  rw [children_of_nodes (nodes_record _ _)] at h
  split at h
  · exact Or.inl (by rwa [children_modifyNode_setKind] at h)
  · rename_i nd _ hget
    obtain ⟨hs, hch, -⟩ := foldl_unparent_facts nd.children d
    dsimp only at h
    split at h
    · by_cases hm : n = m
      · subst hm
        exact absurd (mem_children_modifyNode_self h) List.not_mem_nil
      · rw [children_modifyNode_ne _ hm, hch] at h
        exact Or.inl h
    · by_cases hm : n = m
      · subst hm
        refine Or.inr ?_
        have hsub := mem_children_modifyNode_self h
        simpa [hs] using hsub
      · rw [children_modifyNode_ne _ hm, children_modifyNode_setParent, children_alloc,
          children_modifyNode_ne _ hm, hch] at h
        exact Or.inl h
  · exact Or.inl h

/-! ## Creating nodes and writing values -/

@[simp] theorem fst_createElement (d : Document) (tag : String) :
    (d.createElement tag).1 = d.nodes.size := rfl

@[simp] theorem size_createElement (d : Document) (tag : String) :
    (d.createElement tag).2.nodes.size = d.nodes.size + 1 := Array.size_push _

@[simp] theorem log_createElement (d : Document) (tag : String) :
    (d.createElement tag).2.log = d.log.push (.createElement d.nodes.size tag) := rfl

@[simp] theorem parent?_createElement (tag : String) :
    (d.createElement tag).2.parent? x = d.parent? x := parent?_alloc _

@[simp] theorem children_createElement (tag : String) :
    (d.createElement tag).2.children x = d.children x := children_alloc _

@[simp] theorem fst_createText (d : Document) (text : String) :
    (d.createText text).1 = d.nodes.size := rfl

@[simp] theorem size_createText (d : Document) (text : String) :
    (d.createText text).2.nodes.size = d.nodes.size + 1 := Array.size_push _

@[simp] theorem log_createText (d : Document) (text : String) :
    (d.createText text).2.log = d.log.push (.createText d.nodes.size text) := rfl

@[simp] theorem parent?_createText (text : String) :
    (d.createText text).2.parent? x = d.parent? x := parent?_alloc _

@[simp] theorem children_createText (text : String) :
    (d.createText text).2.children x = d.children x := children_alloc _

theorem write_facts {f} (op : DocOp) :
    ((d.modifyElement n f).record op).nodes.size = d.nodes.size ∧
    (∀ x, ((d.modifyElement n f).record op).parent? x = d.parent? x) ∧
    (∀ x, ((d.modifyElement n f).record op).children x = d.children x) ∧
    ((d.modifyElement n f).record op).log = d.log.push op :=
  ⟨size_modifyNode _ _ _, fun _ => parent?_modifyElement f, fun _ => children_modifyElement f, rfl⟩

@[simp] theorem nodes_addListener (d : Document) (c : NodeId) (event : String) :
    (d.addListener c event).nodes = d.nodes := by
  unfold addListener
  dsimp only
  split <;> rfl

@[simp] theorem log_addListener (d : Document) (c : NodeId) (event : String) :
    (d.addListener c event).log = d.log.push (.listen c event) := by
  unfold addListener
  dsimp only
  split <;> rfl

/-- `d'` is `d` with values of one node rewritten: the arena, every parent and every list of
children stay, and the log grows by one change that moves, attaches, removes and creates
nothing. -/
structure Rewrites (d d' : Document) : Prop where
  size : d'.nodes.size = d.nodes.size
  parent : ∀ x, d'.parent? x = d.parent? x
  children : ∀ x, d'.children x = d.children x
  log : ∃ op, d'.log = d.log.push op ∧ op.isMove = false ∧ (∀ p, op.insertsInto p = false) ∧
    op.removed? = none ∧ op.created? = none

theorem rewrites_write {f} {op : DocOp} (hm : op.isMove = false)
    (hi : ∀ p, op.insertsInto p = false) (hr : op.removed? = none) (hc : op.created? = none) :
    Rewrites d ((d.modifyElement n f).record op) :=
  have hw := write_facts (d := d) (n := n) (f := f) op
  ⟨hw.1, hw.2.1, hw.2.2.1, op, hw.2.2.2, hm, hi, hr, hc⟩

theorem rewrites_setAttribute (d : Document) (n : NodeId) (name value : String) :
    Rewrites d (d.setAttribute n name value) :=
  rewrites_write rfl (fun _ => rfl) rfl rfl

theorem rewrites_setClassName (d : Document) (n : NodeId) (value : String) :
    Rewrites d (d.setClassName n value) :=
  rewrites_write rfl (fun _ => rfl) rfl rfl

theorem rewrites_setStyle (d : Document) (n : NodeId) (value : String) :
    Rewrites d (d.setStyle n value) :=
  rewrites_write rfl (fun _ => rfl) rfl rfl

theorem rewrites_addListener (d : Document) (c : NodeId) (event : String) :
    Rewrites d (d.addListener c event) :=
  have hn := nodes_addListener d c event
  ⟨by rw [hn], fun _ => parent?_of_nodes hn, fun _ => children_of_nodes hn,
    _, log_addListener d c event, rfl, fun _ => rfl, rfl, rfl⟩

/-! ## Nodes anchored under a parent -/

theorem lt_size_of_mem_children (h : x ∈ d.children n) : n < d.nodes.size := by
  rcases Nat.lt_or_ge n d.nodes.size with hn | hn
  · exact hn
  · rw [children, get?, Array.getElem?_eq_none hn] at h
    exact absurd h List.not_mem_nil

/-- The nodes `K` hang under `p`, which is in the arena, and under no other node. -/
structure Anchored (p : NodeId) (K : List NodeId) (d : Document) : Prop where
  lt_size : p < d.nodes.size
  parent : ∀ x ∈ K, d.parent? x = some p
  only : ∀ x ∈ K, ∀ n, x ∈ d.children n → n = p

namespace Anchored

variable {p c q : NodeId} {K : List NodeId} {d' : Document}

theorem nil (h : p < d.nodes.size) : Anchored p [] d :=
  ⟨h, fun _ hx => absurd hx List.not_mem_nil, fun _ hx => absurd hx List.not_mem_nil⟩

theorem lt_size_of_mem (h : Anchored p K d) (hx : x ∈ K) : x < d.nodes.size :=
  lt_size_of_parent? (h.parent x hx)

/-- What keeps every parent, adds no child and keeps the arena keeps the anchoring. -/
theorem frame (h : Anchored p K d) (hs : d.nodes.size ≤ d'.nodes.size)
    (hp : ∀ x, d'.parent? x = d.parent? x) (hc : ∀ x n, x ∈ d'.children n → x ∈ d.children n) :
    Anchored p K d' :=
  ⟨Nat.lt_of_lt_of_le h.lt_size hs, fun x hx => (hp x).trans (h.parent x hx),
    fun x hx n hn => h.only x hx n (hc x n hn)⟩

theorem of_nodes (h : Anchored p K d) (hn : d'.nodes = d.nodes) : Anchored p K d' :=
  h.frame (Nat.le_of_eq (congrArg Array.size hn.symm)) (fun _ => parent?_of_nodes hn)
    (fun _ _ hx => by rwa [children_of_nodes hn] at hx)

theorem createElement (h : Anchored p K d) (tag : String) : Anchored p K (d.createElement tag).2 :=
  h.frame (by simp) (fun _ => parent?_createElement tag) (fun _ _ hx => by simpa using hx)

theorem createText (h : Anchored p K d) (text : String) : Anchored p K (d.createText text).2 :=
  h.frame (by simp) (fun _ => parent?_createText text) (fun _ _ hx => by simpa using hx)

/-- Attaching keeps the anchoring when a node of `K` goes under `p` again. -/
theorem attach (h : Anchored p K d) (b : Option NodeId) (hc : c < d.nodes.size)
    (hK : c ∈ K → q = p) : Anchored p K (d.attach q c b) where
  lt_size := by simpa using h.lt_size
  parent := by
    intro x hx
    rw [parent?_attach b hc]
    split
    · subst x
      rw [hK hx]
    · exact h.parent x hx
  only := by
    intro x hx n hn
    rcases mem_children_attach b hn with hn | ⟨rfl, rfl⟩
    · exact h.only x hx n hn
    · exact hK hx

theorem removeChild (h : Anchored p K d) (hc : c ∉ K) : Anchored p K (d.removeChild q c) where
  lt_size := by simpa using h.lt_size
  parent x hx := (parent?_removeChild fun hxc => hc (by rw [← hxc]; exact hx)).trans (h.parent x hx)
  only x hx n hn := h.only x hx n (mem_children_removeChild hn)

/-- Writing the text content of a node other than `p` keeps the anchoring: the children it
loses are not in `K`. -/
theorem setTextContent (h : Anchored p K d) (hn : n ≠ p) (text : String) :
    Anchored p K (d.setTextContent n text) where
  lt_size := Nat.lt_of_lt_of_le h.lt_size (size_le_setTextContent d n text)
  parent x hx := by
    rw [parent?_setTextContent text (h.lt_size_of_mem hx) (fun hxn => hn (h.only x hx n hxn))]
    exact h.parent x hx
  only x hx m hm := by
    rcases mem_children_setTextContent text hm with hm | rfl
    · exact h.only x hx m hm
    · exact absurd (h.lt_size_of_mem hx) (Nat.lt_irrefl _)

theorem rewrites (h : Anchored p K d) (hw : Rewrites d d') : Anchored p K d' :=
  h.frame (Nat.le_of_eq hw.size.symm) hw.parent (fun x n hx => by rwa [hw.children] at hx)

end Anchored

/-! ## What a run of changes logs -/

/-- From `d` to `d'` the log grows by changes of which `moves` move an attached node and
`inserts` attach a node that had no parent under `p`, none of them removing or creating a node of
`K`. -/
def Logs (p : NodeId) (K : List NodeId) (d d' : Document) (moves inserts : Nat) : Prop :=
  ∃ ops : List DocOp, d'.log.toList = d.log.toList ++ ops ∧
    ops.countP DocOp.isMove = moves ∧ ops.countP (DocOp.insertsInto p) = inserts ∧
    ∀ op ∈ ops, ∀ x ∈ K, op.removed? ≠ some x ∧ op.created? ≠ some x

namespace Logs

variable {p q c : NodeId} {K : List NodeId} {d₁ d₂ d₃ : Document} {m i m' i' : Nat}

theorem refl (p : NodeId) (K : List NodeId) (d : Document) : Logs p K d d 0 0 :=
  ⟨[], by simp, rfl, rfl, fun _ h => absurd h List.not_mem_nil⟩

theorem trans (h₁ : Logs p K d₁ d₂ m i) (h₂ : Logs p K d₂ d₃ m' i') :
    Logs p K d₁ d₃ (m + m') (i + i') := by
  obtain ⟨ops₁, hl₁, hm₁, hi₁, hk₁⟩ := h₁
  obtain ⟨ops₂, hl₂, hm₂, hi₂, hk₂⟩ := h₂
  refine ⟨ops₁ ++ ops₂, by rw [hl₂, hl₁, List.append_assoc], by simp [hm₁, hm₂],
    by simp [hi₁, hi₂], fun op hop => ?_⟩
  rcases List.mem_append.1 hop with hop | hop
  · exact hk₁ op hop
  · exact hk₂ op hop

/-- A single change that neither removes nor creates a node of `K`. -/
theorem push {op : DocOp} (hlog : d₂.log = d₁.log.push op)
    (hK : ∀ x ∈ K, op.removed? ≠ some x ∧ op.created? ≠ some x) :
    Logs p K d₁ d₂ op.isMove.toNat (op.insertsInto p).toNat := by
  refine ⟨[op], by rw [hlog, Array.toList_push], ?_, ?_, by simpa using hK⟩
  · cases h : op.isMove <;> simp [h]
  · cases h : op.insertsInto p <;> simp [h]

/-- A change that is no move, no insertion, no removal and no creation. -/
theorem quiet {op : DocOp} (hlog : d₂.log = d₁.log.push op) (hm : op.isMove = false)
    (hi : op.insertsInto p = false) (hr : op.removed? = none) (hc : op.created? = none) :
    Logs p K d₁ d₂ 0 0 := by
  have h := push (p := p) (K := K) hlog (by simp [hr, hc])
  rwa [hm, hi] at h

theorem setTextContent (n : NodeId) (text : String) :
    Logs p K d₁ (d₁.setTextContent n text) 0 0 :=
  quiet (log_setTextContent d₁ n text) rfl rfl rfl rfl

theorem rewrites (hw : Rewrites d₁ d₂) : Logs p K d₁ d₂ 0 0 := by
  obtain ⟨op, hlog, hm, hi, hr, hc⟩ := hw.log
  exact quiet hlog hm (hi p) hr hc

theorem removeChild (hc : c ∉ K) : Logs p K d₁ (d₁.removeChild q c) 0 0 := by
  have h := push (p := p) (K := K) (log_removeChild d₁ q c)
    (fun x hx => ⟨fun he => hc (by cases he; exact hx), by simp [DocOp.created?]⟩)
  simpa [DocOp.isMove, DocOp.insertsInto] using h

theorem createElement (hK : ∀ x ∈ K, x < d₁.nodes.size) (tag : String) :
    Logs p K d₁ (d₁.createElement tag).2 0 0 := by
  have h := push (p := p) (K := K) (log_createElement d₁ tag) fun x hx =>
    ⟨by simp [DocOp.removed?], by simpa [DocOp.created?] using Nat.ne_of_gt (hK x hx)⟩
  simpa [DocOp.isMove, DocOp.insertsInto] using h

theorem createText (hK : ∀ x ∈ K, x < d₁.nodes.size) (text : String) :
    Logs p K d₁ (d₁.createText text).2 0 0 := by
  have h := push (p := p) (K := K) (log_createText d₁ text) fun x hx =>
    ⟨by simp [DocOp.removed?], by simpa [DocOp.created?] using Nat.ne_of_gt (hK x hx)⟩
  simpa [DocOp.isMove, DocOp.insertsInto] using h

theorem attach_of_parent {o : NodeId} (hc : d₁.parent? c = some o) (b : Option NodeId) :
    Logs p K d₁ (d₁.attach q c b) 1 0 := by
  obtain ⟨op, hlog, hm, hi, hr, hcr⟩ := log_attach d₁ q c b
  have h := push (p := p) (K := K) hlog (by simp [hr, hcr])
  rwa [hm, hi, hc] at h

/-- Attaching a node without a parent logs an insertion, under `p` or elsewhere. -/
theorem attach_of_none (hc : d₁.parent? c = none) (b : Option NodeId) :
    Logs p K d₁ (d₁.attach q c b) 0 (if q = p then 1 else 0) := by
  obtain ⟨op, hlog, hm, hi, hr, hcr⟩ := log_attach d₁ q c b
  have h := push (p := p) (K := K) hlog (by simp [hr, hcr])
  rw [hm, hi, hc] at h
  by_cases hq : q = p
  · simpa [hq] using h
  · have hb : (q == p) = false := beq_false_of_ne hq
    simpa [hq, hb] using h

end Logs

end Document

end Canopy
