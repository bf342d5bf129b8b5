import Canopy.Proofs.Document.Links

/-!
# Where a change puts a parent's children

`spliceBefore cs anchor xs` is the list of children `cs` with `xs` put before `anchor`, or at the
end when `anchor` is not one of them: where the document's attach puts a node. Attaching a node
that has no parent splices it into its new parent's children and leaves every other list of
children as it is; removing a child from its parent filters it out of the parent's children.

So a run of insertions before one anchor that is none of the inserted nodes places them side by
side, in the order inserted (`spliceBefore_append`); and a run of nodes spliced in before the
node that followed a removed run takes exactly the place of that run (`spliceBefore_head?`).
-/

namespace Canopy

/-- The list `cs` with `xs` put before `anchor`, or at its end when `anchor` is not in `cs`. -/
def spliceBefore (cs : List NodeId) (anchor : Option NodeId) (xs : List NodeId) : List NodeId :=
  let i := (anchor.bind fun b => cs.idxOf? b).getD cs.length
  cs.take i ++ xs ++ cs.drop i

theorem List.insertIdx_eq_take_drop {α : Type} :
    ∀ (l : List α) (i : Nat) (c : α), i ≤ l.length → l.insertIdx i c = l.take i ++ c :: l.drop i
  | l, 0, c, _ => by simp
  | [], _ + 1, _, h => absurd h (by simp)
  | x :: l, i + 1, c, h => by
    rw [List.insertIdx_succ_cons, List.insertIdx_eq_take_drop l i c (by simpa using h)]
    simp

section Splice

variable {cs xs ys before after : List NodeId} {a : Option NodeId} {b : NodeId}

@[simp] theorem spliceBefore_nil_right (cs : List NodeId) (a : Option NodeId) :
    spliceBefore cs a [] = cs := by
  simp [spliceBefore]

theorem spliceBefore_of_not_mem (ha : ∀ b ∈ a, b ∉ cs) : spliceBefore cs a xs = cs ++ xs := by
  rcases a with _ | b
  · simp [spliceBefore]
  · have hnone : cs.idxOf? b = none := List.idxOf?_eq_none_iff.2 (ha b rfl)
    simp [spliceBefore, hnone]

theorem spliceBefore_of_idxOf? {i : Nat} (h : cs.idxOf? b = some i) :
    spliceBefore cs (some b) xs = cs.take i ++ xs ++ cs.drop i := by
  simp [spliceBefore, h]

/-- The spliced list holds the children and the nodes put in, and nothing else. -/
theorem mem_spliceBefore {y : NodeId} : y ∈ spliceBefore cs a xs ↔ y ∈ cs ∨ y ∈ xs := by
  unfold spliceBefore
  constructor
  · intro hy
    simp only [List.mem_append] at hy
    rcases hy with (hy | hy) | hy
    · exact Or.inl (List.mem_of_mem_take hy)
    · exact Or.inr hy
    · exact Or.inl (List.mem_of_mem_drop hy)
  · rintro (hy | hy)
    · rw [← List.take_append_drop ((a.bind fun b => cs.idxOf? b).getD cs.length) cs,
        List.mem_append] at hy
      simp only [List.mem_append]
      tauto
    · simp [hy]

theorem findIdx?_beq_eq_none (hb : b ∉ cs) : cs.findIdx? (fun x => x == b) = none :=
  List.idxOf?_eq_none_iff.2 hb

theorem idxOf?_append_cons (hb : b ∉ before) : (before ++ b :: after).idxOf? b = some before.length := by
  rw [List.idxOf?, List.findIdx?_append, findIdx?_beq_eq_none hb]
  simp [List.findIdx?_cons]

/-- Nodes spliced in one run after another before the same anchor stand in the order they came,
when the anchor is none of the first. -/
theorem spliceBefore_append (ha : ∀ b ∈ a, b ∉ xs) :
    spliceBefore (spliceBefore cs a xs) a ys = spliceBefore cs a (xs ++ ys) := by
  rcases a with _ | b
  · rw [spliceBefore_of_not_mem (by simp), spliceBefore_of_not_mem (by simp),
      spliceBefore_of_not_mem (by simp), List.append_assoc]
  · have hbx : b ∉ xs := ha b rfl
    cases hi : cs.idxOf? b with
    | none =>
      have hb : b ∉ cs := List.idxOf?_eq_none_iff.1 hi
      have hbcs : b ∉ cs ++ xs := by
        rw [List.mem_append]
        exact not_or.2 ⟨hb, hbx⟩
      rw [@spliceBefore_of_not_mem cs xs _ (by simpa using hb),
        @spliceBefore_of_not_mem (cs ++ xs) _ _ (by simpa using hbcs),
        spliceBefore_of_not_mem (by simpa using hb), List.append_assoc]
    | some i =>
      -- the anchor stands at `i` in `cs`, so at `i + |xs|` once `xs` is before it
      obtain ⟨hlt, hget, hfirst⟩ := List.idxOf?_eq_some_iff.1 hi
      have htake : (cs.take i).length = i := by simp only [List.length_take]; omega
      have hdrop : cs.drop i = b :: cs.drop (i + 1) := by
        rw [List.drop_eq_getElem_cons hlt, hget]
      have hb : b ∉ cs.take i ++ xs := by
        rw [List.mem_append, not_or]
        refine ⟨fun hmem => ?_, hbx⟩
        obtain ⟨j, hj, hjb⟩ := List.getElem_of_mem hmem
        rw [List.getElem_take] at hjb
        exact hfirst j (by simp at hj; omega) hjb
      have hi' : (cs.take i ++ xs ++ cs.drop i).idxOf? b = some (i + xs.length) := by
        rw [hdrop, idxOf?_append_cons hb, List.length_append, htake]
      have hlen : (cs.take i ++ xs).length = i + xs.length := by simp [htake]
      rw [spliceBefore_of_idxOf? hi, spliceBefore_of_idxOf? hi', spliceBefore_of_idxOf? hi,
        List.take_left' hlen, List.drop_left' hlen]
      simp

theorem spliceBefore_head? (hnd : (before ++ after).Nodup) :
    spliceBefore (before ++ after) after.head? xs = before ++ xs ++ after := by
  rcases after with _ | ⟨b, after⟩
  · simp [spliceBefore_of_not_mem]
  · have hb : b ∉ before := fun hmem => (List.nodup_append.1 hnd).2.2 b hmem b (by simp) rfl
    rw [List.head?_cons, spliceBefore_of_idxOf? (idxOf?_append_cons hb)]
    simp

end Splice

namespace Document

variable {d : Document} {p c x y n : NodeId} {before after : List NodeId}

theorem children_modifyNode_children_self {g : List NodeId → List NodeId} (hn : n < d.nodes.size) :
    (d.modifyNode n fun nd => { nd with children := g nd.children }).children n = g (d.children n) := by
  have hget : d.get? n = some d.nodes[n] := Array.getElem?_eq_getElem hn
  simp [children, get?_modifyNode, hget]

theorem children_modifyNode_filter_self (q : NodeId → Bool) :
    (d.modifyNode n fun nd => { nd with children := nd.children.filter q }).children n =
      (d.children n).filter q := by
  cases hget : d.get? n <;> simp [children, get?_modifyNode, hget]

/-- Attaching a node without a parent splices it into the new parent's children before the
reference node. -/
theorem children_attach_self (b : Option NodeId) (hc : d.parent? c = none) (hp : p < d.nodes.size) :
    (d.attach p c b).children p = spliceBefore (d.children p) b [c] := by
  have hdetach : d.detach c = d := by simp [detach, hc]
  -- the index the attach computes is the one of the splice, and it is within the children
  have hle : (b.bind fun b => (d.children p).idxOf? b).getD (d.children p).length ≤
      (d.children p).length := by
    cases hb : (b.bind fun b => (d.children p).idxOf? b) with
    | none => simp
    | some i =>
      obtain ⟨b', -, hi⟩ := Option.bind_eq_some_iff.1 hb
      exact Nat.le_of_lt (List.idxOf?_eq_some_iff.1 hi).1
  unfold attach
  simp only [hdetach]
  rw [children_of_nodes (nodes_record _ _), children_modifyNode_setParent,
    children_modifyNode_children_self (g := fun l => l.insertIdx
      ((b.bind fun b => (d.children p).idxOf? b).getD (d.children p).length) c) hp,
    List.insertIdx_eq_take_drop _ _ _ hle]
  simp [spliceBefore]

theorem children_attach_ne (b : Option NodeId) (hc : d.parent? c = none) (hy : y ≠ p) :
    (d.attach p c b).children y = d.children y := by
  have hdetach : d.detach c = d := by simp [detach, hc]
  simp only [attach, hdetach, children_of_nodes (nodes_record _ _), children_modifyNode_setParent]
  exact children_modifyNode_ne _ (Ne.symm hy)

theorem children_removeChild_self (h : d.parent? c = some p) :
    (d.removeChild p c).children p = (d.children p).filter (· != c) := by
  simp only [removeChild, h, if_true, children_of_nodes (nodes_record _ _), detach]
  rw [children_modifyNode_filter_self, children_modifyNode_setParent]

theorem children_removeChild_ne (hy : y ≠ p) : (d.removeChild p c).children y = d.children y := by
  simp only [removeChild, children_of_nodes (nodes_record _ _)]
  split
  · rename_i h
    simp only [detach, h]
    rw [children_modifyNode_ne _ (Ne.symm hy), children_modifyNode_setParent]
  · rfl

theorem parent?_removeChild_self (h : d.parent? c = some p) : (d.removeChild p c).parent? c = none := by
  simp only [removeChild, h, if_true, parent?_of_nodes (nodes_record _ _), parent?_detach]

/-- Writing the text content of a node leaves the children of every other node. -/
theorem children_setTextContent_ne (text : String) (hy : y ≠ n) :
    (d.setTextContent n text).children y = d.children y := by
  unfold setTextContent
  rw [children_of_nodes (nodes_record _ _)]
  split
  · exact children_modifyNode_setKind _
  · rename_i nd _ _
    obtain ⟨-, hch, -⟩ := foldl_unparent_facts nd.children d
    dsimp only
    split
    · rw [children_modifyNode_ne _ (Ne.symm hy), hch]
    · rw [children_modifyNode_ne _ (Ne.symm hy), children_modifyNode_setParent, children_alloc,
        children_modifyNode_ne _ (Ne.symm hy), hch]
  · rfl

/-- The node after a child, in a parent whose children are distinct. -/
theorem nextSibling?_eq (hpar : d.parent? x = some p) (hc : d.children p = before ++ x :: after)
    (hnd : (d.children p).Nodup) : d.nextSibling? x = after.head? := by
  have hx : x ∉ before := fun hmem => by
    rw [hc] at hnd
    exact (List.nodup_append.1 hnd).2.2 x hmem x (by simp) rfl
  have hi : (d.children p).idxOf? x = some before.length := by
    rw [hc, idxOf?_append_cons hx]
  simp only [nextSibling?, hpar, Option.bind_eq_bind, Option.bind_some, hi]
  rw [hc, List.getElem?_append_right (by omega)]
  cases after <;> simp

/-! ## What nodes are -/

theorem kind_modifyNode (f : NodeData → NodeData) (hf : ∀ nd, (f nd).kind = nd.kind) :
    ((d.modifyNode n f).get? x).map NodeData.kind = (d.get? x).map NodeData.kind := by
  rw [get?_modifyNode]
  split
  · cases d.get? x <;> simp [hf]
  · rfl

@[simp] theorem kind_modifyNode_setParent (o : Option NodeId) :
    ((d.modifyNode n fun nd => { nd with parent := o }).get? x).map NodeData.kind =
      (d.get? x).map NodeData.kind :=
  kind_modifyNode _ fun _ => rfl

@[simp] theorem kind_modifyNode_setChildren (g : NodeData → List NodeId) :
    ((d.modifyNode n fun nd => { nd with children := g nd }).get? x).map NodeData.kind =
      (d.get? x).map NodeData.kind :=
  kind_modifyNode _ fun _ => rfl

theorem kind_detach : ((d.detach c).get? x).map NodeData.kind = (d.get? x).map NodeData.kind := by
  unfold detach
  split
  · rfl
  · dsimp only
    rw [kind_modifyNode_setChildren, kind_modifyNode_setParent]

theorem kind_attach (b : Option NodeId) :
    ((d.attach p c b).get? x).map NodeData.kind = (d.get? x).map NodeData.kind := by
  unfold attach
  dsimp only
  change ((Document.modifyNode _ _ _).get? x).map NodeData.kind = _
  rw [kind_modifyNode_setParent, kind_modifyNode_setChildren, kind_detach]

theorem kind_createText_self (text : String) :
    (((d.createText text).2).get? d.nodes.size).map NodeData.kind = some (.text text) := by
  simp [createText, alloc, record, get?]

/-! ## Removing a run of children -/

theorem filter_ne_append_cons {x : NodeId} {before after : List NodeId} (hb : x ∉ before)
    (ha : x ∉ after) : (before ++ x :: after).filter (· != x) = before ++ after := by
  have hkeep : ∀ l : List NodeId, x ∉ l → l.filter (· != x) = l := fun l hl =>
    List.filter_eq_self.2 fun y hy => by
      simp only [bne_iff_ne, ne_eq]
      rintro rfl
      exact hl hy
  rw [List.filter_append, List.filter_cons_of_neg (by simp), hkeep _ hb, hkeep _ ha]

/-- Removing, one after another, a run of children that stand together among the children of
their parent closes the gap, leaves the removed nodes without a parent, and changes no other
node's parent or children. -/
theorem foldl_removeChild {xs : List NodeId} :
    ∀ {d : Document} {before after : List NodeId}, d.children p = before ++ xs ++ after →
      (d.children p).Nodup → (∀ x ∈ xs, d.parent? x = some p) →
      let d' := xs.foldl (fun d x => d.removeChild p x) d
      d'.children p = before ++ after ∧ (∀ x ∈ xs, d'.parent? x = none) ∧
        (∀ y, y ∉ xs → d'.parent? y = d.parent? y) ∧ (∀ q, q ≠ p → d'.children q = d.children q) ∧
        d'.nodes.size = d.nodes.size := by
  induction xs with
  | nil =>
    intro d before after hc _ _
    simp [hc]
  | cons x xs ih =>
    intro d before after hc hnd hpar
    -- the first node is taken out of its parent's children, and the rest still stand together
    have hx : d.parent? x = some p := hpar x (List.mem_cons_self ..)
    have hnd' := hnd
    rw [hc, List.append_assoc, List.cons_append] at hnd'
    have hxb : x ∉ before := fun hmem => (List.nodup_append.1 hnd').2.2 x hmem x (by simp) rfl
    have hxa : x ∉ xs ++ after := (List.nodup_cons.1 (List.nodup_append.1 hnd').2.1).1
    have hc₁ : (d.removeChild p x).children p = before ++ xs ++ after := by
      rw [children_removeChild_self hx, hc, List.append_assoc, List.cons_append,
        filter_ne_append_cons hxb hxa, List.append_assoc]
    have hnd₁ : ((d.removeChild p x).children p).Nodup := by
      rw [hc₁, List.append_assoc]
      exact List.nodup_append.2 ⟨(List.nodup_append.1 hnd').1,
        (List.nodup_cons.1 (List.nodup_append.1 hnd').2.1).2,
        fun a ha b hb => (List.nodup_append.1 hnd').2.2 a ha b (List.mem_cons_of_mem _ hb)⟩
    have hpar₁ : ∀ y ∈ xs, (d.removeChild p x).parent? y = some p := fun y hy => by
      have hyx : y ≠ x := fun hyx => hxa (hyx ▸ List.mem_append_left _ hy)
      rw [parent?_removeChild hyx]
      exact hpar y (List.mem_cons_of_mem _ hy)
    obtain ⟨hch, hnone, hpar', hother, hsize⟩ := ih hc₁ hnd₁ hpar₁
    simp only [List.foldl_cons]
    refine ⟨hch, fun y hy => ?_, fun y hy => ?_, fun q hq => ?_, ?_⟩
    · rcases List.mem_cons.1 hy with rfl | hy
      · have hxs : y ∉ xs := fun hmem => hxa (List.mem_append_left _ hmem)
        rw [hpar' y hxs]
        exact parent?_removeChild_self hx
      · exact hnone y hy
    · rw [hpar' y fun hmem => hy (List.mem_cons_of_mem _ hmem),
        parent?_removeChild fun hyx => hy (List.mem_cons.2 (Or.inl hyx))]
    · rw [hother q hq, children_removeChild_ne hq]
    · rw [hsize, size_removeChild]

/-! ## Grafting new nodes -/

/-- `d'` is `d` with the new nodes `xs` put under `P` before the anchor `a`, every other node of
`d` keeping its parent and its children, and every new node having only new children: what
mounting a program at a target does to a document. -/
structure Grafts (d : Document) (P : NodeId) (a : Option NodeId) (xs : List NodeId)
    (d' : Document) : Prop where
  parent_lt : P < d.nodes.size
  anchor_lt : ∀ b ∈ a, b < d.nodes.size
  size_le : d.nodes.size ≤ d'.nodes.size
  target : d'.children P = spliceBefore (d.children P) a xs
  new : ∀ x ∈ xs, d.nodes.size ≤ x
  parent_old : ∀ x < d.nodes.size, d'.parent? x = d.parent? x
  children_old : ∀ x < d.nodes.size, x ≠ P → d'.children x = d.children x
  children_new : ∀ x, d.nodes.size ≤ x → ∀ y ∈ d'.children x, d.nodes.size ≤ y

namespace Grafts

variable {d₀ d₁ d₂ : Document} {P q : NodeId} {a b : Option NodeId} {xs ys : List NodeId}

theorem refl (hP : P < d.nodes.size) (ha : ∀ b ∈ a, b < d.nodes.size) : Grafts d P a [] d where
  parent_lt := hP
  anchor_lt := ha
  size_le := Nat.le_refl _
  target := (spliceBefore_nil_right _ _).symm
  new _ hx := absurd hx List.not_mem_nil
  parent_old _ _ := rfl
  children_old _ _ _ := rfl
  children_new x hx y hy := by
    rw [children, get?, Array.getElem?_eq_none hx] at hy
    exact absurd hy List.not_mem_nil

theorem parent_lt_size (h : Grafts d₀ P a xs d₁) : P < d₁.nodes.size :=
  Nat.lt_of_lt_of_le h.parent_lt h.size_le

theorem anchor_lt_size (h : Grafts d₀ P a xs d₁) : ∀ b ∈ a, b < d₁.nodes.size :=
  fun b hb => Nat.lt_of_lt_of_le (h.anchor_lt b hb) h.size_le

theorem anchor_not_mem (h : Grafts d₀ P a xs d₁) : ∀ b ∈ a, b ∉ xs :=
  fun b hb hbx => Nat.lt_irrefl _ (Nat.lt_of_lt_of_le (h.anchor_lt b hb) (h.new b hbx))

/-- More nodes grafted at the same place follow the first ones. -/
theorem trans (h₁ : Grafts d₀ P a xs d₁) (h₂ : Grafts d₁ P a ys d₂) :
    Grafts d₀ P a (xs ++ ys) d₂ where
  parent_lt := h₁.parent_lt
  anchor_lt := h₁.anchor_lt
  size_le := Nat.le_trans h₁.size_le h₂.size_le
  target := by rw [h₂.target, h₁.target, spliceBefore_append h₁.anchor_not_mem]
  new x hx := by
    rcases List.mem_append.1 hx with hx | hx
    · exact h₁.new x hx
    · exact Nat.le_trans h₁.size_le (h₂.new x hx)
  parent_old x hx := by
    rw [h₂.parent_old x (Nat.lt_of_lt_of_le hx h₁.size_le), h₁.parent_old x hx]
  children_old x hx hxP := by
    rw [h₂.children_old x (Nat.lt_of_lt_of_le hx h₁.size_le) hxP, h₁.children_old x hx hxP]
  children_new x hx y hy := by
    by_cases hx₁ : x < d₁.nodes.size
    · have hxP : x ≠ P := Nat.ne_of_gt (Nat.lt_of_lt_of_le h₁.parent_lt hx)
      rw [h₂.children_old x hx₁ hxP] at hy
      exact h₁.children_new x hx y hy
    · exact Nat.le_trans h₁.size_le (h₂.children_new x (Nat.le_of_not_lt hx₁) y hy)

/-- Nodes grafted under a new node leave the nodes grafted under `P` as they are. -/
theorem trans_inner (h₁ : Grafts d₀ P a xs d₁) (hq : d₀.nodes.size ≤ q) (h₂ : Grafts d₁ q b ys d₂) :
    Grafts d₀ P a xs d₂ where
  parent_lt := h₁.parent_lt
  anchor_lt := h₁.anchor_lt
  size_le := Nat.le_trans h₁.size_le h₂.size_le
  target := by
    have hPq : P ≠ q := Nat.ne_of_lt (Nat.lt_of_lt_of_le h₁.parent_lt hq)
    rw [h₂.children_old P (Nat.lt_of_lt_of_le h₁.parent_lt h₁.size_le) hPq, h₁.target]
  new := h₁.new
  parent_old x hx := by
    rw [h₂.parent_old x (Nat.lt_of_lt_of_le hx h₁.size_le), h₁.parent_old x hx]
  children_old x hx hxP := by
    have hxq : x ≠ q := Nat.ne_of_lt (Nat.lt_of_lt_of_le hx hq)
    rw [h₂.children_old x (Nat.lt_of_lt_of_le hx h₁.size_le) hxq, h₁.children_old x hx hxP]
  children_new x hx y hy := by
    by_cases hx₁ : x < d₁.nodes.size
    · by_cases hxq : x = q
      · -- under `q` stand its children of before and the new nodes
        subst hxq
        rw [h₂.target] at hy
        rcases mem_spliceBefore.1 hy with hy | hy
        · exact h₁.children_new x hx y hy
        · exact Nat.le_trans h₁.size_le (h₂.new y hy)
      · rw [h₂.children_old x hx₁ hxq] at hy
        exact h₁.children_new x hx y hy
    · exact Nat.le_trans h₁.size_le (h₂.children_new x (Nat.le_of_not_lt hx₁) y hy)

/-- Rewriting values keeps a graft. -/
theorem rewrites (h : Grafts d₀ P a xs d₁) (hw : Rewrites d₁ d₂) : Grafts d₀ P a xs d₂ where
  parent_lt := h.parent_lt
  anchor_lt := h.anchor_lt
  size_le := hw.size ▸ h.size_le
  target := by rw [hw.children, h.target]
  new := h.new
  parent_old x hx := by rw [hw.parent, h.parent_old x hx]
  children_old x hx hxP := by rw [hw.children, h.children_old x hx hxP]
  children_new x hx y hy := h.children_new x hx y (by rwa [hw.children] at hy)

theorem of_nodes (h : Grafts d₀ P a xs d₁) (hn : d₂.nodes = d₁.nodes) : Grafts d₀ P a xs d₂ where
  parent_lt := h.parent_lt
  anchor_lt := h.anchor_lt
  size_le := hn ▸ h.size_le
  target := by rw [children_of_nodes hn, h.target]
  new := h.new
  parent_old x hx := by rw [parent?_of_nodes hn, h.parent_old x hx]
  children_old x hx hxP := by rw [children_of_nodes hn, h.children_old x hx hxP]
  children_new x hx y hy := h.children_new x hx y (by rwa [children_of_nodes hn] at hy)

/-- A new node is created without a parent or children. -/
theorem alloc (h : Grafts d₀ P a xs d₁) (k : NodeKind) : Grafts d₀ P a xs (d₁.alloc k).2 where
  parent_lt := h.parent_lt
  anchor_lt := h.anchor_lt
  size_le := by simpa using Nat.le_succ_of_le h.size_le
  target := by rw [children_alloc, h.target]
  new := h.new
  parent_old x hx := by rw [parent?_alloc, h.parent_old x hx]
  children_old x hx hxP := by rw [children_alloc, h.children_old x hx hxP]
  children_new x hx y hy := h.children_new x hx y (by rwa [children_alloc] at hy)

theorem createElement (h : Grafts d₀ P a xs d₁) (tag : String) :
    Grafts d₀ P a xs (d₁.createElement tag).2 :=
  (h.alloc _).of_nodes (nodes_record _ _)

theorem createText (h : Grafts d₀ P a xs d₁) (text : String) :
    Grafts d₀ P a xs (d₁.createText text).2 :=
  (h.alloc _).of_nodes (nodes_record _ _)

/-- Writing the text content of a new node keeps a graft: its children are new, so no node of
`d₀` loses its parent. -/
theorem setTextContent (h : Grafts d₀ P a xs d₁) {e : NodeId} (he : d₀.nodes.size ≤ e)
    (text : String) : Grafts d₀ P a xs (d₁.setTextContent e text) where
  parent_lt := h.parent_lt
  anchor_lt := h.anchor_lt
  size_le := Nat.le_trans h.size_le (size_le_setTextContent _ _ _)
  target := by
    rw [children_setTextContent_ne _ (Nat.ne_of_lt (Nat.lt_of_lt_of_le h.parent_lt he)), h.target]
  new := h.new
  parent_old x hx := by
    have hxe : x ∉ d₁.children e := fun hmem => Nat.lt_irrefl _
      (Nat.lt_of_lt_of_le hx (h.children_new e he x hmem))
    rw [parent?_setTextContent text (Nat.lt_of_lt_of_le hx h.size_le) hxe, h.parent_old x hx]
  children_old x hx hxP := by
    rw [children_setTextContent_ne _ (Nat.ne_of_lt (Nat.lt_of_lt_of_le hx he)),
      h.children_old x hx hxP]
  children_new x hx y hy := by
    rcases mem_children_setTextContent text hy with hy | rfl
    · exact h.children_new x hx y hy
    · exact h.size_le

/-- Attaching a new node without a parent under a new node keeps a graft. -/
theorem attach_inner (h : Grafts d₀ P a xs d₁) (hq : d₀.nodes.size ≤ q) {c : NodeId}
    (hc : d₀.nodes.size ≤ c) (hcs : c < d₁.nodes.size) (hpc : d₁.parent? c = none)
    (b : Option NodeId) : Grafts d₀ P a xs (d₁.attach q c b) where
  parent_lt := h.parent_lt
  anchor_lt := h.anchor_lt
  size_le := by simpa using h.size_le
  target := by
    rw [children_attach_ne b hpc (Nat.ne_of_lt (Nat.lt_of_lt_of_le h.parent_lt hq)), h.target]
  new := h.new
  parent_old x hx := by
    rw [parent?_attach b hcs, if_neg (Nat.ne_of_lt (Nat.lt_of_lt_of_le hx hc)), h.parent_old x hx]
  children_old x hx hxP := by
    rw [children_attach_ne b hpc (Nat.ne_of_lt (Nat.lt_of_lt_of_le hx hq)), h.children_old x hx hxP]
  children_new x hx y hy := by
    rcases mem_children_attach b hy with hy | ⟨rfl, -⟩
    · exact h.children_new x hx y hy
    · exact hc

/-- Attaching a new node without a parent under `P` before the anchor grafts it after the
others. -/
theorem attach_target (h : Grafts d₀ P a xs d₁) {c : NodeId} (hc : d₀.nodes.size ≤ c)
    (hcs : c < d₁.nodes.size) (hpc : d₁.parent? c = none) :
    Grafts d₀ P a (xs ++ [c]) (d₁.attach P c a) where
  parent_lt := h.parent_lt
  anchor_lt := h.anchor_lt
  size_le := by simpa using h.size_le
  target := by
    rw [children_attach_self a hpc (Nat.lt_of_lt_of_le h.parent_lt h.size_le), h.target,
      spliceBefore_append h.anchor_not_mem]
  new x hx := by
    rcases List.mem_append.1 hx with hx | hx
    · exact h.new x hx
    · rw [List.mem_singleton.1 hx]
      exact hc
  parent_old x hx := by
    rw [parent?_attach a hcs, if_neg (Nat.ne_of_lt (Nat.lt_of_lt_of_le hx hc)), h.parent_old x hx]
  children_old x hx hxP := by rw [children_attach_ne a hpc hxP, h.children_old x hx hxP]
  children_new x hx y hy := by
    rw [children_attach_ne a hpc (Nat.ne_of_gt (Nat.lt_of_lt_of_le h.parent_lt hx))] at hy
    exact h.children_new x hx y hy

end Grafts

end Document

end Canopy
