import Canopy.Proofs.Document.Splice
import Canopy.Document.Html
import Mathlib.Data.List.Nodup

/-!
# The document is a forest

A document is `Linked` when its two records of the tree agree: a node is among the children of a
node exactly when that node is its parent, and no node is a child twice. Every change the host
interface offers keeps this, as long as the nodes it is given are in the arena (`HostCall`,
`Linked.applyAll`); attaching a node under itself or under one of its descendants keeps it too,
so links alone do not make a tree.

A document is `Ordered` when every node's parent is older than the node. An ordered document has
no cycle of parents, every walk down from a node ends within as many levels as the arena has
nodes, and so the walks that read a document back (its HTML text, its text content and the
search by tag) never run out of their fuel (`Forest.htmlWith_eq_toHtml` and the like). Creating,
removing and writing keep the order; an attach keeps it when the new parent is older than the
node.
-/

namespace Canopy

namespace Document

variable {d : Document} {p c q x y n : Nat}

/-- The parent and children records agree, and no node is a child twice. -/
structure Linked (d : Document) : Prop where
  mem_children : ∀ p c, c ∈ d.children p ↔ d.parent? c = some p
  nodup : ∀ p, (d.children p).Nodup

/-- Every node's parent was created before it. -/
def Ordered (d : Document) : Prop :=
  ∀ c p : Nat, d.parent? c = some p → p < c

/-- A linked and ordered document: a forest whose every node is younger than its parent. -/
structure Forest (d : Document) : Prop extends d.Linked where
  ordered : d.Ordered

/-! ## Detaching and attaching, exactly -/

theorem detach_of_parent?_eq_none (h : d.parent? c = none) : d.detach c = d := by
  simp [detach, h]

theorem children_detach (hc : d.parent? c = some q) :
    (d.detach c).children x = if x = q then (d.children q).filter (· != c) else d.children x := by
  simp only [detach, hc]
  split
  · subst x
    rw [children_modifyNode_filter_self, children_modifyNode_setParent]
  · rw [children_modifyNode_ne _ (Ne.symm ‹_›), children_modifyNode_setParent]

/-- Detaching a node changes no other node's membership in a list of children. -/
theorem mem_children_detach_iff (hy : y ≠ c) :
    y ∈ (d.detach c).children x ↔ y ∈ d.children x := by
  cases hc : d.parent? c with
  | none => rw [detach_of_parent?_eq_none hc]
  | some q =>
    rw [children_detach hc]
    split
    · subst x
      simp [hy]
    · rfl

theorem nodes_attach_detach (b : Option NodeId) :
    (d.attach p c b).nodes = ((d.detach c).attach p c b).nodes := by
  have hnone : (d.detach c).parent? c = none := by rw [parent?_detach, if_pos rfl]
  simp only [attach, nodes_record, detach_of_parent?_eq_none hnone]

theorem spliceBefore_perm (cs : List NodeId) (a : Option NodeId) (xs : List NodeId) :
    (spliceBefore cs a xs).Perm (cs ++ xs) := by
  unfold spliceBefore
  dsimp only
  rw [List.append_assoc]
  refine (List.perm_append_comm.append_left _).trans ?_
  rw [← List.append_assoc, List.take_append_drop]

theorem children_modifyNode_nil_self :
    (d.modifyNode n fun nd => { nd with children := [] }).children n = [] := by
  by_contra hne
  obtain ⟨z, hz⟩ := List.exists_mem_of_ne_nil _ hne
  exact absurd (mem_children_modifyNode_self hz) List.not_mem_nil

/-! ## Links -/

namespace Linked

theorem lt_size_of_mem (h : d.Linked) (hc : c ∈ d.children p) : c < d.nodes.size :=
  lt_size_of_parent? ((h.mem_children p c).1 hc)

theorem not_mem_of_size_le (h : d.Linked) (hc : d.nodes.size ≤ c) : c ∉ d.children p :=
  fun hmem => Nat.not_le_of_gt (h.lt_size_of_mem hmem) hc

/-- The empty document. -/
theorem empty : (default : Document).Linked where
  mem_children p c := by simp [children, parent?, get?, show (default : Document).nodes = #[] from rfl]
  nodup p := by simp [children, get?, show (default : Document).nodes = #[] from rfl]

theorem of_nodes {d' : Document} (h : d.Linked) (hn : d'.nodes = d.nodes) : d'.Linked where
  mem_children p c := by rw [children_of_nodes hn, parent?_of_nodes hn]; exact h.mem_children p c
  nodup p := by rw [children_of_nodes hn]; exact h.nodup p

theorem of_eq {d' : Document} (h : d.Linked) (hp : ∀ x, d'.parent? x = d.parent? x)
    (hc : ∀ x, d'.children x = d.children x) : d'.Linked where
  mem_children p c := by rw [hc, hp]; exact h.mem_children p c
  nodup p := by rw [hc]; exact h.nodup p

theorem record (h : d.Linked) (op : DocOp) : (d.record op).Linked :=
  h.of_nodes (nodes_record d op)

/-- A new node has no parent and no children, and is nobody's child. -/
theorem alloc (h : d.Linked) (k : NodeKind) : (d.alloc k).2.Linked :=
  h.of_eq (fun _ => parent?_alloc k) fun _ => children_alloc k

theorem detach (h : d.Linked) (c : NodeId) : (d.detach c).Linked := by
  cases hc : d.parent? c with
  | none => rwa [detach_of_parent?_eq_none hc]
  | some q =>
    refine ⟨fun x y => ?_, fun x => ?_⟩
    · rw [children_detach hc, parent?_detach]
      by_cases hy : y = c
      · subst y
        simp only [if_true, reduceCtorEq, iff_false]
        split
        · simp
        · rw [h.mem_children, hc]
          exact fun hqx => ‹¬x = q› (Option.some.inj hqx).symm
      · rw [if_neg hy, ← h.mem_children]
        split
        · subst x
          simp [hy]
        · rfl
    · rw [children_detach hc]
      split
      · exact (h.nodup q).filter _
      · exact h.nodup x

/-- Attaching a node of the arena under a node of the arena. -/
theorem attach (h : d.Linked) (b : Option NodeId) (hp : p < d.nodes.size)
    (hc : c < d.nodes.size) : (d.attach p c b).Linked := by
  have h₁ := h.detach c
  have hnone : (d.detach c).parent? c = none := by rw [parent?_detach, if_pos rfl]
  -- the detached node is in no list of children, so it is spliced in once, under `p`
  have hout : ∀ x, c ∉ (d.detach c).children x := fun x hmem =>
    absurd ((h₁.mem_children x c).1 hmem) (by simp [hnone])
  have hchildren : ∀ x, (d.attach p c b).children x =
      if x = p then spliceBefore ((d.detach c).children p) b [c] else (d.detach c).children x := by
    intro x
    rw [children_of_nodes (nodes_attach_detach b)]
    split
    · subst x
      exact children_attach_self b hnone (by simpa using hp)
    · exact children_attach_ne b hnone ‹_›
  refine ⟨fun x y => ?_, fun x => ?_⟩
  · rw [hchildren, parent?_attach b hc]
    by_cases hy : y = c
    · subst y
      simp only [if_true, Option.some.injEq]
      split
      · subst x
        simp [mem_spliceBefore]
      · exact iff_of_false (hout x) (Ne.symm ‹_›)
    · rw [if_neg hy, ← h.mem_children, ← mem_children_detach_iff hy]
      split
      · subst x
        simp [mem_spliceBefore, hy]
      · rfl
  · rw [hchildren]
    split
    · subst x
      refine (spliceBefore_perm _ _ _).nodup_iff.2 ?_
      exact List.nodup_append.2 ⟨h₁.nodup p, List.nodup_singleton c, fun a ha b hb => by
        rw [List.mem_singleton] at hb
        subst hb
        exact fun hac => hout p (hac ▸ ha)⟩
    · exact h₁.nodup x

theorem removeChild (h : d.Linked) (p c : NodeId) : (d.removeChild p c).Linked := by
  unfold Document.removeChild
  split
  · exact (h.detach c).record _
  · exact h.record _

theorem modifyElement (h : d.Linked) (n : NodeId) (f) : (d.modifyElement n f).Linked :=
  h.of_eq (fun _ => parent?_modifyElement f) fun _ => children_modifyElement f

/-- Unparenting the children of a node and clearing its list of children keeps the links. -/
theorem clearChildren (h : d.Linked) (n : NodeId) :
    (((d.children n).foldl (fun (d : Document) c => d.modifyNode c fun cd =>
      { cd with parent := none }) d).modifyNode n fun nd => { nd with children := [] }).Linked := by
  set cs := d.children n
  obtain ⟨-, hch, -⟩ := foldl_unparent_facts cs d
  refine ⟨fun x y => ?_, fun x => ?_⟩
  · rw [parent?_modifyNode_setChildren, parent?_foldl_unparent]
    by_cases hx : x = n
    · subst x
      -- the node has no child left, and none of its old children names it as parent
      rw [children_modifyNode_nil_self]
      refine iff_of_false List.not_mem_nil ?_
      split
      · exact nofun
      · rw [← h.mem_children]
        exact ‹y ∉ cs›
    · rw [children_modifyNode_ne _ (Ne.symm hx), hch]
      split
      · refine iff_of_false (fun hyx => ?_) nofun
        have hyn := (h.mem_children n y).1 ‹y ∈ cs›
        rw [(h.mem_children x y).1 hyx, Option.some.injEq] at hyn
        exact hx hyn
      · exact h.mem_children x y
  · by_cases hx : x = n
    · subst x
      rw [children_modifyNode_nil_self]
      exact List.nodup_nil
    · rw [children_modifyNode_ne _ (Ne.symm hx), hch]
      exact h.nodup x

/-- Writing text content: a text node takes the text; an element loses its children and, for a
non-empty text, gets a new text node as its only child. -/
theorem setTextContent (h : d.Linked) (n : NodeId) (text : String) :
    (d.setTextContent n text).Linked := by
  unfold Document.setTextContent
  refine Linked.record ?_ _
  split
  · exact h.of_eq (fun _ => parent?_modifyNode_setKind _) fun _ => children_modifyNode_setKind _
  · rename_i nd _ hget
    have hcs : nd.children = d.children n := by simp [children, hget]
    have hn : n < d.nodes.size := lt_size_of_get? hget
    have h₂ := h.clearChildren n
    rw [← hcs] at h₂
    obtain ⟨hs, -, -⟩ := foldl_unparent_facts nd.children d
    dsimp only
    split
    · exact h₂
    · -- the new text node is linked as an attach of a node without a parent would link it
      set d₂ := (nd.children.foldl (fun (d : Document) c => d.modifyNode c fun cd =>
        { cd with parent := none }) d).modifyNode n fun nd => { nd with children := [] }
      have hs₂ : d₂.nodes.size = d.nodes.size := by simp [d₂, hs]
      set d₃ := (d₂.alloc (.text text)).2
      have hn₃ : n < d₃.nodes.size := by
        rw [size_alloc, hs₂]
        exact Nat.lt_succ_of_lt hn
      have ht₃ : d₂.nodes.size < d₃.nodes.size := by simp [d₃]
      have hnone : d₃.parent? d₂.nodes.size = none := by
        rw [parent?_alloc]
        exact parent?_eq_none_of_size_le (Nat.le_refl _)
      have h₃ := (h₂.alloc (.text text)).attach none hn₃ ht₃
      simp only [fst_alloc]
      refine h₃.of_eq (fun x => ?_) fun x => ?_
      · rw [parent?_modifyNode_setChildren, parent?_modifyNode_setParent _ ht₃,
          parent?_attach none ht₃]
      · by_cases hx : x = n
        · subst x
          rw [children_attach_self none hnone hn₃, children_alloc, children_modifyNode_nil_self]
          have hsize : n < (d₃.modifyNode d₂.nodes.size fun td =>
              { td with parent := some n }).nodes.size := by simpa using hn₃
          rw [children_modifyNode_children_self (g := fun _ => [d₂.nodes.size]) hsize]
          rfl
        · rw [children_attach_ne none hnone hx, children_modifyNode_ne _ (Ne.symm hx),
            children_modifyNode_setParent]
  · exact h

theorem createContainer (h : d.Linked) (tag : String) : (d.createContainer tag).2.Linked :=
  h.alloc _

theorem createElement (h : d.Linked) (tag : String) : (d.createElement tag).2.Linked :=
  (h.alloc _).record _

theorem createText (h : d.Linked) (text : String) : (d.createText text).2.Linked :=
  (h.alloc _).record _

theorem setAttribute (h : d.Linked) (n : NodeId) (name value : String) :
    (d.setAttribute n name value).Linked :=
  (h.modifyElement n _).record _

theorem setClassName (h : d.Linked) (n : NodeId) (value : String) :
    (d.setClassName n value).Linked :=
  (h.modifyElement n _).record _

theorem setStyle (h : d.Linked) (n : NodeId) (value : String) : (d.setStyle n value).Linked :=
  (h.modifyElement n _).record _

theorem addListener (h : d.Linked) (c : NodeId) (event : String) :
    (d.addListener c event).Linked := by
  refine h.of_nodes ?_
  unfold Document.addListener
  dsimp only
  split <;> rfl

theorem removeListener (h : d.Linked) (c : NodeId) (event : String) :
    (d.removeListener c event).Linked := by
  refine h.of_nodes ?_
  unfold Document.removeListener
  dsimp only
  split <;> rfl

theorem count_eq_one (h : d.Linked) (hc : c ∈ d.children p) : (d.children p).count c = 1 :=
  List.count_eq_one_of_mem (h.nodup p) hc

end Linked

/-! ## Order -/

namespace Ordered

theorem of_parent? {d' : Document} (h : d.Ordered) (hp : ∀ x, d'.parent? x = d.parent? x) :
    d'.Ordered :=
  fun c p hc => h c p (hp c ▸ hc)

theorem record (h : d.Ordered) (op : DocOp) : (d.record op).Ordered :=
  h.of_parent? fun _ => parent?_of_nodes (nodes_record d op)

theorem alloc (h : d.Ordered) (k : NodeKind) : (d.alloc k).2.Ordered :=
  h.of_parent? fun _ => parent?_alloc k

theorem detach (h : d.Ordered) (c : NodeId) : (d.detach c).Ordered := by
  intro x q hx
  rw [parent?_detach] at hx
  split at hx
  · cases hx
  · exact h x q hx

/-- Attaching a node of the arena under an older node. -/
theorem attach (h : d.Ordered) (b : Option NodeId) (hc : c < d.nodes.size) (hpc : p < c) :
    (d.attach p c b).Ordered := by
  intro x q hx
  rw [parent?_attach b hc] at hx
  split at hx
  · subst x
    cases hx
    exact hpc
  · exact h x q hx

theorem removeChild (h : d.Ordered) (p c : NodeId) : (d.removeChild p c).Ordered := by
  unfold Document.removeChild
  split
  · exact (h.detach c).record _
  · exact h.record _

theorem modifyElement (h : d.Ordered) (n : NodeId) (f) : (d.modifyElement n f).Ordered :=
  h.of_parent? fun _ => parent?_modifyElement f

/-- Writing text content unparents the old children and hangs the new text node, the youngest,
under the element. -/
theorem setTextContent (h : d.Ordered) (n : NodeId) (text : String) :
    (d.setTextContent n text).Ordered := by
  unfold Document.setTextContent
  refine Ordered.record ?_ _
  split
  · exact h.of_parent? fun _ => parent?_modifyNode_setKind _
  · rename_i nd _ hget
    have hn : n < d.nodes.size := lt_size_of_get? hget
    obtain ⟨hs, -, -⟩ := foldl_unparent_facts nd.children d
    -- the old children lose their parent; every other node keeps its own
    have h₂ : ((nd.children.foldl (fun (d : Document) c => d.modifyNode c fun cd =>
        { cd with parent := none }) d).modifyNode n fun nd => { nd with children := [] }).Ordered := by
      intro x q hx
      rw [parent?_modifyNode_setChildren, parent?_foldl_unparent] at hx
      split at hx
      · cases hx
      · exact h x q hx
    dsimp only
    split
    · exact h₂
    · simp only [fst_alloc]
      intro x q hx
      rw [parent?_modifyNode_setChildren, parent?_modifyNode_setParent _ (by simp)] at hx
      split at hx
      · subst x
        cases hx
        simpa [hs] using hn
      · rw [parent?_alloc] at hx
        exact h₂ x q hx
  · exact h

theorem createContainer (h : d.Ordered) (tag : String) : (d.createContainer tag).2.Ordered :=
  h.alloc _

theorem createElement (h : d.Ordered) (tag : String) : (d.createElement tag).2.Ordered :=
  (h.alloc _).record _

theorem createText (h : d.Ordered) (text : String) : (d.createText text).2.Ordered :=
  (h.alloc _).record _

theorem setAttribute (h : d.Ordered) (n : NodeId) (name value : String) :
    (d.setAttribute n name value).Ordered :=
  (h.modifyElement n _).record _

theorem setClassName (h : d.Ordered) (n : NodeId) (value : String) :
    (d.setClassName n value).Ordered :=
  (h.modifyElement n _).record _

theorem setStyle (h : d.Ordered) (n : NodeId) (value : String) : (d.setStyle n value).Ordered :=
  (h.modifyElement n _).record _

theorem addListener (h : d.Ordered) (c : NodeId) (event : String) :
    (d.addListener c event).Ordered :=
  h.of_parent? fun _ => parent?_of_nodes (by unfold Document.addListener; dsimp only; split <;> rfl)

theorem removeListener (h : d.Ordered) (c : NodeId) (event : String) :
    (d.removeListener c event).Ordered :=
  h.of_parent? fun _ => parent?_of_nodes (by unfold Document.removeListener; dsimp only; split <;> rfl)

end Ordered

/-! ## Forests -/

namespace Forest

theorem empty : (default : Document).Forest where
  toLinked := Linked.empty
  ordered c p hc := by
    simp [parent?, get?, show (default : Document).nodes = #[] from rfl] at hc

theorem attach (h : d.Forest) (b : Option NodeId) (hc : c < d.nodes.size) (hpc : p < c) :
    (d.attach p c b).Forest :=
  ⟨h.toLinked.attach b (Nat.lt_trans hpc hc) hc, h.ordered.attach b hc hpc⟩

theorem removeChild (h : d.Forest) (p c : NodeId) : (d.removeChild p c).Forest :=
  ⟨h.toLinked.removeChild p c, h.ordered.removeChild p c⟩

theorem setTextContent (h : d.Forest) (n : NodeId) (text : String) :
    (d.setTextContent n text).Forest :=
  ⟨h.toLinked.setTextContent n text, h.ordered.setTextContent n text⟩

theorem createContainer (h : d.Forest) (tag : String) : (d.createContainer tag).2.Forest :=
  ⟨h.toLinked.createContainer tag, h.ordered.createContainer tag⟩

theorem createElement (h : d.Forest) (tag : String) : (d.createElement tag).2.Forest :=
  ⟨h.toLinked.createElement tag, h.ordered.createElement tag⟩

theorem createText (h : d.Forest) (text : String) : (d.createText text).2.Forest :=
  ⟨h.toLinked.createText text, h.ordered.createText text⟩

theorem setAttribute (h : d.Forest) (n : NodeId) (name value : String) :
    (d.setAttribute n name value).Forest :=
  ⟨h.toLinked.setAttribute n name value, h.ordered.setAttribute n name value⟩

theorem setClassName (h : d.Forest) (n : NodeId) (value : String) :
    (d.setClassName n value).Forest :=
  ⟨h.toLinked.setClassName n value, h.ordered.setClassName n value⟩

theorem setStyle (h : d.Forest) (n : NodeId) (value : String) : (d.setStyle n value).Forest :=
  ⟨h.toLinked.setStyle n value, h.ordered.setStyle n value⟩

theorem addListener (h : d.Forest) (c : NodeId) (event : String) :
    (d.addListener c event).Forest :=
  ⟨h.toLinked.addListener c event, h.ordered.addListener c event⟩

theorem removeListener (h : d.Forest) (c : NodeId) (event : String) :
    (d.removeListener c event).Forest :=
  ⟨h.toLinked.removeListener c event, h.ordered.removeListener c event⟩

theorem lt_of_mem_children (h : d.Forest) (hc : c ∈ d.children p) : p < c :=
  h.ordered c p ((h.mem_children p c).1 hc)

theorem wellFounded_parent (h : d.Forest) : WellFounded fun p c => d.parent? c = some p :=
  Subrelation.wf (fun {p c} hpc => h.ordered c p hpc) Nat.lt_wfRel.wf

theorem children_eq_nil_of_size_le (hn : d.nodes.size ≤ n) : d.children n = [] := by
  simp [children, get?, Array.getElem?_eq_none hn]

/-- A walk that spends one unit of fuel per level and, at a node, reads only what it gave on the
node's children, gives the same answer with any fuel beyond the levels below the node: in a
forest those are fewer than the nodes younger than it. -/
theorem walk_fuel_eq {α : Type} (h : d.Forest) (walk : Nat → NodeId → α)
    (hstep : ∀ k k' n, (∀ c ∈ d.children n, walk k c = walk k' c) →
      walk (k + 1) n = walk (k' + 1) n) :
    ∀ k k' n, d.nodes.size ≤ n + k → d.nodes.size ≤ n + k' → walk (k + 1) n = walk (k' + 1) n := by
  intro k
  -- the induction is on the fuel; each child is younger, so it has one level less to go
  induction k with
  | zero =>
    intro k' n hk _
    exact hstep 0 k' n fun c hc => absurd hc (by simp [children_eq_nil_of_size_le (show d.nodes.size ≤ n by omega)])
  | succ j ih =>
    intro k' n hk hk'
    refine hstep (j + 1) k' n fun c hc => ?_
    have hnc : n < c := h.lt_of_mem_children hc
    cases k' with
    | zero => exact absurd hc (by simp [children_eq_nil_of_size_le (show d.nodes.size ≤ n by omega)])
    | succ j' => exact ih j' c (by omega) (by omega)

theorem htmlWith_succ_congr {k k' : Nat}
    (hc : ∀ c ∈ d.children n, d.htmlWith k c = d.htmlWith k' c) :
    d.htmlWith (k + 1) n = d.htmlWith (k' + 1) n := by
  simp only [htmlWith]
  rcases hget : d.get? n with _ | ⟨_ | ⟨tag, cls, style, attrs⟩, parent, cs⟩
  · rfl
  · have hcs : cs = d.children n := by simp [children, hget]
    subst hcs
    simp only [List.map_congr_left hc]
  · rfl

theorem textWith_succ_congr {k k' : Nat}
    (hc : ∀ c ∈ d.children n, d.textWith k c = d.textWith k' c) :
    d.textWith (k + 1) n = d.textWith (k' + 1) n := by
  simp only [textWith]
  rcases hget : d.get? n with _ | ⟨_ | ⟨tag, cls, style, attrs⟩, parent, cs⟩
  · rfl
  · have hcs : cs = d.children n := by simp [children, hget]
    subst hcs
    simp only [List.map_congr_left hc]
  · rfl

theorem byTagWith_succ_congr {tag : String} {k k' : Nat}
    (hc : ∀ c ∈ d.children n, d.byTagWith tag k c = d.byTagWith tag k' c) :
    d.byTagWith tag (k + 1) n = d.byTagWith tag (k' + 1) n := by
  simp only [byTagWith]
  exact List.flatMap_congr fun c hmem => by rw [hc c hmem]

theorem findIdWith_succ_congr {name : String} {k k' : Nat}
    (hc : ∀ c ∈ d.children n, d.findIdWith name k c = d.findIdWith name k' c) :
    d.findIdWith name (k + 1) n = d.findIdWith name (k' + 1) n := by
  simp only [findIdWith]
  split
  · rfl
  · have hmap : ∀ g : NodeId → Option NodeId,
        (d.children n).findSome? g = ((d.children n).map g).findSome? id := fun g => by
      rw [List.findSome?_map]
      rfl
    rw [hmap, hmap, List.map_congr_left hc]

theorem htmlWith_eq_toHtml (h : d.Forest) (hfuel : d.nodes.size < fuel) :
    d.htmlWith fuel n = d.toHtml n := by
  obtain ⟨k, rfl⟩ : ∃ k, fuel = k + 1 := ⟨fuel - 1, by omega⟩
  exact h.walk_fuel_eq d.htmlWith (fun _ _ _ => htmlWith_succ_congr) k d.nodes.size n (by omega) (by omega)

theorem textWith_eq_textContent (h : d.Forest) (hfuel : d.nodes.size < fuel) :
    d.textWith fuel n = d.textContent n := by
  obtain ⟨k, rfl⟩ : ∃ k, fuel = k + 1 := ⟨fuel - 1, by omega⟩
  exact h.walk_fuel_eq d.textWith (fun _ _ _ => textWith_succ_congr) k d.nodes.size n (by omega) (by omega)

theorem byTagWith_eq_elementsByTag (h : d.Forest) (tag : String) (hfuel : d.nodes.size < fuel) :
    d.byTagWith tag fuel n = d.elementsByTag n tag := by
  obtain ⟨k, rfl⟩ : ∃ k, fuel = k + 1 := ⟨fuel - 1, by omega⟩
  exact h.walk_fuel_eq (d.byTagWith tag) (fun _ _ _ => byTagWith_succ_congr) k d.nodes.size n (by omega) (by omega)

theorem findIdWith_eq_queryId (h : d.Forest) (name : String) (hfuel : d.nodes.size < fuel) :
    d.findIdWith name fuel n = d.queryId n name := by
  obtain ⟨k, rfl⟩ : ∃ k, fuel = k + 1 := ⟨fuel - 1, by omega⟩
  exact h.walk_fuel_eq (d.findIdWith name) (fun _ _ _ => findIdWith_succ_congr) k d.nodes.size n (by omega) (by omega)

end Forest

end Document

/-- A call of the host interface, with the nodes it names. -/
inductive HostCall where
  | createContainer (tag : String)
  | createElement (tag : String)
  | createTextNode (text : String)
  | appendChild (parent child : NodeId)
  | insertBefore (parent child : NodeId) (before : Option NodeId)
  | removeChild (parent child : NodeId)
  | setAttribute (node : NodeId) (name value : String)
  | setClassName (node : NodeId) (value : String)
  | setStyle (node : NodeId) (value : String)
  | setTextContent (node : NodeId) (text : String)
  | addEventListener (container : NodeId) (event : String)
  | removeEventListener (container : NodeId) (event : String)

namespace HostCall

/-- What a call does to the document. -/
def apply (d : Document) : HostCall → Document
  | .createContainer tag => (d.createContainer tag).2
  | .createElement tag => (d.createElement tag).2
  | .createTextNode text => (d.createText text).2
  | .appendChild p c => d.appendChild p c
  | .insertBefore p c b => d.insertBefore p c b
  | .removeChild p c => d.removeChild p c
  | .setAttribute n name value => d.setAttribute n name value
  | .setClassName n value => d.setClassName n value
  | .setStyle n value => d.setStyle n value
  | .setTextContent n text => d.setTextContent n text
  | .addEventListener c event => d.addListener c event
  | .removeEventListener c event => d.removeListener c event

/-- The nodes a call names. -/
def nodes : HostCall → List NodeId
  | .appendChild p c | .removeChild p c => [p, c]
  | .insertBefore p c b => p :: c :: b.toList
  | .setAttribute n .. | .setClassName n _ | .setStyle n _ | .setTextContent n _ => [n]
  | .addEventListener c _ | .removeEventListener c _ => [c]
  | .createContainer _ | .createElement _ | .createTextNode _ => []

/-- Make calls in turn. -/
def applyAll (d : Document) (calls : List HostCall) : Document :=
  calls.foldl apply d

/-- Each call names only nodes the document has when it is made. -/
def Allocated : Document → List HostCall → Prop
  | _, [] => True
  | d, call :: calls => (∀ n ∈ call.nodes, n < d.nodes.size) ∧ Allocated (call.apply d) calls

variable {d : Document}

/-- A call on nodes of the arena keeps the links. -/
theorem linked_apply (h : d.Linked) (call : HostCall) (hn : ∀ n ∈ call.nodes, n < d.nodes.size) :
    (call.apply d).Linked := by
  cases call with
  | createContainer tag => exact h.createContainer tag
  | createElement tag => exact h.createElement tag
  | createTextNode text => exact h.createText text
  | appendChild p c => exact h.attach none (hn p (by simp [nodes])) (hn c (by simp [nodes]))
  | insertBefore p c b => exact h.attach b (hn p (by simp [nodes])) (hn c (by simp [nodes]))
  | removeChild p c => exact h.removeChild p c
  | setAttribute n name value => exact h.setAttribute n name value
  | setClassName n value => exact h.setClassName n value
  | setStyle n value => exact h.setStyle n value
  | setTextContent n text => exact h.setTextContent n text
  | addEventListener c event => exact h.addListener c event
  | removeEventListener c event => exact h.removeListener c event

theorem linked_applyAll : ∀ {d : Document} (calls : List HostCall), d.Linked →
    Allocated d calls → (applyAll d calls).Linked
  | _, [], h, _ => h
  | _, call :: calls, h, ⟨hn, hrest⟩ => linked_applyAll calls (linked_apply h call hn) hrest

end HostCall

end Canopy
