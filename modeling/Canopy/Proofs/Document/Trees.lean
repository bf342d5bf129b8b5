import Canopy.Proofs.Document.Forest
import Mathlib.Logic.Relation

/-!
# The trees a document shows

A tree is what a piece of the document looks like to a reader: an element with its tag, class,
style, attributes and children, or a text. Reading a node back (`Document.treeWith`) walks down
from it, one level of fuel at a time; `Document.Shows d x t` says that some fuel reads `x` back
as `t`. More fuel reads back the same tree (`treeWith_mono`), so a node shows at most one tree,
and an element shows a tree exactly when each of its children shows the matching child tree
(`shows_element_iff`).

What a node shows depends only on the nodes below it: a change of the document that keeps the
kind and the children of each of them keeps what the node shows (`Shows.keep`). In a forest the
HTML text of a node is the text of the tree it shows (`Shows.toHtml`), written by the same rules
(`Tree.html`).
-/

namespace Canopy

/-- A piece of the document as a reader sees it. -/
inductive Tree where
  /-- An element, with its tag, its class and style if set, its attributes in order and its
  children in order. -/
  | element (tag : String) (className style : Option String) (attributes : List (String × String))
      (children : List Tree)
  /-- A text. -/
  | text (content : String)

namespace Tree

mutual
/-- The HTML text of a tree, by the rules the document writes a node with. -/
def html : Tree → String
  | .element tag c s attrs cs =>
    let open_ := "<" ++ tag ++ String.join (attrs.map fun (k, v) => Document.htmlAttribute k v)
      ++ ((c.map (Document.htmlAttribute "class")).getD "")
      ++ ((s.map (Document.htmlAttribute "style")).getD "") ++ ">"
    open_ ++ htmlList cs ++ "</" ++ tag ++ ">"
  | .text t => t

/-- The HTML text of trees side by side. -/
def htmlList : List Tree → String
  | [] => ""
  | t :: ts => html t ++ htmlList ts
end

theorem htmlList_eq_join (ts : List Tree) : htmlList ts = String.join (ts.map html) := by
  induction ts with
  | nil => rfl
  | cons t ts ih => simp [htmlList, ih, String.join_cons]

end Tree

namespace Document

variable {d d' : Document} {x y : NodeId} {t : Tree} {fuel : Nat}

/-- The tree a node reads back as, walking at most `fuel` levels; `none` when a node on the way is
not in the arena or the fuel runs out. -/
def treeWith (d : Document) : Nat → NodeId → Option Tree
  | 0, _ => none
  | fuel + 1, x =>
    match d.get? x with
    | none => none
    | some { kind := .text s, .. } => some (.text s)
    | some { kind := .element tag c s attrs, children, .. } =>
      (children.mapM (d.treeWith fuel)).map (.element tag c s attrs)

/-- The node reads back as the tree. -/
def Shows (d : Document) (x : NodeId) (t : Tree) : Prop :=
  ∃ fuel, d.treeWith fuel x = some t

/-- Nodes read back as trees, one by one. -/
def ShowsAll (d : Document) (xs : List NodeId) (ts : List Tree) : Prop :=
  List.Forall₂ d.Shows xs ts

/-- A walk over a list that can fail succeeds exactly when it succeeds on each element. -/
theorem mapM_eq_some_iff {α β : Type} {f : α → Option β} :
    ∀ {xs : List α} {us : List β},
      xs.mapM f = some us ↔ List.Forall₂ (fun x u => f x = some u) xs us
  | [], us => by cases us <;> simp
  | x :: xs, us => by
    simp only [List.mapM_cons, Option.bind_eq_bind, Option.bind_eq_some_iff, Option.pure_def,
      Option.some.injEq, @mapM_eq_some_iff _ _ f xs]
    constructor
    · rintro ⟨u, hu, us', hus', rfl⟩
      exact .cons hu hus'
    · rintro (_ | ⟨hu, hus⟩)
      exact ⟨_, hu, _, hus, rfl⟩

/-- More fuel reads a node back as the same tree. -/
theorem treeWith_mono : ∀ {fuel k : Nat} {x : NodeId} {t : Tree},
    d.treeWith fuel x = some t → fuel ≤ k → d.treeWith k x = some t
  | 0, _, _, _, h, _ => by simp [treeWith] at h
  | _ + 1, 0, _, _, _, hk => absurd hk (by omega)
  | fuel + 1, k + 1, x, t, h, hk => by
    rcases hget : d.get? x with _ | ⟨kind, parent, children⟩
    · simp [treeWith, hget] at h
    cases kind with
    | text s => simpa [treeWith, hget] using h
    | element tag c s attrs =>
      simp only [treeWith, hget] at h ⊢
      obtain ⟨us, hus, rfl⟩ := Option.map_eq_some_iff.1 h
      have hus' : children.mapM (d.treeWith k) = some us :=
        mapM_eq_some_iff.2 ((mapM_eq_some_iff.1 hus).imp fun _ _ hu => treeWith_mono hu (by omega))
      rw [hus']
      rfl

theorem Shows.unique {t' : Tree} (h : d.Shows x t) (h' : d.Shows x t') : t = t' := by
  obtain ⟨k, hk⟩ := h
  obtain ⟨k', hk'⟩ := h'
  have h₁ := treeWith_mono hk (Nat.le_max_left k k')
  have h₂ := treeWith_mono hk' (Nat.le_max_right k k')
  rw [h₁] at h₂
  exact Option.some.inj h₂

/-- Nodes each of which reads back with some fuel all read back with one fuel. -/
theorem showsAll_iff_mapM {xs : List NodeId} {ts : List Tree} :
    d.ShowsAll xs ts ↔ ∃ fuel, xs.mapM (d.treeWith fuel) = some ts := by
  simp only [mapM_eq_some_iff]
  constructor
  · intro h
    induction h with
    | nil => exact ⟨0, .nil⟩
    | cons hx _ ih =>
      obtain ⟨k, hk⟩ := hx
      obtain ⟨k', hk'⟩ := ih
      exact ⟨max k k', .cons (treeWith_mono hk (Nat.le_max_left k k'))
        (hk'.imp fun _ _ hu => treeWith_mono hu (Nat.le_max_right k k'))⟩
  · rintro ⟨k, hk⟩
    exact hk.imp fun _ _ hu => ⟨k, hu⟩

/-- A text node shows its text. -/
theorem shows_text_iff {s : String} :
    d.Shows x (.text s) ↔ ∃ nd, d.get? x = some nd ∧ nd.kind = .text s := by
  constructor
  · rintro ⟨_ | k, hk⟩
    · simp [treeWith] at hk
    rcases hget : d.get? x with _ | ⟨kind, parent, children⟩
    · simp [treeWith, hget] at hk
    cases kind with
    | text s' => simp_all [treeWith]
    | element tag c s' attrs => simp [treeWith, hget] at hk
  · rintro ⟨⟨kind, parent, children⟩, hget, hkind⟩
    subst hkind
    exact ⟨1, by simp [treeWith, hget]⟩

/-- An element shows a tree of its tag, class, style and attributes whose children are what its
children show. -/
theorem shows_element_iff {tag : String} {c s : Option String} {attrs : List (String × String)}
    {ts : List Tree} :
    d.Shows x (.element tag c s attrs ts) ↔
      ∃ nd, d.get? x = some nd ∧ nd.kind = .element tag c s attrs ∧ d.ShowsAll nd.children ts := by
  constructor
  · rintro ⟨_ | k, hk⟩
    · simp [treeWith] at hk
    rcases hget : d.get? x with _ | ⟨kind, parent, children⟩
    · simp [treeWith, hget] at hk
    cases kind with
    | text s' => simp [treeWith, hget] at hk
    | element tag' c' s' attrs' =>
      simp only [treeWith, hget] at hk
      obtain ⟨us, hus, heq⟩ := Option.map_eq_some_iff.1 hk
      cases heq
      exact ⟨_, rfl, rfl, showsAll_iff_mapM.2 ⟨k, hus⟩⟩
  · rintro ⟨⟨kind, parent, children⟩, hget, hkind, hts⟩
    subst hkind
    obtain ⟨k, hk⟩ := showsAll_iff_mapM.1 hts
    exact ⟨k + 1, by simp [treeWith, hget, hk]⟩

/-! ## What a node shows depends only on the nodes below it -/

/-- `y` is `x` or below one of its children. -/
def Below (d : Document) (x y : NodeId) : Prop :=
  Relation.ReflTransGen (fun a b => b ∈ d.children a) x y

/-- `d'` has the node `y` of `d`, if `d` has it, with the same kind and children. -/
def SameAt (d d' : Document) (y : NodeId) : Prop :=
  y < d.nodes.size → (d'.get? y).map NodeData.kind = (d.get? y).map NodeData.kind ∧
    d'.children y = d.children y

theorem Below.refl (d : Document) (x : NodeId) : d.Below x x := Relation.ReflTransGen.refl

theorem Below.child {c : NodeId} (hc : c ∈ d.children x) (h : d.Below c y) : d.Below x y :=
  Relation.ReflTransGen.head hc h

/-- A change that keeps the kind and children of every node below `x` keeps what `x` reads
back as. -/
theorem treeWith_keep : ∀ {fuel : Nat} {x : NodeId} {t : Tree},
    d.treeWith fuel x = some t → (∀ y, d.Below x y → SameAt d d' y) → d'.treeWith fuel x = some t
  | 0, _, _, h, _ => by simp [treeWith] at h
  | fuel + 1, x, t, h, hsame => by
    rcases hget : d.get? x with _ | ⟨kind, parent, children⟩
    · simp [treeWith, hget] at h
    obtain ⟨hk, hc⟩ := hsame x (Below.refl d x) (lt_size_of_get? hget)
    rw [hget] at hk
    obtain ⟨⟨kind', parent', children'⟩, hnd', hkind⟩ := Option.map_eq_some_iff.1 hk
    have hchildren : children' = children := by
      simpa [Document.children, hnd', hget] using hc
    dsimp only at hkind
    rw [hkind, hchildren] at hnd'
    cases kind with
    | text s => simpa [treeWith, hget, hnd'] using h
    | element tag c s attrs =>
      simp only [treeWith, hget, hnd'] at h ⊢
      obtain ⟨us, hus, rfl⟩ := Option.map_eq_some_iff.1 h
      -- each child is below `x`, and so are the nodes below it
      have hbelow : ∀ y ∈ children, ∀ z, d.Below y z → SameAt d d' z := fun y hy z hz =>
        hsame z (Below.child (by simp [Document.children, hget, hy]) hz)
      have hus' : children.mapM (d'.treeWith fuel) = some us :=
        mapM_eq_some_iff.2 <| ((List.forall₂_and_left _ _).2
          ⟨hbelow, mapM_eq_some_iff.1 hus⟩).imp fun _ _ h => treeWith_keep h.2 h.1
      rw [hus']
      rfl

theorem Shows.keep (h : d.Shows x t) (hsame : ∀ y, d.Below x y → SameAt d d' y) :
    d'.Shows x t :=
  let ⟨k, hk⟩ := h
  ⟨k, treeWith_keep hk hsame⟩

theorem Shows.keep_except {q : NodeId} (h : d.Shows x t) (hx : ¬ d.Below x q)
    (hsame : ∀ y, y ≠ q → SameAt d d' y) : d'.Shows x t :=
  h.keep fun y hy => hsame y fun hyq => hx (hyq ▸ hy)

theorem ShowsAll.keep {xs : List NodeId} {ts : List Tree} (h : d.ShowsAll xs ts)
    (hx : ∀ x ∈ xs, ∀ t, d.Shows x t → d'.Shows x t) : d'.ShowsAll xs ts := by
  induction h with
  | nil => exact .nil
  | cons hy _ ih =>
    exact .cons (hx _ List.mem_cons_self _ hy)
      (ih fun x hx' t ht => hx x (List.mem_cons_of_mem _ hx') t ht)

theorem Forest.le_of_below (hf : d.Forest) (h : d.Below x y) : x ≤ y := by
  induction h with
  | refl => exact Nat.le_refl _
  | tail _ hc ih => exact Nat.le_trans ih (Nat.le_of_lt (hf.lt_of_mem_children hc))

theorem Linked.not_below_of_parent?_eq_none {q : NodeId} (hl : d.Linked)
    (hq : d.parent? q = none) (hx : x ≠ q) : ¬ d.Below x q := by
  intro h
  rcases Relation.ReflTransGen.cases_tail h with h | ⟨z, -, hz⟩
  · exact hx h.symm
  · rw [(hl.mem_children z q).1 hz] at hq
    cases hq

theorem Grafts.below_new {d₀ : Document} {P : NodeId} {a : Option NodeId} {xs : List NodeId}
    (hg : Grafts d₀ P a xs d) (hx : d₀.nodes.size ≤ x) (h : d.Below x y) : d₀.nodes.size ≤ y := by
  induction h with
  | refl => exact hx
  | tail _ hc ih => exact hg.children_new _ ih _ hc

theorem shows_text_iff_kind {s : String} :
    d.Shows x (.text s) ↔ (d.get? x).map NodeData.kind = some (.text s) := by
  rw [shows_text_iff, Option.map_eq_some_iff]

/-- An element shows a tree when its kind says the tree's tag, class, style and attributes and
its children show the tree's children. -/
theorem shows_element_iff_kind {tag : String} {c s : Option String}
    {attrs : List (String × String)} {ts : List Tree} :
    d.Shows x (.element tag c s attrs ts) ↔
      (d.get? x).map NodeData.kind = some (.element tag c s attrs) ∧
        d.ShowsAll (d.children x) ts := by
  rw [shows_element_iff]
  constructor
  · rintro ⟨nd, hget, hk, hts⟩
    refine ⟨by simp [hget, hk], ?_⟩
    simpa [Document.children, hget] using hts
  · rintro ⟨hk, hts⟩
    obtain ⟨nd, hget, hk⟩ := Option.map_eq_some_iff.1 hk
    exact ⟨nd, hget, hk, by simpa [Document.children, hget] using hts⟩

/-- The children of a node keep what they show across a change that keeps every other node, in
a forest: the node is not below its children. -/
theorem showsAll_children_keep (hf : d.Forest) {ts : List Tree}
    (h : d.ShowsAll (d.children x) ts) (hsame : ∀ y, y ≠ x → SameAt d d' y) :
    d'.ShowsAll (d.children x) ts :=
  h.keep fun _ hy _ ht => ht.keep_except
    (fun hb => Nat.lt_irrefl _ (Nat.lt_of_lt_of_le (hf.lt_of_mem_children hy) (hf.le_of_below hb)))
    hsame

/-- An element whose own kind changes, its children and the nodes below them kept, shows its
children's trees under the new kind. -/
theorem Shows.rekind (hf : d.Forest) {tag tag' : String} {c s c' s' : Option String}
    {attrs attrs' : List (String × String)} {ts : List Tree}
    (h : d.Shows x (.element tag c s attrs ts)) (hsame : ∀ y, y ≠ x → SameAt d d' y)
    (hk : (d'.get? x).map NodeData.kind = some (.element tag' c' s' attrs'))
    (hc : d'.children x = d.children x) : d'.Shows x (.element tag' c' s' attrs' ts) := by
  rw [shows_element_iff_kind] at h ⊢
  exact ⟨hk, hc ▸ showsAll_children_keep hf h.2 hsame⟩

/-- An element that keeps its kind and gets new last children shows them after its old
children's trees. -/
theorem Shows.append (hf : d.Forest) {tag : String} {c s : Option String}
    {attrs : List (String × String)} {ts us : List Tree} {ys : List NodeId}
    (h : d.Shows x (.element tag c s attrs ts)) (hsame : ∀ y, y ≠ x → SameAt d d' y)
    (hk : (d'.get? x).map NodeData.kind = (d.get? x).map NodeData.kind)
    (hc : d'.children x = d.children x ++ ys) (hys : d'.ShowsAll ys us) :
    d'.Shows x (.element tag c s attrs (ts ++ us)) := by
  rw [shows_element_iff_kind] at h ⊢
  exact ⟨hk.trans h.1, hc ▸ List.rel_append (showsAll_children_keep hf h.2 hsame) hys⟩

/-! ## What changes of the document keep -/

theorem sameAt_of_get? (h : y < d.nodes.size → d'.get? y = d.get? y) : SameAt d d' y :=
  fun hy => by simp [Document.children, h hy]

theorem get?_alloc_of_lt {k : NodeKind} (hy : y < d.nodes.size) : (d.alloc k).2.get? y = d.get? y := by
  simp [alloc, get?, Array.getElem?_push, Nat.ne_of_lt hy]

theorem sameAt_createElement (tag : String) (y : NodeId) : SameAt d (d.createElement tag).2 y :=
  sameAt_of_get? get?_alloc_of_lt

theorem sameAt_createText (text : String) (y : NodeId) : SameAt d (d.createText text).2 y :=
  sameAt_of_get? get?_alloc_of_lt

theorem sameAt_of_nodes (hn : d'.nodes = d.nodes) (y : NodeId) : SameAt d d' y :=
  sameAt_of_get? fun _ => by simp [get?, hn]

theorem shows_createElement (tag : String) :
    (d.createElement tag).2.Shows d.nodes.size (.element tag none none [] []) := by
  rw [shows_element_iff_kind]
  refine ⟨by simp [createElement, alloc, record, get?], ?_⟩
  rw [children_createElement, children, get?, Array.getElem?_eq_none (Nat.le_refl _)]
  exact .nil

theorem shows_createText (text : String) : (d.createText text).2.Shows d.nodes.size (.text text) :=
  shows_text_iff_kind.2 (kind_createText_self text)

theorem sameAt_modifyElement {n : NodeId} (f) (hy : y ≠ n) : SameAt d (d.modifyElement n f) y :=
  sameAt_of_get? fun _ => by simp [modifyElement, get?_modifyNode, Ne.symm hy]

theorem kind_modifyElement_self {n : NodeId} {tag : String} {c s : Option String}
    {attrs : List (String × String)} (f)
    (hk : (d.get? n).map NodeData.kind = some (.element tag c s attrs)) :
    ((d.modifyElement n f).get? n).map NodeData.kind =
      some (.element tag (f c s attrs).1 (f c s attrs).2.1 (f c s attrs).2.2) := by
  obtain ⟨nd, hget, hnd⟩ := Option.map_eq_some_iff.1 hk
  simp [modifyElement, get?_modifyNode, hget, hnd]

theorem sameAt_attach {p c : NodeId} (b : Option NodeId) (hc : d.parent? c = none) (hy : y ≠ p) :
    SameAt d (d.attach p c b) y :=
  fun _ => ⟨kind_attach b, children_attach_ne b hc hy⟩

theorem kind_foldl_unparent (cs : List NodeId) (d : Document) :
    ((cs.foldl (fun (d : Document) c => d.modifyNode c fun cd => { cd with parent := none }) d).get?
      y).map NodeData.kind = (d.get? y).map NodeData.kind := by
  induction cs generalizing d with
  | nil => rfl
  | cons c cs ih => rw [List.foldl_cons, ih, kind_modifyNode_setParent]

/-- Writing the text content of an element keeps what every node of the arena is. -/
theorem kind_setTextContent {n : NodeId} (text : String)
    (hn : ∀ nd, d.get? n = some nd → ∀ t, nd.kind ≠ .text t) (hy : y < d.nodes.size) :
    ((d.setTextContent n text).get? y).map NodeData.kind = (d.get? y).map NodeData.kind := by
  have hrec : ∀ (d' : Document) (op : DocOp), (d'.record op).get? y = d'.get? y := fun _ _ => rfl
  rcases hget : d.get? n with _ | ⟨kind, parent, children⟩
  · simp only [setTextContent, hget, hrec]
  · cases kind with
    | text t => exact absurd rfl (hn _ hget t)
    | element tag c s attrs =>
      -- the element's old children lose their parent, and a new text node may be added
      obtain ⟨hs, -, -⟩ := foldl_unparent_facts children d
      simp only [setTextContent, hget, hrec]
      split
      · rw [kind_modifyNode_setChildren, kind_foldl_unparent]
      · rw [kind_modifyNode_setChildren, kind_modifyNode_setParent, get?_alloc_of_lt (by simpa [hs]),
          kind_modifyNode_setChildren, kind_foldl_unparent]

theorem sameAt_setTextContent {n : NodeId} (text : String)
    (hn : ∀ nd, d.get? n = some nd → ∀ t, nd.kind ≠ .text t) (hy : y ≠ n) :
    SameAt d (d.setTextContent n text) y :=
  fun hlt => ⟨kind_setTextContent text hn hlt, children_setTextContent_ne text hy⟩

/-- An element whose text content is written has one child, a new text node of the text, or none
for the empty text. -/
theorem setTextContent_element {n : NodeId} {nd : NodeData} (text : String)
    (hget : d.get? n = some nd) (hn : ∀ t, nd.kind ≠ .text t) :
    (d.setTextContent n text).children n = (if text.isEmpty then [] else [d.nodes.size]) ∧
      (text.isEmpty = false →
        ((d.setTextContent n text).get? d.nodes.size).map NodeData.kind = some (.text text)) := by
  obtain ⟨hs, -, -⟩ := foldl_unparent_facts nd.children d
  have hlt : n < d.nodes.size := lt_size_of_get? hget
  have hrec : ∀ (d' : Document) (op : DocOp), (d'.record op).get? d.nodes.size =
      d'.get? d.nodes.size := fun _ _ => rfl
  obtain ⟨kind, parent, children⟩ := nd
  cases kind with
  | text t => exact absurd rfl (hn t)
  | element tag c s attrs =>
    simp only [setTextContent, hget, hrec]
    rw [children_of_nodes (nodes_record _ _)]
    by_cases he : text.isEmpty
    · simp only [he, if_true]
      refine ⟨?_, fun h => absurd h (by simp)⟩
      exact children_modifyNode_nil_self.trans (by simp)
    · simp only [he, if_false, Bool.false_eq_true]
      generalize List.foldl (fun (d : Document) c => d.modifyNode c fun cd => { cd with parent := none })
        d children = d₁ at hs ⊢
      have hs₂ : (d₁.modifyNode n fun nd => { nd with children := [] }).nodes.size = d.nodes.size := by
        simp [hs]
      refine ⟨?_, fun _ => ?_⟩
      · rw [children_modifyNode_children_self (g := fun _ => [_])
          (by simpa only [size_modifyNode, size_alloc, hs] using Nat.lt_succ_of_lt hlt)]
        simp [hs₂]
      · rw [kind_modifyNode_setChildren, kind_modifyNode_setParent]
        have hsize : d.nodes.size =
            (d₁.modifyNode n fun nd => { nd with children := [] }).nodes.size := hs₂.symm
        simp only [alloc, get?, hsize, Array.getElem?_push_size, Option.map_some]

/-! ## HTML text -/

/-- A node read back with some fuel writes the tree's HTML text with that fuel. -/
theorem htmlWith_of_treeWith : ∀ {fuel : Nat} {x : NodeId} {t : Tree},
    d.treeWith fuel x = some t → d.htmlWith fuel x = t.html
  | 0, _, _, h => by simp [treeWith] at h
  | fuel + 1, x, t, h => by
    rcases hget : d.get? x with _ | ⟨kind, parent, children⟩
    · simp [treeWith, hget] at h
    cases kind with
    | text s =>
      simp only [treeWith, hget, Option.some.injEq] at h
      subst h
      simp [htmlWith, hget, Tree.html]
    | element tag c s attrs =>
      simp only [treeWith, hget] at h
      obtain ⟨us, hus, rfl⟩ := Option.map_eq_some_iff.1 h
      -- the children's texts are the child trees' texts, side by side
      have hmap : ∀ {ys vs}, List.Forall₂ (fun y v => d.htmlWith fuel y = Tree.html v) ys vs →
          ys.map (d.htmlWith fuel) = vs.map Tree.html := by
        intro ys vs hall
        induction hall with
        | nil => rfl
        | cons hu _ ih => simp [hu, ih]
      have hjoin := hmap ((mapM_eq_some_iff.1 hus).imp fun _ _ hu => htmlWith_of_treeWith hu)
      simp only [htmlWith, hget, Tree.html, Tree.htmlList_eq_join, hjoin]

theorem Shows.toHtml (hf : d.Forest) (h : d.Shows x t) : d.toHtml x = t.html := by
  obtain ⟨k, hk⟩ := h
  have hbig := treeWith_mono hk (Nat.le_add_left k (d.nodes.size + 1))
  rw [← htmlWith_of_treeWith hbig, Forest.htmlWith_eq_toHtml hf (by omega)]

theorem ShowsAll.toHtml {xs : List NodeId} {ts : List Tree} (hf : d.Forest) (h : d.ShowsAll xs ts) :
    xs.map d.toHtml = ts.map Tree.html := by
  induction h with
  | nil => rfl
  | cons hx _ ih => rw [List.map_cons, List.map_cons, hx.toHtml hf, ih]

end Document

end Canopy
