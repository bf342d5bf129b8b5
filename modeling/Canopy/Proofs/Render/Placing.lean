import Canopy.Proofs.Document.Splice
import Canopy.Proofs.Render.Flat

/-!
# Where a mount puts its roots

Mounting a program at a target `⟨P, a⟩` grafts new nodes into the document
(`Document.Grafts`): the node's roots go under `P`, together before the anchor `a`, in the order
of the node's roots, and every other node the document had keeps its parent and its children.
Everything else the mount creates hangs under new nodes. This holds of every well-formed program,
whatever its ternaries, loops and components (`mount_places`): a branch, a component or a loop
item mounted at the top of the program is grafted at the same place, after the roots before it,
and one mounted inside an element is grafted under that element, which is new.

A ternary's slot stands for its branch's roots, or for one new empty text node when the branch
has none (`mountBranch_places`), so that the place of a branch is never empty.

`Placing` is what holds of a mount in progress: the roots so far are grafted, the open elements
are new and have no parent, and the slots the roots refer to are slots already taken.
-/

namespace Canopy

/-- The document nodes a root of a node stands for, given the node's slots. -/
def RootRef.resolve (slots : Array Slot) : RootRef → List NodeId
  | .host x => [x]
  | .slot s => ((slots[s]?).map Slot.roots).getD []

namespace Mounted

theorem rootsOfList_eq : ∀ l : List Slot, Slot.rootsOfList l = l.map Slot.roots
  | [] => rfl
  | s :: l => by rw [Slot.rootsOfList, rootsOfList_eq l, List.map_cons]

theorem roots_eq (n : Mounted) : n.roots = n.rootRefs.flatMap (RootRef.resolve n.slots) := by
  obtain ⟨site, p, refs, ⟨slots⟩⟩ := n
  simp only [roots, Slot.rootsOfArray, rootsOfList_eq, rootRefs, Mounted.slots]
  congr 1
  funext ref
  cases ref with
  | host x => rfl
  | slot s => simp [RootRef.resolve]

@[simp] theorem roots_fresh (site : List Nat) (p : Program) : (fresh site p).roots = [] := by
  simp [roots_eq]

theorem roots_addRoot (n : Mounted) (ref : RootRef) :
    (n.addRoot ref).roots = n.roots ++ ref.resolve n.slots := by
  simp [roots_eq]

/-- Filling a slot no root refers to leaves the roots as they are. -/
theorem roots_setSlot {n : Mounted} {s : Nat} (hs : RootRef.slot s ∉ n.rootRefs) (x : Slot) :
    (n.setSlot s x).roots = n.roots := by
  rw [roots_eq, roots_eq, rootRefs_setSlot, slots_setSlot]
  refine List.flatMap_congr fun ref href => ?_
  cases ref with
  | host y => rfl
  | slot t =>
    have hst : s ≠ t := fun hst => hs (hst ▸ href)
    simp only [RootRef.resolve, Array.getElem?_setIfInBounds_ne hst]

theorem resolve_slot_setSlot {n : Mounted} {s : Nat} (hs : s < n.slots.size) (x : Slot) :
    (RootRef.slot s).resolve (n.setSlot s x).slots = x.roots := by
  simp [RootRef.resolve, Array.getElem?_setIfInBounds_self_of_lt hs]

end Mounted

namespace Pass

open Document RenderM

variable {p : Program} {d₀ : Document} {P : NodeId} {a : Option NodeId} {S : List Nat}
  {node : Mounted} {stack : List (Option NodeId)} {d : Document}

/-- A mount of `p` in progress at `⟨P, a⟩`, started from `d₀`: the node's roots are grafted
under `P` before `a`, the open elements are new and have no parent, and every slot a root refers
to is among the slots `S` taken so far. -/
structure Placing (p : Program) (d₀ : Document) (P : NodeId) (a : Option NodeId) (S : List Nat)
    (node : Mounted) (stack : List (Option NodeId)) (d : Document) : Prop where
  grafts : Grafts d₀ P a node.roots d
  size : node.slots.size = p.slotCount
  refs : ∀ s, RootRef.slot s ∈ node.rootRefs → s ∈ S
  open_new : ∀ e, some e ∈ stack → d₀.nodes.size ≤ e ∧ e < d.nodes.size ∧ d.parent? e = none
  open_nodup : (stack.filterMap id).Nodup

namespace Placing

/-- A mount starts with a fresh node and nothing open. -/
theorem start (hP : P < d₀.nodes.size) (ha : ∀ b ∈ a, b < d₀.nodes.size) (site : List Nat)
    (p : Program) : Placing p d₀ P a [] (Mounted.fresh site p) [] d₀ where
  grafts := by simpa using Grafts.refl hP ha
  size := Array.size_replicate
  refs _ href := absurd href List.not_mem_nil
  open_new _ he := absurd he List.not_mem_nil
  open_nodup := List.nodup_nil

theorem mono (h : Placing p d₀ P a S node stack d) {S' : List Nat} (hS : S ⊆ S') :
    Placing p d₀ P a S' node stack d :=
  { h with refs := fun s hs => hS (h.refs s hs) }

theorem setSlot (h : Placing p d₀ P a S node stack d) {s : Nat} (hs : s ∉ S) (x : Slot) :
    Placing p d₀ P a (s :: S) (node.setSlot s x) stack d where
  grafts := by rw [Mounted.roots_setSlot (fun hr => hs (h.refs s hr))]; exact h.grafts
  size := by rw [Mounted.slots_setSlot, Array.size_setIfInBounds, h.size]
  refs t ht := List.mem_cons_of_mem _ (h.refs t ht)
  open_new := h.open_new
  open_nodup := h.open_nodup

/-- A change of the document that keeps the graft and the parent of every open element. -/
theorem document (h : Placing p d₀ P a S node stack d) {d' : Document}
    (hg : Grafts d₀ P a node.roots d') (hsize : d.nodes.size ≤ d'.nodes.size)
    (hopen : ∀ e, some e ∈ stack → d.parent? e = none → d'.parent? e = none) :
    Placing p d₀ P a S node stack d' where
  grafts := hg
  size := h.size
  refs := h.refs
  open_new e he := by
    obtain ⟨h₁, h₂, h₃⟩ := h.open_new e he
    exact ⟨h₁, Nat.lt_of_lt_of_le h₂ hsize, hopen e he h₃⟩
  open_nodup := h.open_nodup

theorem rewrites (h : Placing p d₀ P a S node stack d) {d' : Document} (hw : Rewrites d d') :
    Placing p d₀ P a S node stack d' :=
  h.document (h.grafts.rewrites hw) (Nat.le_of_eq hw.size.symm) fun e _ he => (hw.parent e).trans he

theorem of_nodes (h : Placing p d₀ P a S node stack d) {d' : Document} (hn : d'.nodes = d.nodes) :
    Placing p d₀ P a S node stack d' :=
  h.document (h.grafts.of_nodes hn) (Nat.le_of_eq (congrArg Array.size hn).symm)
    fun _ _ he => (parent?_of_nodes hn).trans he

/-- Nodes grafted under an open element keep a mount in progress. -/
theorem inner (h : Placing p d₀ P a S node stack d) {q : NodeId} (hq : some q ∈ stack)
    {b : Option NodeId} {ys : List NodeId} {d' : Document} (hg : Grafts d q b ys d') :
    Placing p d₀ P a S node stack d' :=
  h.document (h.grafts.trans_inner (h.open_new q hq).1 hg) hg.size_le
    fun e he hpe => (hg.parent_old e (h.open_new e he).2.1).trans hpe

/-- Nodes grafted at the target after the roots so far, as the roots of a slot not taken before,
keep a mount in progress once the slot is filled and made a root. -/
theorem target (h : Placing p d₀ P a S node stack d) {ys : List NodeId} {d' : Document}
    (hg : Grafts d P a ys d') {s : Nat} (hs : s ∉ S) (hlt : s < p.slotCount) {x : Slot}
    (hx : x.roots = ys) :
    Placing p d₀ P a (s :: S) ((node.setSlot s x).addRoot (.slot s)) stack d' where
  grafts := by
    rw [Mounted.roots_addRoot, Mounted.roots_setSlot (fun hr => hs (h.refs s hr)),
      Mounted.resolve_slot_setSlot (h.size ▸ hlt), hx]
    exact h.grafts.trans hg
  size := by rw [Mounted.slots_addRoot, Mounted.slots_setSlot, Array.size_setIfInBounds, h.size]
  refs t ht := by
    simp only [Mounted.rootRefs_addRoot, Mounted.rootRefs_setSlot, List.mem_append,
      List.mem_singleton, RootRef.slot.injEq] at ht
    rcases ht with ht | rfl
    · exact List.mem_cons_of_mem _ (h.refs t ht)
    · exact List.mem_cons_self ..
  open_new e he := by
    obtain ⟨h₁, h₂, h₃⟩ := h.open_new e he
    exact ⟨h₁, Nat.lt_of_lt_of_le h₂ hg.size_le, (hg.parent_old e h₂).trans h₃⟩
  open_nodup := h.open_nodup

/-- Opening an element pushes a node that is newer than every other. -/
theorem createElement (h : Placing p d₀ P a S node stack d) (tag : String) :
    Placing p d₀ P a S node (some d.nodes.size :: stack) (d.createElement tag).2 where
  grafts := h.grafts.createElement tag
  size := h.size
  refs := h.refs
  open_new e he := by
    rw [size_createElement, parent?_createElement]
    rcases List.mem_cons.1 he with he | he
    · cases he
      exact ⟨h.grafts.size_le, Nat.lt_succ_self _, Document.parent?_eq_none_of_size_le (Nat.le_refl _)⟩
    · obtain ⟨h₁, h₂, h₃⟩ := h.open_new e he
      exact ⟨h₁, Nat.lt_succ_of_lt h₂, h₃⟩
  open_nodup := by
    simp only [List.filterMap_cons, id]
    refine List.nodup_cons.2 ⟨fun hin => ?_, h.open_nodup⟩
    obtain ⟨o, ho, hoe⟩ := List.mem_filterMap.1 hin
    subst hoe
    exact Nat.lt_irrefl _ (h.open_new _ ho).2.1

theorem createText (h : Placing p d₀ P a S node stack d) (text : String) :
    Placing p d₀ P a S node stack (d.createText text).2 :=
  h.document (h.grafts.createText text) (by simp) fun _ _ he => by rw [parent?_createText, he]

theorem setTextContent (h : Placing p d₀ P a S node stack d) {e : NodeId} (he : some e ∈ stack)
    (text : String) : Placing p d₀ P a S node stack (d.setTextContent e text) :=
  h.document (h.grafts.setTextContent (h.open_new e he).1 text) (size_le_setTextContent d e text)
    fun e' he' hpe => parent?_setTextContent_of_none text (h.open_new e' he').2.1 hpe

/-- Closing the innermost construct keeps a mount in progress. -/
theorem pop {o : Option NodeId} (h : Placing p d₀ P a S node (o :: stack) d) :
    Placing p d₀ P a S node stack d where
  grafts := h.grafts
  size := h.size
  refs := h.refs
  open_new e he := h.open_new e (List.mem_cons_of_mem _ he)
  open_nodup := by
    cases o with
    | none => simpa using h.open_nodup
    | some e => exact (List.nodup_cons.1 (by simpa using h.open_nodup)).2

theorem pushFragment (h : Placing p d₀ P a S node stack d) :
    Placing p d₀ P a S node (none :: stack) d where
  grafts := h.grafts
  size := h.size
  refs := h.refs
  open_new e he := h.open_new e (by simpa using he)
  open_nodup := by simpa using h.open_nodup

theorem not_mem_of_head {e : NodeId} {rest : List (Option NodeId)}
    (h : Placing p d₀ P a S node (some e :: rest) d) : some e ∉ rest := by
  intro he
  have hn := h.open_nodup
  simp only [List.filterMap_cons, id] at hn
  exact (List.nodup_cons.1 hn).1 (List.mem_filterMap.2 ⟨_, he, rfl⟩)

theorem size_not_open (h : Placing p d₀ P a S node stack d) : some d.nodes.size ∉ stack :=
  fun hin => Nat.lt_irrefl _ (h.open_new _ hin).2.1

theorem attach_inner (h : Placing p d₀ P a S node stack d) {q c : NodeId} (hq : some q ∈ stack)
    (hc : d₀.nodes.size ≤ c) (hcs : c < d.nodes.size) (hpc : d.parent? c = none)
    (hcn : some c ∉ stack) (b : Option NodeId) : Placing p d₀ P a S node stack (d.attach q c b) :=
  h.document (h.grafts.attach_inner (h.open_new q hq).1 hc hcs hpc b) (by simp) fun e he hpe => by
    rw [parent?_attach b hcs, if_neg fun (hec : e = c) => hcn (hec ▸ he), hpe]

/-- Attaching a new node that has no parent and is not open at the target makes it the last
root. -/
theorem attach_target (h : Placing p d₀ P a S node stack d) {c : NodeId}
    (hc : d₀.nodes.size ≤ c) (hcs : c < d.nodes.size) (hpc : d.parent? c = none)
    (hcn : some c ∉ stack) : Placing p d₀ P a S (node.addRoot (.host c)) stack (d.attach P c a) where
  grafts := by
    rw [Mounted.roots_addRoot]
    exact h.grafts.attach_target hc hcs hpc
  size := h.size
  refs s hs := by
    simp only [Mounted.rootRefs_addRoot, List.mem_append, List.mem_singleton, reduceCtorEq,
      or_false] at hs
    exact h.refs s hs
  open_new e he := by
    obtain ⟨h₁, h₂, h₃⟩ := h.open_new e he
    exact ⟨h₁, by simpa using h₂,
      by rw [parent?_attach a hcs, if_neg fun (hec : e = c) => hcn (hec ▸ he), h₃]⟩
  open_nodup := h.open_nodup

end Placing

/-- Placing a new node that has no parent and is not open: under the innermost open element, or
at the target as the last root. -/
theorem place_placing {node' : Mounted} {c : NodeId} {r r' : Renderer}
    (h : (place stack node ⟨P, a⟩ c).run r = .ok node' r')
    (hinv : Placing p d₀ P a S node stack r.document) (hc : d₀.nodes.size ≤ c)
    (hcs : c < r.document.nodes.size) (hpc : r.document.parent? c = none) (hcn : some c ∉ stack) :
    Placing p d₀ P a S node' stack r'.document := by
  unfold place at h
  split at h
  · rename_i q hq
    obtain ⟨u, r₁, h₁, h₂⟩ := run_bind_ok h
    obtain ⟨rfl, rfl⟩ := run_pure_ok h₂
    rw [run_doc_ok h₁]
    exact hinv.attach_inner (mem_of_enclosing hq) hc hcs hpc hcn none
  · obtain ⟨u, r₁, h₁, h₂⟩ := run_bind_ok h
    obtain ⟨rfl, rfl⟩ := run_pure_ok h₂
    rw [run_doc_ok h₁]
    exact hinv.attach_target hc hcs hpc hcn

/-! ## Mounting sub-programs -/

/-- A mount function grafts the roots of every well-formed program it mounts at the target it
is given. -/
def MountFn.Places (f : MountFn) : Prop :=
  ∀ {site : List Nat} {q : Program} {env : Env} {t : Target} {r r' : Renderer} {n : Mounted},
    (f site q env t).run r = .ok n r' → q.WellFormed → t.parent < r.document.nodes.size →
    (∀ b ∈ t.anchor, b < r.document.nodes.size) → Grafts r.document t.parent t.anchor n.roots r'.document

variable {f : MountFn} {site : List Nat} {q : Program} {env : Env} {pos : Target}
  {r r' : Renderer}

/-- A branch is grafted at its place, and a branch without roots is marked there by one new
empty text node: the place of a branch is never empty. -/
theorem mountBranch_places (hf : MountFn.Places f) (hq : q.WellFormed)
    (hP : pos.parent < r.document.nodes.size) (ha : ∀ b ∈ pos.anchor, b < r.document.nodes.size)
    {b : Mounted} {m : Option NodeId} (h : (mountBranch f site q env pos).run r = .ok (b, m) r')
    (decision : Bool) :
    ∃ r₁, (f site q env pos).run r = .ok b r₁ ∧
      Grafts r.document pos.parent pos.anchor (Slot.ternary decision b m pos.parent).roots
        r'.document ∧
      (Slot.ternary decision b m pos.parent).roots ≠ [] ∧
      ∀ x ∈ m, b.roots = [] ∧ (r'.document.get? x).map NodeData.kind = some (.text "") := by
  unfold mountBranch at h
  obtain ⟨branch, r₁, h₁, h₂⟩ := run_bind_ok h
  have hg := hf h₁ hq hP ha
  split at h₂
  · -- the branch has roots: they stand for it
    rename_i hroot
    obtain ⟨hres, rfl⟩ := run_pure_ok h₂
    cases hres
    refine ⟨_, h₁, hg, ?_, fun x hx => absurd hx (by simp)⟩
    simpa [Slot.roots, Mounted.firstRoot?] using hroot
  · -- no roots: a new empty text node marks the place
    rename_i hroot
    have hnil : branch.roots = [] := by
      simpa [Mounted.firstRoot?, List.head?_eq_none_iff] using hroot
    obtain ⟨x, r₂, h₃, h₄⟩ := run_bind_ok h₂
    obtain ⟨rfl, rfl⟩ := run_docWith_ok h₃
    obtain ⟨u, r₃, h₅, h₆⟩ := run_bind_ok h₄
    obtain ⟨hres, rfl⟩ := run_pure_ok h₆
    cases hres
    rw [run_doc_ok h₅]
    have hg₁ := (hg.createText "")
    rw [hnil] at hg₁
    refine ⟨_, h₁, ?_, by simp [Slot.roots], fun y hy => ⟨hnil, ?_⟩⟩
    · have hg₂ := hg₁.attach_target (c := r₁.document.nodes.size) hg.size_le (by simp)
        (by simp [Document.parent?_eq_none_of_size_le])
      simpa [Slot.roots, insertBefore] using hg₂
    · cases hy
      simp only [insertBefore, kind_attach, fst_createText, kind_createText_self]

theorem keepsDocument_factory (props : Value) (s : Script) : KeepsDocument (Bind.factory props s) :=
  .bind (keepsDocument_script _ _) fun _ => .pure _

/-- A component's node is grafted at its place. -/
theorem mountComponent_places (hf : MountFn.Places f) {spec : ComponentSpec Program}
    (hq : spec.body.WellFormed) (hP : pos.parent < r.document.nodes.size)
    (ha : ∀ b ∈ pos.anchor, b < r.document.nodes.size) {slot : Slot}
    (h : (mountComponent f site spec env pos).run r = .ok slot r') :
    Grafts r.document pos.parent pos.anchor slot.roots r'.document := by
  unfold mountComponent at h
  obtain ⟨x, r₁, h₁, h₂⟩ := run_bind_ok h
  have hd₁ := (keepsDocument_factory _ _).ok h₁
  obtain ⟨state, r₂, h₃, h₄⟩ := run_bind_ok h₂
  have hd₂ := (keepsDocument_orBinding _ _).ok h₃
  obtain ⟨r₀, r₃, h₅, h₆⟩ := run_bind_ok h₄
  cases h₅
  obtain ⟨u, r₄, h₇, h₈⟩ := run_bind_ok h₆
  cases h₇
  obtain ⟨n, r₅, h₉, h₁₀⟩ := run_bind_ok h₈
  obtain ⟨u', r₆, h₁₁, h₁₂⟩ := run_bind_ok h₁₀
  cases h₁₁
  obtain ⟨rfl, rfl⟩ := run_pure_ok h₁₂
  have hP₂ : pos.parent < r₂.document.nodes.size := by rw [hd₂, hd₁]; exact hP
  have ha₂ : ∀ b ∈ pos.anchor, b < r₂.document.nodes.size := by rw [hd₂, hd₁]; exact ha
  have hg := hf h₉ hq hP₂ ha₂
  simpa [Slot.roots, hd₁, hd₂] using hg

/-- A loop's items are grafted under its element one after another, last of all. -/
theorem mountLoop_places (hf : MountFn.Places f) {spec : LoopSpec Program}
    (hq : spec.template.WellFormed) {parent : NodeId} (hP : parent < r.document.nodes.size)
    {items : List (LoopItem Mounted)} (h : (mountLoop f site spec env parent).run r = .ok items r') :
    Grafts r.document parent none (items.flatMap (·.node.roots)) r'.document := by
  unfold mountLoop at h
  obtain ⟨ps, r₁, h₁, h₂⟩ := run_bind_ok h
  rw [← (keepsDocument_project env spec).ok h₁] at hP ⊢
  clear h h₁
  induction ps generalizing r₁ items with
  | nil =>
    obtain ⟨rfl, rfl⟩ := run_pure_ok h₂
    exact Grafts.refl hP fun _ hb => absurd hb (by simp)
  | cons pr ps ih =>
    rw [List.mapM_cons] at h₂
    obtain ⟨it, r₂, h₃, h₄⟩ := run_bind_ok h₂
    obtain ⟨its, r₃, h₅, h₆⟩ := run_bind_ok h₄
    obtain ⟨rfl, rfl⟩ := run_pure_ok h₆
    unfold mountItem at h₃
    obtain ⟨n, r₄, h₇, h₈⟩ := run_bind_ok h₃
    obtain ⟨rfl, rfl⟩ := run_pure_ok h₈
    have hg := hf h₇ hq hP fun _ hb => absurd hb (by simp)
    exact hg.trans (ih _ (Nat.lt_of_lt_of_le hP hg.size_le) h₅)

/-! ## Each instruction -/

/-- An instruction of a well-formed program keeps a mount in progress. Nodes are attached only
when new and without a parent; a sub-program mounted where no element is open is grafted at the
target after the roots so far and its slot becomes a root, and one mounted inside an element is
grafted under that element. -/
theorem mountInstr_placing {sub : MountFn} (hsub : MountFn.Places sub) {site : List Nat}
    {env : Env} {node' : Mounted} {stack' : List (Option NodeId)} {i : Instruction} {k : Nat}
    {pre suf : List Instruction} (hp : p.WellFormed) (he : p.instructions = pre ++ i :: suf)
    (h : (mountInstr sub site env ⟨P, a⟩ node stack i k).run r = .ok (node', stack') r')
    (hinv : Placing p d₀ P a (({} : Layout).pushAll pre).slots node stack r.document) :
    Placing p d₀ P a (({} : Layout).pushAll (pre ++ [i])).slots node' stack' r'.document := by
  have hadm := hp.admissible he
  have hmem : i ∈ p.instructions := by simp [he]
  rw [Layout.pushAll_append, Layout.pushAll_singleton]
  cases i with
  | openElement tag =>
    obtain ⟨rfl, rfl, rfl⟩ := mountInstr_openElement_ok h
    exact hinv.createElement tag.name
  | closeElement =>
    obtain ⟨e, rest, rfl, h₁, rfl⟩ := mountInstr_closeElement_ok h
    obtain ⟨he₁, he₂, he₃⟩ := hinv.open_new e (List.mem_cons_self ..)
    exact place_placing h₁ hinv.pop he₁ he₂ he₃ hinv.not_mem_of_head
  | openFragment =>
    obtain ⟨rfl, rfl, rfl⟩ := mountInstr_openFragment_ok h
    exact hinv.pushFragment
  | closeFragment =>
    obtain ⟨rfl, rfl, rfl⟩ := mountInstr_closeFragment_ok h
    rcases stack with _ | ⟨o, rest⟩
    · exact hinv
    · exact hinv.pop
  | staticProperty prop v =>
    obtain ⟨e, rest, rfl, h₁, rfl, rfl⟩ := mountInstr_staticProperty_ok h
    exact hinv.rewrites (writeProperty_rewrites h₁)
  | staticAttribute name v =>
    obtain ⟨e, rest, rfl, h₁, rfl, rfl⟩ := mountInstr_staticAttribute_ok h
    rw [run_doc_ok h₁]
    exact hinv.rewrites (rewrites_setAttribute _ e name v)
  | staticText t =>
    obtain ⟨e, rest, rfl, h₁, rfl, rfl⟩ := mountInstr_staticText_ok h
    rw [run_doc_ok h₁]
    exact hinv.setTextContent (List.mem_cons_self ..) t
  | staticTextNode t =>
    obtain ⟨h₁, rfl⟩ := mountInstr_staticTextNode_ok h
    exact place_placing h₁ (hinv.createText t) hinv.grafts.size_le (by simp)
      (by simp [Document.parent?_eq_none_of_size_le]) hinv.size_not_open
  | dynamicProperty prop b s =>
    obtain ⟨e, rest, v, r₁, rfl, -, hd₁, h₁, rfl, rfl⟩ := mountInstr_dynamicProperty_ok h
    have hw := writeProperty_rewrites h₁
    rw [hd₁] at hw
    exact (hinv.rewrites hw).setSlot (hadm.slot_new s rfl) _
  | dynamicAttribute name b s =>
    obtain ⟨e, rest, v, r₁, rfl, -, hd₁, h₁, rfl, rfl⟩ := mountInstr_dynamicAttribute_ok h
    rw [run_doc_ok h₁, hd₁]
    exact (hinv.rewrites (rewrites_setAttribute _ e name _)).setSlot (hadm.slot_new s rfl) _
  | dynamicText b s =>
    obtain ⟨e, rest, v, r₁, rfl, -, hd₁, h₁, rfl, rfl⟩ := mountInstr_dynamicText_ok h
    rw [run_doc_ok h₁, hd₁]
    exact (hinv.setTextContent (List.mem_cons_self ..) _).setSlot (hadm.slot_new s rfl) _
  | dynamicTextNode b s =>
    obtain ⟨v, r₁, n, -, hd₁, h₁, rfl, rfl⟩ := mountInstr_dynamicTextNode_ok h
    rw [← hd₁] at hinv
    exact (place_placing h₁ (hinv.createText _) hinv.grafts.size_le (by simp)
      (by simp [Document.parent?_eq_none_of_size_le]) hinv.size_not_open).setSlot
      (hadm.slot_new s rfl) _
  | ternary t =>
    have hbranch : ∀ c : Bool, (if c = true then t.consequent else t.alternate).WellFormed :=
      fun c => by cases c <;> exact hp.of_mem_programs hmem (by simp [Instruction.programs])
    obtain ⟨x, r₁, decision, r₂, b, m, h₁, h₃, h₅, rfl, hs⟩ := mountInstr_ternary_ok h
    subst stack'
    have hd : r₂.document = r.document :=
      ((keepsDocument_orBinding _ _).ok h₃).trans ((Bind.keepsDocument_test env t.test).ok h₁)
    rw [← hd] at hinv
    cases hq : enclosing stack with
    | none =>
      -- no element is open: the branch is grafted at the target and its slot becomes a root
      simp only [position, hq] at h₅ ⊢
      obtain ⟨-, -, hg, -⟩ := mountBranch_places hsub (hbranch decision)
        hinv.grafts.parent_lt_size hinv.grafts.anchor_lt_size h₅ decision
      rw [if_pos trivial]
      exact hinv.target hg (hadm.slot_new t.slot rfl) (hadm.slot_lt t.slot rfl) rfl
    | some e =>
      simp only [position, hq] at h₅ ⊢
      have he := mem_of_enclosing hq
      obtain ⟨-, -, hg, -⟩ := mountBranch_places hsub (hbranch decision)
        (hinv.open_new e he).2.1 (fun _ hb => absurd hb (by simp)) h₅ decision
      rw [if_neg Bool.false_ne_true]
      exact (hinv.inner he hg).setSlot (hadm.slot_new t.slot rfl) _
  | loop l =>
    obtain ⟨e, items, hq, h₁, rfl, rfl⟩ := mountInstr_loop_ok h
    have he := mem_of_enclosing hq
    have hg := mountLoop_places hsub (hp.of_mem_programs hmem (by simp [Instruction.programs]))
      (hinv.open_new _ he).2.1 h₁
    exact (hinv.inner he hg).setSlot (hadm.slot_new l.slot rfl) _
  | component c =>
    have hbody : c.body.WellFormed := hp.of_mem_programs hmem (by simp [Instruction.programs])
    obtain ⟨x, h₁, rfl, hs⟩ := mountInstr_component_ok h
    subst stack'
    cases hq : enclosing stack with
    | none =>
      simp only [position, hq] at h₁ ⊢
      have hg := mountComponent_places hsub hbody hinv.grafts.parent_lt_size
        hinv.grafts.anchor_lt_size h₁
      rw [if_pos trivial]
      exact hinv.target hg (hadm.slot_new c.slot rfl) (hadm.slot_lt c.slot rfl) rfl
    | some e =>
      simp only [position, hq] at h₁ ⊢
      have he := mem_of_enclosing hq
      have hg := mountComponent_places hsub hbody (hinv.open_new e he).2.1
        (fun _ hb => absurd hb (by simp)) h₁
      rw [if_neg Bool.false_ne_true]
      exact (hinv.inner he hg).setSlot (hadm.slot_new c.slot rfl) _
  | didMount cb =>
    obtain ⟨h₁, rfl, rfl⟩ := mountInstr_didMount_ok h
    rw [(keepsDocument_defer _).ok h₁]
    exact hinv
  | didUpdate cb =>
    obtain ⟨rfl, rfl, rfl⟩ := mountInstr_didUpdate_ok h
    exact hinv
  | event name handler s refresh =>
    obtain ⟨e, rest, rfl, h₁, rfl, rfl⟩ := mountInstr_event_ok h
    rcases register_rewrites h₁ with hd | hw
    · rw [hd]
      exact hinv.setSlot (hadm.slot_new s rfl) _
    · exact (hinv.rewrites hw).setSlot (hadm.slot_new s rfl) _

/-- Mounting a well-formed program at a target grafts its roots there: under the target's parent,
together before the anchor, in the order of the node's roots. Every other node the document had
keeps its parent and its children. -/
theorem mount_places : ∀ fuel, MountFn.Places (mount fuel)
  | 0 => fun h _ _ _ => by cases h
  | fuel + 1 => fun h hq hP ha => by
    rename_i site q env t r r' n
    have ih : MountFn.Places fun s p e t => mount fuel s p e t := mount_places fuel
    rw [mount_succ, RenderM.run_get_bind] at h
    obtain ⟨acc, r₁, h₁, h₂⟩ := run_bind_ok h
    obtain ⟨u, r₂, h₃, h₄⟩ := run_bind_ok h₂
    obtain ⟨rfl, rfl⟩ := run_pure_ok h₄
    rw [(keepsDocument_installPlan site _).ok h₃]
    have hloop := run_forIn_ok (fun rest (acc : Mounted × List (Option NodeId)) s =>
        ∃ pre, q.instructions = pre ++ rest.map Prod.fst ∧
          Placing q r.document t.parent t.anchor (({} : Layout).pushAll pre).slots acc.1 acc.2
            s.document) ?_ ?_ ?_ h₁
    · obtain ⟨pre, -, hpl⟩ := hloop
      exact hpl.grafts
    · rintro ⟨instr, k⟩ rest ⟨node₀, stack₀⟩ s ⟨node₁, stack₁⟩ s' ⟨pre, hpre, hpl⟩ hrun
      obtain ⟨res, s₁, hm, hy⟩ := run_bind_ok hrun
      obtain ⟨hres, rfl⟩ := run_pure_ok hy
      cases hres
      have he : q.instructions = pre ++ instr :: rest.map Prod.fst := by simpa using hpre
      exact ⟨pre ++ [instr], by simp [hpre], mountInstr_placing ih hq he hm hpl⟩
    · rintro ⟨instr, k⟩ rest _ s _ s' _ hrun
      obtain ⟨res, s₁, hm, hy⟩ := run_bind_ok hrun
      cases (run_pure_ok hy).1
    · exact ⟨[], by simp [List.zipIdx_map_fst], Placing.start hP ha site q⟩

end Pass

end Canopy
