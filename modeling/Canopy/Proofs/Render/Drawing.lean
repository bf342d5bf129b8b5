import Canopy.Proofs.Render.Described
import Canopy.Proofs.Render.Fresh
import Canopy.Proofs.Render.Grafting
import Canopy.Proofs.Render.Growth

/-!
# A mount in progress and the sketch of what its program describes

A mount in progress and a sketch that has read the same instructions agree (`Drawing`): each
open element of the mount shows the tree its open element in the sketch would be if closed now,
the roots show the trees finished at the top, each value slot holds the value the sketch
recorded, and the next instance id is the renderer's next one. This file proves what each
operation of a mount does to that agreement: opening and closing elements and fragments, writes
to the innermost open element, text nodes placed, and sub-programs grafted where the mount
places nodes (`Drawing.graft`, `Drawing.fill`).

What a node shows changes only when a node below it changes. A mount changes the kind or the
children of only three kinds of nodes: the nodes it creates, the open elements it writes to or
attaches under, and the target's parent. The target's parent is older than every node the mount
draws, and an open element has no parent, so it is below no node but itself: what every other
drawn node shows is kept (`Placing.keeps`).
-/

namespace Canopy

/-! ## What a mount keeps -/

namespace Renderer

/-- What the trees a program describes depend on, kept from `r` to `r'`: the procedures, the
options and the state of every instance, new instances following. -/
structure Steady (r r' : Renderer) : Prop where
  procs : r'.procs = r.procs
  config : r'.config = r.config
  states : r.states <+: r'.states

namespace Steady

variable {r r' r'' : Renderer}

@[refl] theorem refl (r : Renderer) : r.Steady r := ⟨rfl, rfl, List.prefix_refl _⟩

theorem trans (h₁ : r.Steady r') (h₂ : r'.Steady r'') : r.Steady r'' :=
  ⟨h₂.procs.trans h₁.procs, h₂.config.trans h₁.config, h₁.states.trans h₂.states⟩

theorem of_effects (h : r' = { r with effects := r'.effects }) : r.Steady r' :=
  ⟨by rw [h], by rw [h], by rw [h]; exact List.prefix_refl _⟩

theorem of_instances (hp : r'.procs = r.procs) (hc : r'.config = r.config)
    (hi : r'.instances = r.instances) : r.Steady r' :=
  ⟨hp, hc, by simp [Renderer.states, hi]⟩

theorem size_le (h : r.Steady r') : r.instances.size ≤ r'.instances.size := by
  have hl := h.states.length_le
  simpa [Renderer.states] using hl

theorem instance?_state (r : Renderer) (id : InstanceId) :
    (r.instance? id).map (·.state) = r.states[id.raw - 1]? := by
  simp [instance?, Renderer.states]

/-- A script's frame under an env whose owner the renderer has is kept. -/
theorem frameOf (h : r.Steady r') {env : Env} (hown : ∀ id ∈ env.owner, (r.instance? id).isSome) :
    r'.frameOf env = r.frameOf env := by
  unfold Renderer.frameOf
  cases ho : env.owner with
  | none => rfl
  | some id =>
    have hlt : id.raw - 1 < r.states.length := by
      have := hown id ho
      simpa [instance?, Renderer.states, Array.getElem?_eq_some_iff, Option.isSome_iff_exists]
        using this
    obtain ⟨t, ht⟩ := h.states
    simp only [Option.bind_some, instance?_state, ← ht, List.getElem?_append_left hlt]

/-- Pushing an instance keeps the renderer steady. -/
theorem push (r : Renderer) (inst : Instance) :
    r.Steady { r with instances := r.instances.push inst } :=
  ⟨rfl, rfl, by simp [Renderer.states]⟩

end Steady

end Renderer

namespace Document

/-- Every node of `d` is in `d'` what it was. -/
def KindsKept (d d' : Document) : Prop :=
  ∀ y < d.nodes.size, (d'.get? y).map NodeData.kind = (d.get? y).map NodeData.kind

namespace KindsKept

variable {d₁ d₂ d₃ : Document}

theorem refl (d : Document) : d.KindsKept d := fun _ _ => rfl

theorem trans (h₁ : d₁.KindsKept d₂) (h₂ : d₂.KindsKept d₃) (hs : d₁.nodes.size ≤ d₂.nodes.size) :
    d₁.KindsKept d₃ :=
  fun y hy => (h₂ y (Nat.lt_of_lt_of_le hy hs)).trans (h₁ y hy)

/-- A change that keeps every node of the arena but `q`, where `q` is not one of the first `s`,
keeps those. -/
theorem of_sameAt {s q : NodeId} (h : ∀ y, y ≠ q → SameAt d₁ d₂ y) (hq : s ≤ q)
    (hs : s ≤ d₁.nodes.size) : ∀ y < s, (d₂.get? y).map NodeData.kind = (d₁.get? y).map NodeData.kind :=
  fun y hy => (h y (Nat.ne_of_lt (Nat.lt_of_lt_of_le hy hq)) (Nat.lt_of_lt_of_le hy hs)).1

end KindsKept

theorem Grafts.sameAt {d d' : Document} {Q : NodeId} {b : Option NodeId} {ys : List NodeId}
    (hg : Grafts d Q b ys d') (hk : d.KindsKept d') : ∀ y, y ≠ Q → SameAt d d' y :=
  fun y hy hlt => ⟨hk y hlt, hg.children_old y hlt hy⟩

end Document

/-! ## Open constructs and the sketch -/

/-- An open construct of a mount shows the one of a sketch: an open element shows the tree the
sketch's element would be if closed now, and a fragment stands for a fragment. -/
def Document.Shown (d : Document) : Option NodeId → Option Open → Prop
  | some e, some o => d.Shows e o.tree
  | none, none => True
  | _, _ => False

namespace Document

variable {d d' : Document} {stack : List (Option NodeId)} {ks : List (Option Open)}

theorem shown_keep (hs : List.Forall₂ d.Shown stack ks)
    (hkeep : ∀ e, some e ∈ stack → ∀ t, d.Shows e t → d'.Shows e t) :
    List.Forall₂ d'.Shown stack ks := by
  induction hs with
  | nil => exact .nil
  | @cons x o xs os hx _ ih =>
    refine .cons ?_ (ih fun e he t ht => hkeep e (List.mem_cons_of_mem _ he) t ht)
    cases x with
    | none => cases o <;> simp_all [Shown]
    | some e =>
      cases o with
      | none => simp [Shown] at hx
      | some o => exact hkeep e List.mem_cons_self _ hx

/-- Where no element is open the sketch has none either. -/
theorem addInto_eq_none (hs : List.Forall₂ d.Shown stack ks) (h : Pass.enclosing stack = none)
    (ts : List Tree) : Sketch.addInto ts ks = none := by
  induction hs with
  | nil => rfl
  | @cons x o xs os hx _ ih =>
    cases x with
    | none =>
      cases o with
      | none => simp [Sketch.addInto, ih (by simpa [Pass.enclosing] using h)]
      | some o => simp [Shown] at hx
    | some e => simp [Pass.enclosing] at h

/-- Where an element is open the sketch has the matching one, and trees added to it are what the
element shows once new children showing them are added last. -/
theorem addInto_of_enclosing (hs : List.Forall₂ d.Shown stack ks)
    (hnd : (stack.filterMap id).Nodup) {q : NodeId} (h : Pass.enclosing stack = some q)
    (hkeep : ∀ e, some e ∈ stack → e ≠ q → ∀ t, d.Shows e t → d'.Shows e t) {ts : List Tree}
    (hq : ∀ o : Open, d.Shows q o.tree → d'.Shows q { o with children := o.children ++ ts }.tree) :
    ∃ ks', Sketch.addInto ts ks = some ks' ∧ List.Forall₂ d'.Shown stack ks' := by
  induction hs with
  | nil => simp [Pass.enclosing] at h
  | @cons x o xs os hx hrest ih =>
    cases x with
    | none =>
      cases o with
      | none =>
        obtain ⟨ks', hks', hrel⟩ := ih (by simpa using hnd) (by simpa [Pass.enclosing] using h)
          fun e he => hkeep e (List.mem_cons_of_mem _ he)
        exact ⟨none :: ks', by simp [Sketch.addInto, hks'], .cons trivial hrel⟩
      | some o => simp [Shown] at hx
    | some e =>
      cases o with
      | none => simp [Shown] at hx
      | some o =>
        obtain rfl : e = q := by simpa [Pass.enclosing] using h
        have hnot : some e ∉ xs := by
          simp only [List.filterMap_cons, id, List.nodup_cons] at hnd
          exact fun hin => hnd.1 (List.mem_filterMap.2 ⟨_, hin, rfl⟩)
        refine ⟨_, rfl, .cons (hq o hx) (shown_keep hrest fun e' he' t ht => ?_)⟩
        exact hkeep e' (List.mem_cons_of_mem _ he') (fun hq' => hnot (hq' ▸ he')) t ht

/-- An element is open in the sketch where one is open in the mount. -/
theorem inElement_of_enclosing (hs : List.Forall₂ d.Shown stack ks) {q : NodeId}
    (h : Pass.enclosing stack = some q) : ks.any Option.isSome = true := by
  induction hs with
  | nil => simp [Pass.enclosing] at h
  | @cons x o xs os hx _ ih =>
    cases x with
    | none =>
      cases o with
      | none => simp [ih (by simpa [Pass.enclosing] using h)]
      | some o => simp [Shown] at hx
    | some e =>
      cases o with
      | none => simp [Shown] at hx
      | some o => simp

end Document

/-! ## What the document's writes do to an open element -/

namespace Document

variable {d : Document} {e y : NodeId} {o : Open}

theorem sameAt_write (f) (op : DocOp) (hy : y ≠ e) : SameAt d ((d.modifyElement e f).record op) y :=
  sameAt_of_get? fun _ => by
    change (d.modifyElement e f).get? y = d.get? y
    simp [modifyElement, get?_modifyNode, Ne.symm hy]

/-- A write to an open element's class, style or attributes is the sketch's. -/
theorem Shows.write (hf : d.Forest) (h : d.Shows e o.tree) (f) (op : DocOp) :
    ((d.modifyElement e f).record op).Shows e
      { o with className := (f o.className o.style o.attributes).1,
               style := (f o.className o.style o.attributes).2.1,
               attributes := (f o.className o.style o.attributes).2.2 }.tree := by
  have hk := (shows_element_iff_kind.1 h).1
  refine h.rekind hf (fun y hy => sameAt_write f op hy) ?_ ?_
  · simpa [get?] using kind_modifyElement_self f hk
  · simp [children_of_nodes (nodes_record _ _), children_modifyElement]

theorem Shows.setAttribute (hf : d.Forest) (h : d.Shows e o.tree) (name value : String) :
    (d.setAttribute e name value).Shows e (o.setAttribute name value).tree :=
  h.write hf _ _

theorem Shows.setProperty (hf : d.Forest) (h : d.Shows e o.tree) (p : Property) (value : String) :
    match p with
    | .className => (d.setClassName e value).Shows e (o.setProperty p value).tree
    | .id => (d.setAttribute e "id" value).Shows e (o.setProperty p value).tree
    | .style => (d.setStyle e value).Shows e (o.setProperty p value).tree := by
  cases p <;> exact h.write hf _ _

theorem Shows.not_text (h : d.Shows e o.tree) : ∀ nd, d.get? e = some nd → ∀ t, nd.kind ≠ .text t := by
  intro nd hget t ht
  have hk := (shows_element_iff_kind.1 h).1
  rw [hget] at hk
  simp [ht] at hk

/-- Writing an open element's text content is the sketch's. -/
theorem Shows.setTextContent (h : d.Shows e o.tree) (text : String) :
    (d.setTextContent e text).Shows e (o.setText text).tree := by
  have hk := (shows_element_iff_kind.1 h).1
  obtain ⟨nd, hget, -⟩ := Option.map_eq_some_iff.1 hk
  have hn := h.not_text
  obtain ⟨hch, hnew⟩ := setTextContent_element text hget (hn nd hget)
  change (d.setTextContent e text).Shows e (.element o.tag o.className o.style o.attributes
    (if text.isEmpty then [] else [.text text]))
  rw [shows_element_iff_kind]
  refine ⟨(kind_setTextContent text hn (lt_size_of_get? hget)).trans hk, ?_⟩
  rw [hch]
  by_cases he : text.isEmpty
  · simp only [he, if_true]
    exact .nil
  · simp only [he, if_false, Bool.false_eq_true]
    exact .cons (shows_text_iff_kind.2 (hnew (by simpa using he))) .nil

end Document

/-! ## Slots -/

namespace Mounted

variable {n : Mounted}

/-- A leaf put in a slot is read back from it, and the other slots read as before; the value is
recorded first among the values. -/
theorem lookup_setLeaf {values : List (Nat × Value)}
    (hv : ∀ s e v, n.slot? s = some (.leaf e v) → values.lookup s = some v) (i : Nat) (h : NodeId)
    (w : Value) : ∀ s e v, (n.setSlot i (.leaf h w)).slot? s = some (.leaf e v) →
      ((i, w) :: values).lookup s = some v := by
  intro s e v hs
  rw [slot?_setSlot] at hs
  by_cases hi : i = s
  · subst hi
    by_cases hlt : i < n.slots.size
    · rw [if_pos ⟨rfl, hlt⟩] at hs
      cases hs
      simp
    · rw [if_neg fun h => hlt h.2] at hs
      simp [slot?, Array.getElem?_eq_none (Nat.le_of_not_lt hlt)] at hs
  · rw [if_neg fun h => hi h.1] at hs
    have hne : (s == i) = false := beq_eq_false_iff_ne.2 (Ne.symm hi)
    simp only [List.lookup, hne, hv s e v hs]

theorem leaf_of_setSlot {i : Nat} {x : Slot} (hx : ∀ e v, x ≠ .leaf e v) {s : Nat} {e : NodeId}
    {v : Value} (hs : (n.setSlot i x).slot? s = some (.leaf e v)) : n.slot? s = some (.leaf e v) := by
  rw [slot?_setSlot] at hs
  split at hs
  · cases hs
    exact absurd rfl (hx e v)
  · exact hs

end Mounted

/-! ## What a program's functions give -/

namespace Renderer.Steady

variable {r r' : Renderer}

/-- An instance the renderer has stays. -/
theorem owner (h : r.Steady r') {env : Env} (hown : ∀ id ∈ env.owner, (r.instance? id).isSome) :
    ∀ id ∈ env.owner, (r'.instance? id).isSome := by
  intro id hid
  have h₁ : (r.states[id.raw - 1]?).isSome := by
    rw [← instance?_state, Option.isSome_map]
    exact hown id hid
  obtain ⟨t, ht⟩ := h.states
  have h₂ : (r'.states[id.raw - 1]?).isSome := by
    rw [← ht, List.getElem?_append_left (by simpa using h₁)]
    exact h₁
  rw [← instance?_state, Option.isSome_map] at h₂
  exact h₂

end Renderer.Steady

namespace RenderM

variable {β : Type} {r r' : Renderer}

/-- A function of a program that reads its frame from the renderer and runs one script there
answers from the script's outcome, and changes only the effects. -/
theorem run_get_script_ok {fr : Renderer → Frame} {post : Except ScriptError Value → β}
    {s : Script} {b : β}
    (h : ((do let r ← get; return post (← script (fr r) s)) : RenderM β).run r = .ok b r') :
    b = post (Script.outcome r.procs (fr r) s) ∧ r' = { r with effects := r'.effects } := by
  obtain ⟨r₁, hrun, hs⟩ := run_get_script_scriptedBy (S := [s]) fr post (List.mem_singleton_self s)
  rw [hrun] at h
  cases h
  exact ⟨rfl, hs.effects⟩

theorem Forested.run_ok {P : Document → Prop} {Q : β → Document → Prop} {x : RenderM β} {b : β}
    (h : Forested P x Q) (hf : r.document.Forest) (hP : P r.document) (hx : x.run r = .ok b r') :
    Q b r'.document := by
  have hr := h r hf hP
  rw [hx] at hr
  exact hr.2

end RenderM

namespace Pass

open RenderM

variable {r r' : Renderer} {env : Env} {node : Mounted} {values : List (Nat × Value)}

/-- A dynamic value a mount computes is the value its binding describes, given the values its
slots hold; computing it changes only the effects. -/
theorem resolve_describes (hv : ∀ s e v, node.slot? s = some (.leaf e v) → values.lookup s = some v)
    {b : Binding} {op : Opcode} {v : Value} (h : (resolve b op env node).run r = .ok v r') :
    b.describe r.procs (r.frameOf env) values = some v ∧ r' = { r with effects := r'.effects } := by
  cases b with
  | compute s =>
    simp only [resolve] at h
    obtain ⟨x, r₁, h₁, h₂⟩ := run_bind_ok h
    obtain ⟨rfl, hr₁⟩ := run_get_script_ok h₁
    obtain ⟨hx, rfl⟩ := orBinding_ok h₂
    refine ⟨?_, hr₁⟩
    cases ho : Script.outcome r.procs (r.frameOf env) s with
    | ok w =>
      rw [ho] at hx
      cases hx
      simp only [Binding.describe, ho]
      rfl
    | error e =>
      rw [ho] at hx
      cases hx
  | prop name =>
    obtain ⟨rfl, rfl⟩ := run_pure_ok h
    exact ⟨rfl, rfl⟩
  | sibling s =>
    obtain ⟨⟨e, hs⟩, rfl⟩ := run_resolve_sibling.1 h
    exact ⟨hv s e v hs, rfl⟩

/-- Registering an event binding keeps every node and the instances. -/
theorem register_keeps_nodes {name : String} {e : NodeId} {reg : Registration} {u : Unit}
    (hf : r.document.Forest) (h : (register name e reg).run r = .ok u r') :
    r'.document.nodes = r.document.nodes ∧ r'.document.Forest ∧ r'.instances = r.instances ∧
      r.Steady r' := by
  cases h
  unfold EventTables.register
  beta_reduce
  cases r.events.table name with
  | some rows => exact ⟨rfl, hf, rfl, .of_instances rfl rfl rfl⟩
  | none => exact ⟨Document.nodes_addListener .., hf.addListener _ _, rfl, .of_instances rfl rfl rfl⟩

/-- A ternary's test gives the decision the test script describes, changing only the effects. -/
theorem test_decides {s : Script} {d : Bool} {x : Except BindingFailure Bool} {r₁ : Renderer}
    (h₁ : (Bind.test env s).run r = .ok x r₁) (h₂ : (orBinding .ternary x).run r₁ = .ok d r') :
    Script.decision r.procs (r.frameOf env) s = some d ∧ r' = { r with effects := r'.effects } := by
  obtain ⟨rfl, hr₁⟩ := run_get_script_ok h₁
  obtain ⟨hx, rfl⟩ := orBinding_ok h₂
  refine ⟨?_, hr₁⟩
  rw [Script.decision]
  cases ho : Script.outcome r.procs (r.frameOf env) s with
  | ok w =>
    rw [ho] at hx
    cases w with
    | bool b =>
      cases hx
      rfl
    | _ => cases hx
  | error e =>
    rw [ho] at hx
    cases hx

/-- A component's factory gives the state its script computes from the props, changing only the
effects. -/
theorem factory_states {props : Value} {s : Script} {state : Value}
    {x : Except BindingFailure Value} {r₁ : Renderer} (h₁ : (Bind.factory props s).run r = .ok x r₁)
    (h₂ : (orBinding .componentInstance x).run r₁ = .ok state r') :
    (Script.outcome r.procs { props } s).toOption = some state ∧
      r' = { r with effects := r'.effects } := by
  unfold Bind.factory at h₁
  obtain ⟨y, r₂, h₃, h₄⟩ := run_bind_ok h₁
  rw [script_run] at h₃
  cases h₃
  obtain ⟨rfl, rfl⟩ := run_pure_ok h₄
  obtain ⟨hx, rfl⟩ := orBinding_ok h₂
  refine ⟨?_, rfl⟩
  cases ho : Script.outcome r.procs { props } s with
  | ok w =>
    rw [ho] at hx
    cases hx
    rfl
  | error e =>
    rw [ho] at hx
    cases hx

end Pass

/-! ## The drawing invariant -/

namespace Pass

open Document RenderM

variable {p : Program} {d₀ d d' : Document} {P : NodeId} {a : Option NodeId} {S : List Nat}
  {node : Mounted} {stack : List (Option NodeId)}

namespace Placing

theorem drawn_new (h : Placing p d₀ P a S node stack d) {x : NodeId}
    (hx : x ∈ node.roots ∨ some x ∈ stack) : d₀.nodes.size ≤ x := by
  rcases hx with hx | hx
  · exact h.grafts.new x hx
  · exact (h.open_new x hx).1

theorem parent_root (h : Placing p d₀ P a S node stack d) (hl : d.Linked) {x : NodeId}
    (hx : x ∈ node.roots) : d.parent? x = some P :=
  (hl.mem_children P x).1 (by rw [h.grafts.target, mem_spliceBefore]; exact Or.inr hx)

theorem root_ne_open (h : Placing p d₀ P a S node stack d) (hl : d.Linked) {x q : NodeId}
    (hx : x ∈ node.roots) (hq : some q ∈ stack) : x ≠ q := by
  intro hxq
  subst hxq
  have hpx := h.parent_root hl hx
  rw [(h.open_new x hq).2.2] at hpx
  cases hpx

/-- A change that keeps every node but the target's parent or an open element `q` keeps what
every new node other than `q` shows: the target's parent is older than every node below a new
one, and an open element is below no node but itself. -/
theorem keeps (h : Placing p d₀ P a S node stack d) (hl : d.Linked) {q : NodeId}
    (hq : q = P ∨ some q ∈ stack) (hsame : ∀ y, y ≠ q → SameAt d d' y) {x : NodeId} {t : Tree}
    (hx : d₀.nodes.size ≤ x) (hxq : x ≠ q) (hs : d.Shows x t) : d'.Shows x t := by
  refine hs.keep_except ?_ hsame
  rcases hq with rfl | hq
  · exact fun hb =>
      Nat.lt_irrefl _ (Nat.lt_of_lt_of_le h.grafts.parent_lt (h.grafts.below_new hx hb))
  · exact hl.not_below_of_parent?_eq_none (h.open_new q hq).2.2 hxq

/-- Where a sub-program is mounted, under the innermost open element or at the target, is in
the document. -/
theorem position_lt (h : Placing p d₀ P a S node stack d) {pos : Target} {atRoot : Bool}
    (hpos : position stack ⟨P, a⟩ = (pos, atRoot)) :
    pos.parent < d.nodes.size ∧ ∀ b ∈ pos.anchor, b < d.nodes.size := by
  cases hq : enclosing stack with
  | none =>
    simp only [position, hq, Prod.mk.injEq] at hpos
    obtain ⟨rfl, -⟩ := hpos
    exact ⟨h.grafts.parent_lt_size, h.grafts.anchor_lt_size⟩
  | some e =>
    simp only [position, hq, Prod.mk.injEq] at hpos
    obtain ⟨rfl, -⟩ := hpos
    exact ⟨(h.open_new e (mem_of_enclosing hq)).2.1, fun _ hb => absurd hb (by simp)⟩

end Placing

/-- A mount in progress that began in `r₀` agrees with a sketch that has read the same
instructions: its open constructs show the sketch's, its roots show the trees finished at the
top, each value slot holds the value the sketch recorded, and the next instance id is the
renderer's next one; the renderer stays steady, and every node it had stays what it was. -/
structure Drawing (r₀ : Renderer) (node : Mounted) (stack : List (Option NodeId)) (k : Sketch)
    (r : Renderer) : Prop where
  forest : r.document.Forest
  opened : List.Forall₂ r.document.Shown stack k.stack
  top : r.document.ShowsAll node.roots k.top
  values : ∀ s e v, node.slot? s = some (.leaf e v) → k.values.lookup s = some v
  next : k.next = r.instances.size + 1
  steady : r₀.Steady r
  kinds : r₀.document.KindsKept r.document

namespace Drawing

variable {r₀ r r' : Renderer} {k : Sketch} {node' : Mounted}

/-- A mount starts with a fresh node, nothing open and a sketch that has read nothing. -/
theorem start (hf : r₀.document.Forest) (site : List Nat) (q : Program) :
    Drawing r₀ (Mounted.fresh site q) [] { next := r₀.instances.size + 1 } r₀ where
  forest := hf
  opened := .nil
  top := by
    rw [Mounted.roots_fresh]
    exact .nil
  values s e v hs := by
    simp only [Mounted.fresh, Mounted.slot?, Mounted.slots, Array.getElem?_replicate] at hs
    split at hs <;> cases hs
  next := rfl
  steady := .refl r₀
  kinds := .refl _

/-- Nodes showing `ts` put where the mount places nodes: last under the innermost open element,
or at the target, where they become roots. Every node the document had is kept but the parent
they go under, whose new children they are. -/
theorem graft (hd : Drawing r₀ node stack k r)
    (hpl : Placing p r₀.document P a S node stack r.document) {ys : List NodeId} {ts : List Tree}
    {next : Nat}
    (hsame : ∀ y, y ≠ (position stack ⟨P, a⟩).1.parent → SameAt r.document r'.document y)
    (hkind : (r'.document.get? (position stack ⟨P, a⟩).1.parent).map NodeData.kind =
      (r.document.get? (position stack ⟨P, a⟩).1.parent).map NodeData.kind)
    (hch : r'.document.children (position stack ⟨P, a⟩).1.parent =
      spliceBefore (r.document.children (position stack ⟨P, a⟩).1.parent)
        (position stack ⟨P, a⟩).1.anchor ys)
    (hys : r'.document.ShowsAll ys ts) (hforest : r'.document.Forest) (hsteady : r.Steady r')
    (hroots : node'.roots = if (position stack ⟨P, a⟩).2 then node.roots ++ ys else node.roots)
    (hvals : ∀ s e v, node'.slot? s = some (.leaf e v) → node.slot? s = some (.leaf e v))
    (hnext : next = r'.instances.size + 1) :
    Drawing r₀ node' stack ({ k with next }.add ts) r' := by
  -- the kinds of the nodes the document had: kept by the change, the parent's included
  have hkinds : r₀.document.KindsKept r'.document := by
    refine hd.kinds.trans (fun y hy => ?_) hpl.grafts.size_le
    by_cases hyq : y = (position stack ⟨P, a⟩).1.parent
    · rw [hyq]
      exact hkind
    · exact (hsame y hyq hy).1
  cases hq : enclosing stack with
  | none =>
    simp only [position, hq, if_true] at hsame hkind hch hroots
    have hkeep : ∀ x t, (x ∈ node.roots ∨ some x ∈ stack) → r.document.Shows x t →
        r'.document.Shows x t := fun x t hx hs =>
      hpl.keeps hd.forest.toLinked (Or.inl rfl) hsame (hpl.drawn_new hx)
        (fun hxP => Nat.not_lt_of_le (hxP ▸ hpl.drawn_new hx) hpl.grafts.parent_lt) hs
    have hadd : ({ k with next }.add ts) = { k with next, top := k.top ++ ts } := by
      simp [Sketch.add, addInto_eq_none hd.opened hq]
    rw [hadd]
    exact {
      forest := hforest
      opened := shown_keep hd.opened fun e he t ht => hkeep e t (Or.inr he) ht
      top := hroots ▸ List.rel_append (hd.top.keep fun x hx t ht => hkeep x t (Or.inl hx) ht) hys
      values := fun s e v hs => hd.values s e v (hvals s e v hs)
      next := hnext
      steady := hd.steady.trans hsteady
      kinds := hkinds }
  | some q =>
    simp only [position, hq, Bool.false_eq_true, if_false] at hsame hkind hch hroots
    have hopen := mem_of_enclosing hq
    have hkeep : ∀ x t, (x ∈ node.roots ∨ some x ∈ stack) → x ≠ q → r.document.Shows x t →
        r'.document.Shows x t := fun x t hx hxq hs =>
      hpl.keeps hd.forest.toLinked (Or.inr hopen) hsame (hpl.drawn_new hx) hxq hs
    have hch' : r'.document.children q = r.document.children q ++ ys := by
      rw [hch, spliceBefore_of_not_mem (fun _ hb => absurd hb (by simp))]
    obtain ⟨ks', hks', hrel⟩ := addInto_of_enclosing hd.opened hpl.open_nodup hq
      (fun e he heq t ht => hkeep e t (Or.inr he) heq ht)
      (fun o ho => ho.append hd.forest hsame hkind hch' hys)
    have hadd : ({ k with next }.add ts) = { k with next, stack := ks' } := by
      simp [Sketch.add, hks']
    rw [hadd]
    exact {
      forest := hforest
      opened := hrel
      top := hroots ▸ hd.top.keep fun x hx t ht =>
        hkeep x t (Or.inl hx) (hpl.root_ne_open hd.forest.toLinked hx hopen) ht
      values := fun s e v hs => hd.values s e v (hvals s e v hs)
      next := hnext
      steady := hd.steady.trans hsteady
      kinds := hkinds }

theorem of_effects (hd : Drawing r₀ node stack k r) (h : r' = { r with effects := r'.effects }) :
    Drawing r₀ node stack k r' := by
  have hs := hd.steady.trans (Renderer.Steady.of_effects h)
  rw [h] at hs ⊢
  exact ⟨hd.forest, hd.opened, hd.top, hd.values, hd.next, hs, hd.kinds⟩

/-- A change that keeps every node the document had, and the instances, keeps the drawing. -/
theorem keepAll (hd : Drawing r₀ node stack k r) (hsame : ∀ y, SameAt r.document r'.document y)
    (hforest : r'.document.Forest) (hsteady : r.Steady r')
    (hinst : r'.instances.size = r.instances.size)
    (hsize : r₀.document.nodes.size ≤ r.document.nodes.size) : Drawing r₀ node stack k r' where
  forest := hforest
  opened := shown_keep hd.opened fun _ _ _ ht => ht.keep fun y _ => hsame y
  top := hd.top.keep fun _ _ _ ht => ht.keep fun y _ => hsame y
  values := hd.values
  next := hd.next.trans (by rw [hinst])
  steady := hd.steady.trans hsteady
  kinds := hd.kinds.trans (fun y hy => (hsame y hy).1) hsize

/-- Changing the innermost open element, which the sketch changes the same way. -/
theorem write {e : NodeId} {rest : List (Option NodeId)} (hd : Drawing r₀ node (some e :: rest) k r)
    (hpl : Placing p r₀.document P a S node (some e :: rest) r.document) {f : Open → Open}
    (hsame : ∀ y, y ≠ e → SameAt r.document r'.document y)
    (he : ∀ o, r.document.Shows e o.tree → r'.document.Shows e (f o).tree)
    (hforest : r'.document.Forest) (hsteady : r.Steady r')
    (hinst : r'.instances.size = r.instances.size) :
    ∃ k', k.write f = some k' ∧ k'.values = k.values ∧ Drawing r₀ node (some e :: rest) k' r' := by
  have hopen : some e ∈ some e :: rest := List.mem_cons_self
  have hkeep : ∀ x t, (x ∈ node.roots ∨ some x ∈ some e :: rest) → x ≠ e →
      r.document.Shows x t → r'.document.Shows x t := fun x t hx hxe hs =>
    hpl.keeps hd.forest.toLinked (Or.inr hopen) hsame (hpl.drawn_new hx) hxe hs
  obtain ⟨ks, hks⟩ : ∃ ks, k.stack = ks := ⟨_, rfl⟩
  have hop := hd.opened
  rw [hks] at hop
  rcases hop with _ | ⟨hhead, hrest⟩
  rename_i o os
  cases o with
  | none => simp [Shown] at hhead
  | some o =>
    refine ⟨{ k with stack := some (f o) :: os }, by simp [Sketch.write, hks], rfl, ?_⟩
    exact {
      forest := hforest
      opened := .cons (he o hhead) (shown_keep hrest fun e' he' t ht =>
        hkeep e' t (Or.inr (List.mem_cons_of_mem _ he'))
          (fun h => hpl.not_mem_of_head (h ▸ he')) ht)
      top := hd.top.keep fun x hx t ht =>
        hkeep x t (Or.inl hx) (hpl.root_ne_open hd.forest.toLinked hx hopen) ht
      values := hd.values
      next := hd.next.trans (by rw [hinst])
      steady := hd.steady.trans hsteady
      kinds := fun y hy => ((hsame y (fun hye => Nat.not_lt_of_le (hye ▸ (hpl.open_new e hopen).1) hy)
        (Nat.lt_of_lt_of_le hy hpl.grafts.size_le)).1).trans (hd.kinds y hy) }

/-- Recording the value of a dynamic slot, which the node keeps as a leaf. -/
theorem setLeaf (hd : Drawing r₀ node stack k r) {i : Nat} (hi : RootRef.slot i ∉ node.rootRefs)
    (h : NodeId) (v : Value) :
    Drawing r₀ (node.setSlot i (.leaf h v)) stack (k.record i v) r where
  forest := hd.forest
  opened := hd.opened
  top := by rw [Mounted.roots_setSlot hi]; exact hd.top
  values := Mounted.lookup_setLeaf hd.values i h v
  next := hd.next
  steady := hd.steady
  kinds := hd.kinds

/-- Putting a slot that is not a root and holds no value. -/
theorem setSlot (hd : Drawing r₀ node stack k r) {i : Nat} (hi : RootRef.slot i ∉ node.rootRefs)
    {x : Slot} (hx : ∀ e v, x ≠ .leaf e v) : Drawing r₀ (node.setSlot i x) stack k r where
  forest := hd.forest
  opened := hd.opened
  top := by rw [Mounted.roots_setSlot hi]; exact hd.top
  values _ _ _ hs := hd.values _ _ _ (Mounted.leaf_of_setSlot hx hs)
  next := hd.next
  steady := hd.steady
  kinds := hd.kinds

/-- Placing a finished node that shows `t`, new, without a parent, not open and newer than the
element it goes under: the sketch adds `t` where the mount puts the node. -/
theorem place (hd : Drawing r₀ node stack k r)
    (hpl : Placing p r₀.document P a S node stack r.document) {c : NodeId} {t : Tree}
    (hc : r.document.Shows c t) (hcnew : r₀.document.nodes.size ≤ c)
    (hcs : c < r.document.nodes.size) (hpc : r.document.parent? c = none)
    (hqc : ∀ q, enclosing stack = some q → q < c)
    (h : (Pass.place stack node ⟨P, a⟩ c).run r = .ok node' r') :
    Drawing r₀ node' stack (k.add [t]) r' := by
  have hpos : (position stack ⟨P, a⟩).1.parent = P ∨ some (position stack ⟨P, a⟩).1.parent ∈ stack := by
    cases hq : enclosing stack with
    | none => exact Or.inl (by simp [position, hq])
    | some q => exact Or.inr (by simpa [position, hq] using mem_of_enclosing hq)
  have hposc : (position stack ⟨P, a⟩).1.parent < c := by
    cases hq : enclosing stack with
    | none => simpa [position, hq] using Nat.lt_of_lt_of_le hpl.grafts.parent_lt hcnew
    | some q => simpa [position, hq] using hqc q hq
  have hposs : (position stack ⟨P, a⟩).1.parent < r.document.nodes.size :=
    Nat.lt_trans hposc hcs
  have hrun : r' = { r with document := (r.document.attach (position stack ⟨P, a⟩).1.parent c
      (position stack ⟨P, a⟩).1.anchor) } ∧
      node' = if (position stack ⟨P, a⟩).2 then node.addRoot (.host c) else node := by
    unfold Pass.place at h
    cases hq : enclosing stack with
    | none =>
      simp only [hq] at h
      obtain ⟨u, r₁, h₁, h₂⟩ := run_bind_ok h
      obtain ⟨rfl, rfl⟩ := run_pure_ok h₂
      simp [run_doc_ok h₁, position, hq, insertBefore]
    | some q =>
      simp only [hq] at h
      obtain ⟨u, r₁, h₁, h₂⟩ := run_bind_ok h
      obtain ⟨rfl, rfl⟩ := run_pure_ok h₂
      simp [run_doc_ok h₁, position, hq, appendChild]
  obtain ⟨rfl, rfl⟩ := hrun
  have hsame : ∀ y, y ≠ (position stack ⟨P, a⟩).1.parent → SameAt r.document
      (r.document.attach (position stack ⟨P, a⟩).1.parent c (position stack ⟨P, a⟩).1.anchor) y :=
    fun y hy => sameAt_attach _ hpc hy
  have hgraft : Drawing r₀ (if (position stack ⟨P, a⟩).2 then node.addRoot (.host c) else node)
      stack ({ k with next := k.next }.add [t]) { r with document :=
        (r.document.attach (position stack ⟨P, a⟩).1.parent c (position stack ⟨P, a⟩).1.anchor) } :=
    hd.graft hpl hsame (kind_attach _) (children_attach_self _ hpc hposs)
      (.cons (hpl.keeps hd.forest.toLinked hpos hsame hcnew
        (fun hcq => Nat.lt_irrefl _ (hcq ▸ hposc)) hc) .nil)
      (hd.forest.attach _ hcs hposc) (.of_instances rfl rfl rfl)
      (by split <;> simp [Mounted.roots_addRoot, RootRef.resolve])
      (fun s e v hs => by split at hs <;> simpa [Mounted.slot?] using hs) hd.next
  simpa using hgraft

/-- Closing the innermost construct: the sketch's innermost construct is the one it shows. -/
theorem pop {x : Option NodeId} (hd : Drawing r₀ node (x :: stack) k r) :
    ∃ o os, k.stack = o :: os ∧ r.document.Shown x o ∧
      Drawing r₀ node stack { k with stack := os } r := by
  obtain ⟨ks, hks⟩ : ∃ ks, k.stack = ks := ⟨_, rfl⟩
  have hop := hd.opened
  rw [hks] at hop
  rcases hop with _ | ⟨hhead, hrest⟩
  exact ⟨_, _, hks, hhead, hd.forest, hrest, hd.top, hd.values, hd.next, hd.steady, hd.kinds⟩

theorem pushFragment (hd : Drawing r₀ node stack k r) :
    Drawing r₀ node (none :: stack) { k with stack := none :: k.stack } r :=
  ⟨hd.forest, .cons trivial hd.opened, hd.top, hd.values, hd.next, hd.steady, hd.kinds⟩

theorem dropOne (hd : Drawing r₀ node stack k r) :
    Drawing r₀ node (stack.drop 1) { k with stack := k.stack.drop 1 } r :=
  ⟨hd.forest, List.forall₂_drop 1 hd.opened, hd.top, hd.values, hd.next, hd.steady, hd.kinds⟩

/-- Opening an element pushes a new one, which shows an empty element of its tag. -/
theorem openElement (hd : Drawing r₀ node stack k r)
    (hsize : r₀.document.nodes.size ≤ r.document.nodes.size) (tag : String) :
    Drawing r₀ node (some r.document.nodes.size :: stack)
      { k with stack := some { tag } :: k.stack }
      { r with document := (r.document.createElement tag).2 } := by
  have hk : Drawing r₀ node stack k { r with document := (r.document.createElement tag).2 } :=
    hd.keepAll (sameAt_createElement tag) (hd.forest.createElement tag) (.of_instances rfl rfl rfl)
      rfl hsize
  exact ⟨hk.forest, .cons (shows_createElement tag) hk.opened, hk.top, hk.values, hk.next,
    hk.steady, hk.kinds⟩

theorem head_element {e : NodeId} {rest : List (Option NodeId)}
    (hd : Drawing r₀ node (some e :: rest) k r) :
    ∀ nd, r.document.get? e = some nd → ∀ t, nd.kind ≠ .text t := by
  obtain ⟨o, os, -, hhead, -⟩ := hd.pop
  cases o with
  | none => exact hhead.elim
  | some o => exact hhead.not_text

section Writes

variable {e : NodeId} {rest : List (Option NodeId)} {u : Unit}
  (hd : Drawing r₀ node (some e :: rest) k r)
  (hpl : Placing p r₀.document P a S node (some e :: rest) r.document)
include hd hpl

/-- Writing a property of the innermost open element, as the sketch writes it. -/
theorem setProperty {prop : Property} {text : String}
    (h : (Pass.writeProperty e prop text).run r = .ok u r') :
    ∃ k', k.write (·.setProperty prop text) = some k' ∧ k'.values = k.values ∧
      Drawing r₀ node (some e :: rest) k' r' := by
  cases prop <;> simp only [Pass.writeProperty] at h <;> obtain rfl := run_doc_ok h
  · exact hd.write hpl (fun _ hy => sameAt_write _ _ hy)
      (fun o ho => ho.setProperty hd.forest .className text) (hd.forest.setClassName e text)
      (.of_instances rfl rfl rfl) rfl
  · exact hd.write hpl (fun _ hy => sameAt_write _ _ hy)
      (fun o ho => ho.setProperty hd.forest .id text) (hd.forest.setAttribute e "id" text)
      (.of_instances rfl rfl rfl) rfl
  · exact hd.write hpl (fun _ hy => sameAt_write _ _ hy)
      (fun o ho => ho.setProperty hd.forest .style text) (hd.forest.setStyle e text)
      (.of_instances rfl rfl rfl) rfl

theorem setAttribute {name value : String}
    (h : (RenderM.doc (·.setAttribute e name value)).run r = .ok u r') :
    ∃ k', k.write (·.setAttribute name value) = some k' ∧ k'.values = k.values ∧
      Drawing r₀ node (some e :: rest) k' r' := by
  obtain rfl := run_doc_ok h
  exact hd.write hpl (fun _ hy => sameAt_write _ _ hy)
    (fun o ho => ho.setAttribute hd.forest name value) (hd.forest.setAttribute e name value)
    (.of_instances rfl rfl rfl) rfl

theorem setTextContent {text : String}
    (h : (RenderM.doc (·.setTextContent e text)).run r = .ok u r') :
    ∃ k', k.write (·.setText text) = some k' ∧ k'.values = k.values ∧
      Drawing r₀ node (some e :: rest) k' r' := by
  obtain rfl := run_doc_ok h
  exact hd.write hpl (fun _ hy => sameAt_setTextContent text hd.head_element hy)
    (fun o ho => ho.setTextContent text) (hd.forest.setTextContent e text)
    (.of_instances rfl rfl rfl) rfl

/-- A dynamic write: the value its binding describes, given the values recorded so far, written
to the innermost open element as the sketch writes it, and recorded in its slot, not a root. -/
theorem dynamic {b : Binding} {op : Opcode} {env : Env} {v : Value} {r₁ : Renderer} {s : Nat}
    {w : RenderM Unit} {f : Open → Open} (hs : RootRef.slot s ∉ node.rootRefs)
    (hres : (resolve b op env node).run r = .ok v r₁) (hw : w.run r₁ = .ok u r')
    (hwrite : ∀ {r₂ : Renderer}, Drawing r₀ node (some e :: rest) k r₂ →
      Placing p r₀.document P a S node (some e :: rest) r₂.document → w.run r₂ = .ok u r' →
      ∃ k', k.write f = some k' ∧ k'.values = k.values ∧ Drawing r₀ node (some e :: rest) k' r') :
    ∃ k', b.describe r.procs (r.frameOf env) k.values = some v ∧ k.write f = some k' ∧
      Drawing r₀ (node.setSlot s (.leaf e v)) (some e :: rest) (k'.record s v) r' := by
  -- computing the value changes only the effects, so the write starts from the same drawing
  obtain ⟨hv, hr₁⟩ := resolve_describes hd.values hres
  have hD : r₁.document = r.document := by rw [hr₁]
  obtain ⟨k', hk', -, hd'⟩ := hwrite (hd.of_effects hr₁) (hD ▸ hpl) hw
  exact ⟨k', hv, hk', hd'.setLeaf hs e v⟩

end Writes

/-- A new text node placed where the mount places nodes: the sketch adds its text. -/
theorem placeText (hd : Drawing r₀ node stack k r)
    (hpl : Placing p r₀.document P a S node stack r.document) (text : String)
    (h : (Pass.place stack node ⟨P, a⟩ (r.document.createText text).1).run
      { r with document := (r.document.createText text).2 } = .ok node' r') :
    Drawing r₀ node' stack (k.add [.text text]) r' := by
  have hd₁ : Drawing r₀ node stack k { r with document := (r.document.createText text).2 } :=
    hd.keepAll (sameAt_createText text) (hd.forest.createText text) (.of_instances rfl rfl rfl)
      rfl hpl.grafts.size_le
  exact hd₁.place (hpl.createText text) (shows_createText text) hpl.grafts.size_le (by simp)
    (by simp [Document.parent?_eq_none_of_size_le])
    (fun q hq => (hpl.open_new q (mem_of_enclosing hq)).2.1) h

/-- Nodes grafted where the mount places nodes, held by a slot not taken before, which becomes
a root where they go at the target: the sketch adds the trees they show. -/
theorem fill (hd : Drawing r₀ node stack k r)
    (hpl : Placing p r₀.document P a S node stack r.document) {pos : Target} {atRoot : Bool}
    (hpos : position stack ⟨P, a⟩ = (pos, atRoot)) {i : Nat} (hi : i ∉ S) (hlt : i < p.slotCount)
    {x : Slot} (hx : ∀ e v, x ≠ .leaf e v) {ys : List NodeId} {ts : List Tree} {next : Nat}
    (hroots : atRoot = true → x.roots = ys)
    (hg : Grafts r.document pos.parent pos.anchor ys r'.document)
    (hk : r.document.KindsKept r'.document) (hforest : r'.document.Forest) (hsteady : r.Steady r')
    (hys : r'.document.ShowsAll ys ts) (hnext : next = r'.instances.size + 1) :
    Drawing r₀ (if atRoot then (node.setSlot i x).addRoot (.slot i) else node.setSlot i x) stack
      ({ k with next }.add ts) r' := by
  obtain rfl : pos = (position stack ⟨P, a⟩).1 := by rw [hpos]
  have hat : (position stack ⟨P, a⟩).2 = atRoot := by rw [hpos]
  have hi' : RootRef.slot i ∉ node.rootRefs := fun hr => hi (hpl.refs i hr)
  refine hd.graft hpl (hg.sameAt hk) (hk _ hg.parent_lt) hg.target hys hforest hsteady ?_ ?_ hnext
  · rw [hat]
    cases atRoot with
    | false => exact Mounted.roots_setSlot hi' x
    | true =>
      rw [if_pos rfl, if_pos rfl, Mounted.roots_addRoot, Mounted.roots_setSlot hi',
        Mounted.resolve_slot_setSlot (hpl.size ▸ hlt), hroots rfl]
  · intro s e v hs
    cases atRoot with
    | false => exact Mounted.leaf_of_setSlot hx hs
    | true => exact Mounted.leaf_of_setSlot hx (by simpa [Mounted.slot?] using hs)

end Drawing

end Pass

end Canopy
