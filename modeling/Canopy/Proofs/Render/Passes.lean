import Mathlib
import Canopy.Proofs.Render.WellFormed
import Canopy.Render.Root
import Canopy.Proofs.Loop.KeyPolicy

/-!
# What the parts of a pass do

A mount, update or unmount pass works on a node taken out of the renderer's mounted roots and
leaves the roots themselves alone. Its parts are specified here as triples over the renderer:
each keeps the mounted roots, and when it fails, it fails with an error that is no broken
invariant (`Outcome`). Scripts, bindings and projections never break an invariant; what they
return is what the program's functions computed, and a projection's keys are pairwise distinct
under either duplicate-key policy.

Mounting a sub-program is handed to a mount function. `MountFn.Sound f d` says that `f` mounts
every well-formed program nesting less than `d` deep into a well-formed node of that program;
a branch, a component and a loop's items are mounted soundly by a sound mount function.
-/

open Std.Do

set_option mvcgen.warning false

namespace Canopy

namespace Pass

/-- The outcome of a part of a pass: on success its result satisfies `Q`, and either way the
mounted roots are `fs` and no invariant was found broken. -/
abbrev Outcome {α : Type} (fs : List Fiber) (Q : α → Prop) :
    PostCond α (.except RenderError (.arg Renderer .pure)) :=
  post⟨fun a r => ⌜Q a ∧ r.fibers = fs⌝, fun e r => ⌜e.isDefensive = false ∧ r.fibers = fs⌝⟩

/-- The outcome of a part of a pass whose result matters not. -/
abbrev Keeps {α : Type} (fs : List Fiber) :
    PostCond α (.except RenderError (.arg Renderer .pure)) :=
  post⟨fun _ r => ⌜r.fibers = fs⌝, fun e r => ⌜e.isDefensive = false ∧ r.fibers = fs⌝⟩

theorem script_spec (fs : List Fiber) (frame : Frame) (s : Script) :
    ⦃fun r => ⌜r.fibers = fs⌝⦄ RenderM.script frame s ⦃Keeps fs⦄ := by
  apply Triple.iff.mpr
  intro r hr
  simp only [wp, PredTrans.apply, RenderM.script, EStateM.run]
  rcases Script.run r.procs frame s r.effects with ⟨v, fx⟩ | ⟨e, fx⟩ <;> simpa using hr

/-- A value is computed, read from the props or read from an earlier slot that holds one; only
a function's failure stops it. -/
theorem resolve_spec (fs : List Fiber) (b : Binding) (op : Opcode) (env : Env) (node : Mounted)
    (h : ∀ s ∈ b.sibling?, ∃ e v, node.slot? s = some (.leaf e v)) :
    ⦃fun r => ⌜r.fibers = fs⌝⦄ resolve b op env node ⦃Keeps fs⦄ := by
  cases b with
  | compute sc =>
    mvcgen [resolve, orBinding, Bind.compute, script_spec]
    all_goals simp_all
  | prop name => mvcgen [resolve]
  | sibling s =>
    obtain ⟨e, v, hs⟩ := h s rfl
    mvcgen [resolve, hs]

theorem writeProperty_spec (fs : List Fiber) (e : NodeId) (p : Property) (text : String) :
    ⦃fun r => ⌜r.fibers = fs⌝⦄ writeProperty e p text ⦃Keeps fs⦄ := by
  cases p <;> mvcgen [writeProperty, RenderM.doc]

theorem place_spec (fs : List Fiber) (stack : List (Option NodeId)) (node : Mounted)
    (target : Target) (child : NodeId) :
    ⦃fun r => ⌜r.fibers = fs⌝⦄ place stack node target child
    ⦃Outcome fs fun n => n.program = node.program ∧ n.slots = node.slots⦄ := by
  mvcgen [place, RenderM.doc]

theorem installPlan_spec (fs : List Fiber) (site : List Nat) (plan : Option Plan) :
    ⦃fun r => ⌜r.fibers = fs⌝⦄ RenderM.installPlan site plan ⦃Keeps fs⦄ := by
  cases plan <;> mvcgen [RenderM.installPlan]
  simp_all +zetaDelta [apply_ite]

/-- Projecting a collection fails only with a binding or duplicate-key error, and the keys it
projects are pairwise distinct. -/
theorem project_spec (fs : List Fiber) (env : Env) (l : LoopSpec Program) :
    ⦃fun r => ⌜r.fibers = fs⌝⦄ project env l ⦃Outcome fs fun ps => (ps.map (·.key)).Nodup⦄ := by
  mvcgen [project, Bind.collection, Bind.key, Bind.props, script_spec]
  case inv1 =>
    exact post⟨fun _ r => ⌜r.fibers = fs⌝, fun e r => ⌜e.isDefensive = false ∧ r.fibers = fs⌝⟩
  all_goals simp_all +zetaDelta
  exact Projected.dedupe_nodup ‹_›

/-- A pass over each member of a list, each keeping the mounted roots, relates the list to its
results member by member. -/
theorem mapM_spec {α β : Type} (fs : List Fiber) {f : α → RenderM β} {R : α → β → Prop}
    (hf : ∀ a, ⦃fun r => ⌜r.fibers = fs⌝⦄ f a ⦃Outcome fs (R a)⦄) :
    ∀ xs : List α, ⦃fun r => ⌜r.fibers = fs⌝⦄ xs.mapM f ⦃Outcome fs (List.Forall₂ R xs)⦄
  | [] => by
    simp only [List.mapM_nil]
    mvcgen
    simp_all
  | x :: xs => by
    have hx := hf x
    have hrest := mapM_spec fs hf xs
    simp only [List.mapM_cons]
    mvcgen [hx, hrest]
    all_goals simp_all

theorem attempt_spec {α : Type} (fs : List Fiber) {x : RenderM α} {Q : α → Prop}
    (hx : ⦃fun r => ⌜r.fibers = fs⌝⦄ x ⦃Outcome fs Q⦄) :
    ⦃fun r => ⌜r.fibers = fs⌝⦄ x.attempt
    ⦃Outcome fs fun r => match r with
      | .ok a => Q a
      | .error e => e.isDefensive = false⦄ := by
  mvcgen [RenderM.attempt, hx]

theorem outcome_of_keeps {α : Type} {fs : List Fiber} {x : RenderM α}
    (h : ⦃fun r => ⌜r.fibers = fs⌝⦄ x ⦃Keeps fs⦄) :
    ⦃fun r => ⌜r.fibers = fs⌝⦄ x ⦃Outcome fs fun _ => True⦄ := by
  mvcgen [h]
  all_goals simp_all

theorem removeNodes_spec (fs : List Fiber) (parent : NodeId) (ns : List NodeId) :
    ⦃fun r => ⌜r.fibers = fs⌝⦄ removeNodes parent ns ⦃Keeps fs⦄ := by
  mvcgen [removeNodes, RenderM.doc] invariants
  · Keeps fs

theorem insertNodes_spec (fs : List Fiber) (parent : NodeId) (ns : List NodeId)
    (anchor : Option NodeId) :
    ⦃fun r => ⌜r.fibers = fs⌝⦄ insertNodes parent ns anchor ⦃Keeps fs⦄ := by
  mvcgen [insertNodes, RenderM.doc] invariants
  · Keeps fs

theorem unmountOp_spec (fs : List Fiber) {sub : Mounted → RenderM Unit}
    (hsub : ∀ n, ⦃fun r => ⌜r.fibers = fs⌝⦄ sub n ⦃Keeps fs⦄) (node : Mounted) (op : UnmountOp) :
    ⦃fun r => ⌜r.fibers = fs⌝⦄ unmountOp sub node op ⦃Keeps fs⦄ := by
  cases op with
  | releaseEvent name s => mvcgen [unmountOp, release]
  | ternary s => mvcgen [unmountOp, hsub]
  | loop s =>
    mvcgen [unmountOp, hsub] invariants
    · Keeps fs
  | component s => mvcgen [unmountOp, hsub, retire, RenderM.modifyInstance]

theorem unmount_spec (fs : List Fiber) : ∀ (fuel : Nat) (n : Mounted),
    ⦃fun r => ⌜r.fibers = fs⌝⦄ unmount fuel n ⦃Keeps fs⦄
  | 0, n => by mvcgen [unmount]
  | fuel + 1, n => by
    have hop := unmountOp_spec fs (unmount_spec fs fuel) n
    mvcgen [unmount, hop] invariants
    · Keeps fs

/-- A mount function is sound below depth `d` when it mounts every well-formed program nesting
less than `d` deep into a well-formed node of that program. -/
def MountFn.Sound (f : MountFn) (d : Nat) : Prop :=
  ∀ site q env target fs, q.WellFormed → q.depth < d →
    ⦃fun r => ⌜r.fibers = fs⌝⦄ f site q env target
    ⦃Outcome fs fun n => n.WellFormed ∧ n.program = q⦄

section Sound

variable {sub : MountFn} {d : Nat} (hsub : MountFn.Sound sub d) (fs : List Fiber)
  (site : List Nat) (env : Env)
include hsub

theorem mountBranch_spec {q : Program} (hq : q.WellFormed) (hd : q.depth < d) (pos : Target) :
    ⦃fun r => ⌜r.fibers = fs⌝⦄ mountBranch sub site q env pos
    ⦃Outcome fs fun bm => bm.1.WellFormed ∧ bm.1.program = q⦄ := by
  have hmount := hsub site q env pos fs hq hd
  mvcgen [mountBranch, hmount, RenderM.docWith, RenderM.doc]

theorem mountComponent_spec {c : ComponentSpec Program} (hq : c.body.WellFormed)
    (hd : c.body.depth < d) (pos : Target) :
    ⦃fun r => ⌜r.fibers = fs⌝⦄ mountComponent sub site c env pos
    ⦃Outcome fs fun sl => ∃ o n, sl = .component o n ∧ n.WellFormed ∧ n.program = c.body⦄ := by
  have hmount := fun env => hsub site c.body env pos fs hq hd
  mvcgen [mountComponent, hmount, Bind.factory, script_spec, orBinding]
  all_goals simp_all +zetaDelta

end Sound

/-- A loop item stands for a projected item of a loop with template `t`: it has its key and a
well-formed node of the template. -/
def ItemFor (t : Program) (p : Projected) (it : LoopItem Mounted) : Prop :=
  it.key = p.key ∧ it.node.WellFormed ∧ it.node.program = t

theorem ItemFor.keys {t : Program} :
    ∀ {ps : List Projected} {items : List (LoopItem Mounted)}, List.Forall₂ (ItemFor t) ps items →
      items.map (·.key) = ps.map (·.key)
  | [], [], .nil => rfl
  | _ :: _, _ :: _, .cons h hs => by
    simp only [List.map_cons, h.1, ItemFor.keys hs]

theorem ItemFor.node {t : Program} :
    ∀ {ps : List Projected} {items : List (LoopItem Mounted)}, List.Forall₂ (ItemFor t) ps items →
      ∀ it ∈ items, it.node.WellFormed ∧ it.node.program = t
  | [], [], .nil => fun _ hit => absurd hit List.not_mem_nil
  | _ :: _, _ :: _, .cons h hs => by
    intro it hit
    rcases List.mem_cons.1 hit with rfl | hit
    · exact h.2
    · exact ItemFor.node hs it hit

section Sound

variable {sub : MountFn} {d : Nat} (hsub : MountFn.Sound sub d) (fs : List Fiber)
  (site : List Nat) {l : LoopSpec Program} (ht : l.template.WellFormed)
  (hd : l.template.depth < d) (env : Env) (parent : NodeId)
include hsub ht hd

theorem mountItem_spec (p : Projected) (anchor : Option NodeId) :
    ⦃fun r => ⌜r.fibers = fs⌝⦄ mountItem sub site l env parent p anchor
    ⦃Outcome fs (ItemFor l.template p)⦄ := by
  have hmount := hsub site l.template { env with props := p.props } { parent, anchor } fs ht hd
  mvcgen [mountItem, hmount]
  all_goals simp_all [ItemFor]

/-- A loop mounts one well-formed item of its template per projected item, with pairwise
distinct keys. -/
theorem mountLoop_spec :
    ⦃fun r => ⌜r.fibers = fs⌝⦄ mountLoop sub site l env parent
    ⦃Outcome fs fun items => (items.map (·.key)).Nodup ∧
      ∀ it ∈ items, it.node.WellFormed ∧ it.node.program = l.template⦄ := by
  have hitems := mapM_spec fs fun p => mountItem_spec hsub fs site ht hd env parent p none
  mvcgen [mountLoop, project_spec, hitems]
  all_goals simp_all
  -- the items stand for the projected items, whose keys are distinct
  rename_i hps
  intro hF _
  refine ⟨?_, ItemFor.node hF⟩
  rw [ItemFor.keys hF]
  exact hps.1

end Sound

/-- What an update of a well-formed node hands back: a well-formed node of the same program,
and an error, if any, that is no broken invariant. -/
def Updated (n : Mounted) (r : Mounted × Option RenderError) : Prop :=
  r.1.WellFormed ∧ r.1.program = n.program ∧ ∀ e ∈ r.2, e.isDefensive = false

namespace Updated

variable {node : Mounted} {err : Option RenderError}

theorem keep (hn : node.WellFormed) (herr : ∀ e ∈ err, e.isDefensive = false) :
    Updated node (node, err) :=
  ⟨hn, rfl, herr⟩

theorem setSlot (hn : node.WellFormed) {i : Instruction} (hi : i ∈ node.program.instructions)
    {s : Nat} (hs : i.slot? = some s) {x : Slot} (hx : i.Holds x)
    (hnodes : ∀ m ∈ x.nodes, m.WellFormed) (herr : ∀ e ∈ err, e.isDefensive = false) :
    Updated node (node.setSlot s x, err) :=
  ⟨hn.setSlot hi hs hx hnodes, rfl, herr⟩

end Updated

/-- The passes an update hands nested work to are sound below depth `d`: the mount, an update
of every well-formed node nesting less deeply, and the unmount. -/
structure Subpasses.Sound (sub : Subpasses) (d : Nat) : Prop where
  mount : MountFn.Sound sub.mount d
  update : ∀ n env fs, n.WellFormed → n.program.depth < d →
    ⦃fun r => ⌜r.fibers = fs⌝⦄ sub.update n env ⦃Outcome fs (Updated n)⦄
  unmount : ∀ n fs, ⦃fun r => ⌜r.fibers = fs⌝⦄ sub.unmount n ⦃Keeps fs⦄

end Pass

end Canopy
