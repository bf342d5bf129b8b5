import Mathlib
import Canopy.Proofs.Script.Effects
import Canopy.Render.Flush
import Canopy.Proofs.Render.Runs

/-!
# What a pass may change

The parts of a mount, update or unmount pass work on the document, the mounted roots, the event
tables and the registry, and on little else: they keep the procedures and the state of every
instance (they may create instances, change props and mark instances unmounted), they only
append to the update queue (through scripts), and they only put deferred callbacks in front of
those already deferred. `Renderer.Extends` says this of two renderers and `RenderM.Grows` of an
action, whether it succeeds or fails. Every pass grows the renderer (`grows_mount`,
`grows_unmount`, `grows_updateNode`), so a component's state changes only when a queued update
is applied, and a callback a pass defers runs before the ones deferred earlier.

Small parts are shown with the combinators of `Grows`; parts with loops and pattern-matching
binds go through their triples (`grows_of_triple`), with the triples of their own parts.
-/

namespace Canopy

namespace RenderM

theorem script_run (frame : Frame) (s : Script) (r : Renderer) :
    (script frame s).run r = .ok (Script.outcome r.procs frame s)
      { r with effects :=
          (r.effects.extend (Script.logged r.procs frame s) (Script.queued r.procs frame s)) } := by
  rw [EStateM.run]
  simp only [script, Script.run_eq]
  cases Script.outcome r.procs frame s <;> rfl

end RenderM

namespace Renderer

/-- The states of the instances, oldest instance first. -/
def states (r : Renderer) : List Value := r.instances.toList.map (·.state)

/-- What the parts of a pass may do beyond the document, the roots and the event tables: `r`
has the procedures of `s`, every instance of `s` with its state, the queued updates of `s`
first in its queue and the deferred callbacks of `s` last among its own. -/
structure Extends (s r : Renderer) : Prop where
  procs : r.procs = s.procs
  states : s.states <+: r.states
  queue : s.effects.queue.toList <+: r.effects.queue.toList
  deferred : s.deferred <:+ r.deferred

namespace Extends

variable {s r t : Renderer}

@[refl] theorem refl (r : Renderer) : r.Extends r :=
  ⟨rfl, List.prefix_refl _, List.prefix_refl _, List.suffix_refl _⟩

theorem trans (h₁ : s.Extends r) (h₂ : r.Extends t) : s.Extends t :=
  ⟨h₂.procs.trans h₁.procs, h₁.states.trans h₂.states, h₁.queue.trans h₂.queue,
    h₁.deferred.trans h₂.deferred⟩

/-- A change of the renderer that keeps the procedures, instances, effects and deferred
callbacks. -/
theorem of_eq (hp : t.procs = r.procs) (hs : t.instances = r.instances)
    (hq : t.effects = r.effects) (hd : t.deferred = r.deferred) : r.Extends t :=
  ⟨hp, by simp [Renderer.states, hs], by simp [hq], by simp [hd]⟩

/-- An instance that `s` has is still in `r`, with its state. -/
theorem instance_state (h : s.Extends r) {id : InstanceId} {i : Instance}
    (hi : s.instance? id = some i) : ∃ i', r.instance? id = some i' ∧ i'.state = i.state := by
  have hs : s.states[id.raw - 1]? = some i.state := by
    simp only [Renderer.states, List.getElem?_map, Array.getElem?_toList]
    rw [show s.instances[id.raw - 1]? = some i from hi]
    rfl
  have hr : r.states[id.raw - 1]? = some i.state := by
    obtain ⟨t, ht⟩ := h.states
    rw [← ht, List.getElem?_append_left (List.getElem?_eq_some_iff.1 hs).1]
    exact hs
  simp only [Renderer.states, List.getElem?_map, Array.getElem?_toList,
    Option.map_eq_some_iff] at hr
  exact hr

theorem push_instance (r : Renderer) (inst : Instance) :
    r.Extends { r with instances := r.instances.push inst } :=
  ⟨rfl, by simp [Renderer.states], List.prefix_refl _, List.suffix_refl _⟩

end Extends

end Renderer

namespace RenderM

variable {α β γ : Type} {r r' : Renderer}

/-- The renderer a run ends with, whether it succeeds or fails. -/
def finalRenderer : EStateM.Result RenderError Renderer α → Renderer
  | .ok _ r => r
  | .error _ r => r

/-- Whether a run succeeded. -/
def succeeded : EStateM.Result RenderError Renderer α → Bool
  | .ok _ _ => true
  | .error _ _ => false

/-- A run that succeeded ends with its final renderer; on a closed run the test is decided by
evaluation. -/
theorem eq_ok_of_succeeded {res : EStateM.Result RenderError Renderer α}
    (h : succeeded res = true) : ∃ a, res = .ok a (finalRenderer res) := by
  cases res with
  | ok a r => exact ⟨a, rfl⟩
  | error e r => cases h

/-- An action that lets the renderer only grow, whether it succeeds or fails. -/
def Grows (x : RenderM α) : Prop :=
  ∀ r : Renderer, r.Extends (finalRenderer (x.run r))

namespace Grows

theorem ok {x : RenderM α} {a : α} (h : Grows x) (hrun : x.run r = .ok a r') : r.Extends r' := by
  have hr := h r
  rwa [hrun] at hr

theorem of_run (x : RenderM α) {f : Renderer → Renderer} {a : Renderer → α}
    (hrun : ∀ r, x.run r = .ok (a r) (f r)) (hf : ∀ r : Renderer, r.Extends (f r)) : Grows x := by
  intro r
  rw [hrun]
  exact hf r

theorem pure (a : α) : Grows (Pure.pure a : RenderM α) := fun r => Renderer.Extends.refl r

theorem throw (e : RenderError) : Grows (MonadExcept.throw e : RenderM α) := fun r => Renderer.Extends.refl r

theorem get : Grows (MonadState.get : RenderM Renderer) := fun r => Renderer.Extends.refl r

theorem bind {x : RenderM α} {f : α → RenderM β} (hx : Grows x) (hf : ∀ a, Grows (f a)) :
    Grows (x >>= f) := by
  intro r
  have hr := hx r
  rw [EStateM.run_bind]
  cases hrun : x.run r with
  | ok a s =>
    rw [hrun] at hr
    exact hr.trans (hf a s)
  | error e s =>
    rw [hrun] at hr
    exact hr

theorem ite {c : Prop} [Decidable c] {x y : RenderM α} (hx : Grows x) (hy : Grows y) :
    Grows (if c then x else y) := by
  split
  · exact hx
  · exact hy

theorem forIn {xs : List γ} {f : γ → β → RenderM (ForInStep β)}
    (hf : ∀ y c, Grows (f y c)) : ∀ init, Grows (ForIn.forIn xs init f) := by
  induction xs with
  | nil => exact fun init => pure init
  | cons y ys ih =>
    intro init
    rw [List.forIn_cons]
    refine bind (hf y init) fun step => ?_
    cases step with
    | done c => exact pure c
    | yield c => exact ih c

theorem forIn_range {a b : Nat} {f : Nat → β → RenderM (ForInStep β)}
    (hf : ∀ y c, Grows (f y c)) (init : β) : Grows (ForIn.forIn [a:b] init f) := by
  rw [Std.Legacy.Range.forIn_eq_forIn_range']
  exact forIn hf init

theorem getSet {k : Renderer → RenderM β} {g : Renderer → Renderer}
    (hg : ∀ r : Renderer, r.Extends (g r)) (hk : ∀ r, Grows (k r)) :
    Grows (MonadState.get >>= fun r => MonadState.set (g r) >>= fun _ => k r) :=
  fun r => (hg r).trans (hk r (g r))

theorem modify {f : Renderer → Renderer} (hf : ∀ r : Renderer, r.Extends (f r)) :
    Grows (modify f : RenderM Unit) := fun r => hf r

/-- Handing back an error as a value lets the renderer grow as the action does. -/
theorem attempt {x : RenderM α} (h : Grows x) : Grows x.attempt := by
  intro r
  have hr := h r
  change r.Extends (finalRenderer ((tryCatch (Except.ok <$> x) fun e => Pure.pure (Except.error e)) r))
  simp only [tryCatch, tryCatchThe, MonadExceptOf.tryCatch, EStateM.tryCatch, Functor.map,
    EStateM.map]
  change r.Extends (finalRenderer (x r)) at hr
  cases hx : x r with
  | ok b s =>
    rw [hx] at hr
    exact hr
  | error e s =>
    rw [hx] at hr
    exact hr

end Grows

theorem grows_script (frame : Frame) (s : Script) : Grows (script frame s) :=
  .of_run _ (script_run frame s) fun _ => ⟨rfl, List.prefix_refl _, by simp, List.suffix_refl _⟩

theorem grows_doc (f : Document → Document) : Grows (doc f) :=
  .of_run _ (fun _ => rfl) fun _ => .of_eq rfl rfl rfl rfl

theorem grows_docWith (f : Document → α × Document) : Grows (docWith f) :=
  .of_run _ (fun _ => rfl) fun _ => .of_eq rfl rfl rfl rfl

theorem grows_defer (d : Deferred) : Grows (defer d) :=
  .of_run _ (fun _ => rfl) fun _ => ⟨rfl, List.prefix_refl _, List.prefix_refl _, List.suffix_cons _ _⟩

theorem map_state_modify (l : List Instance) (k : Nat) {f : Instance → Instance}
    (hf : ∀ i, (f i).state = i.state) : (l.modify k f).map (·.state) = l.map (·.state) := by
  induction l generalizing k with
  | nil => simp
  | cons x xs ih =>
    cases k with
    | zero => simp [List.modify, hf]
    | succ k => simp [List.modify_succ_cons, ih]

theorem grows_modifyInstance (id : InstanceId) {f : Instance → Instance}
    (hf : ∀ i, (f i).state = i.state) : Grows (modifyInstance id f) :=
  .of_run _ (fun _ => rfl) fun _ =>
    ⟨rfl, by simp [Renderer.states, map_state_modify _ _ hf], List.prefix_refl _, List.suffix_refl _⟩

theorem grows_installPlan (site : List Nat) (plan : Option Plan) : Grows (installPlan site plan) := by
  cases plan with
  | none => exact .pure ()
  | some p =>
    refine .modify fun r => ?_
    split
    · exact Renderer.Extends.refl r
    · exact .of_eq rfl rfl rfl rfl

end RenderM

open RenderM

namespace Bind

theorem grows_compute (env : Env) (s : Script) : Grows (compute env s) :=
  .bind .get fun _ => .bind (grows_script _ _) fun _ => .pure _

theorem grows_test (env : Env) (s : Script) : Grows (test env s) :=
  .bind .get fun _ => .bind (grows_script _ _) fun _ => .pure _

theorem grows_collection (env : Env) (s : Script) : Grows (collection env s) :=
  .bind .get fun _ => .bind (grows_script _ _) fun _ => .pure _

theorem grows_key (env : Env) (s : Script) (item : Value) (index : Nat) :
    Grows (key env s item index) :=
  .bind .get fun _ => .bind (grows_script _ _) fun _ => .pure _

theorem grows_props (env : Env) (s : Script) (item : Value) (index : Nat) :
    Grows (props env s item index) :=
  .bind .get fun _ => .bind (grows_script _ _) fun _ => .pure _

theorem grows_shouldUpdate (env : Env) (s : Script) (prev next : Value) :
    Grows (shouldUpdate env s prev next) :=
  .bind .get fun _ => .bind (grows_script _ _) fun _ => .pure _

theorem grows_factory (props : Value) (s : Script) : Grows (factory props s) :=
  .bind (grows_script _ _) fun _ => .pure _

end Bind

namespace Pass

theorem grows_orBinding {α : Type} (op : Opcode) (x : Except BindingFailure α) :
    Grows (orBinding op x) := by
  cases x with
  | ok a => exact .pure a
  | error f => exact .throw _

theorem grows_current (stack : List (Option NodeId)) : Grows (current stack) := by
  unfold current
  split
  · exact .pure _
  · exact .throw _

theorem grows_resolve (b : Binding) (op : Opcode) (env : Env) (node : Mounted) :
    Grows (resolve b op env node) := by
  cases b with
  | compute sc => exact .bind (Bind.grows_compute env sc) fun x => grows_orBinding op x
  | prop name => exact .pure _
  | sibling s =>
    dsimp only [resolve]
    split
    · exact .pure _
    · exact .throw _

theorem grows_writeProperty (h : NodeId) (p : Property) (text : String) :
    Grows (writeProperty h p text) := by
  unfold writeProperty
  cases p <;> exact grows_doc _

theorem grows_place (stack : List (Option NodeId)) (node : Mounted) (target : Target)
    (child : NodeId) : Grows (place stack node target child) := by
  unfold place
  split
  · exact .bind (grows_doc _) fun _ => .pure _
  · exact .bind (grows_doc _) fun _ => .pure _

theorem grows_register (name : String) (e : NodeId) (reg : Registration) :
    Grows (register name e reg) :=
  .modify fun _ => .of_eq rfl rfl rfl rfl

open Std.Do in
theorem grows_of_triple {α : Type} {x : RenderM α}
    (h : ∀ s : Renderer, ⦃fun r => ⌜s.Extends r⌝⦄ x
      ⦃post⟨fun _ r => ⌜s.Extends r⌝, fun _ r => ⌜s.Extends r⌝⟩⦄) : Grows x := by
  intro r
  have hrun := RenderM.triple_iff_run.1 (h r) r (Renderer.Extends.refl r)
  cases hx : x.run r with
  | ok a s =>
    rw [hx] at hrun
    exact hrun
  | error e s =>
    rw [hx] at hrun
    exact hrun

open Std.Do in
theorem triple_of_grows {α : Type} {x : RenderM α} (h : Grows x) (s : Renderer) :
    ⦃fun r => ⌜s.Extends r⌝⦄ x ⦃post⟨fun _ r => ⌜s.Extends r⌝, fun _ r => ⌜s.Extends r⌝⟩⦄ := by
  refine RenderM.triple_iff_run.2 fun r hr => ?_
  have hx := h r
  cases hrun : x.run r with
  | ok a r' =>
    rw [hrun] at hx
    exact hr.trans hx
  | error e r' =>
    rw [hrun] at hx
    exact hr.trans hx

set_option mvcgen.warning false in
open Std.Do in
theorem grows_project (env : Env) (spec : LoopSpec Program) : Grows (project env spec) := by
  refine grows_of_triple fun s => ?_
  have hscript := fun frame sc => triple_of_grows (grows_script frame sc) s
  mvcgen [project, Bind.collection, Bind.key, Bind.props, hscript]
  case inv1 => exact post⟨fun _ r => ⌜s.Extends r⌝, fun _ r => ⌜s.Extends r⌝⟩
  all_goals simp_all

theorem grows_mapM {α β : Type} {f : α → RenderM β} (hf : ∀ a, Grows (f a)) :
    ∀ xs : List α, Grows (xs.mapM f)
  | [] => .pure _
  | x :: xs => by
    rw [List.mapM_cons]
    exact .bind (hf x) fun _ => .bind (grows_mapM hf xs) fun _ => .pure _

/-- A mount function that lets the renderer only grow. -/
def MountFn.Grows (f : MountFn) : Prop :=
  ∀ site q env target, RenderM.Grows (f site q env target)

section Mount

variable {sub : MountFn} (hsub : MountFn.Grows sub)
include hsub

theorem grows_mountBranch (site : List Nat) (p : Program) (env : Env) (pos : Target) :
    Grows (mountBranch sub site p env pos) :=
  .bind (hsub _ _ _ _) fun _ =>
    .ite (.pure _) (.bind (grows_docWith _) fun _ => .bind (grows_doc _) fun _ => .pure _)

theorem grows_mountComponent (site : List Nat) (spec : ComponentSpec Program) (env : Env)
    (pos : Target) : Grows (mountComponent sub site spec env pos) := by
  unfold mountComponent
  dsimp only
  exact .bind (Bind.grows_factory _ _) fun x => .bind (grows_orBinding _ x) fun _ =>
    .getSet (fun _ => .push_instance _ _) fun _ => .bind (hsub _ _ _ _) fun _ =>
      .bind (.modify fun _ => .of_eq rfl rfl rfl rfl) fun _ => .pure _

theorem grows_mountItem (site : List Nat) (spec : LoopSpec Program) (env : Env) (parent : NodeId)
    (p : Projected) (anchor : Option NodeId) : Grows (mountItem sub site spec env parent p anchor) :=
  .bind (hsub _ _ _ _) fun _ => .pure _

theorem grows_mountLoop (site : List Nat) (spec : LoopSpec Program) (env : Env) (parent : NodeId) :
    Grows (mountLoop sub site spec env parent) :=
  .bind (grows_project _ _) fun _ =>
    grows_mapM (fun _ => grows_mountItem hsub _ _ _ _ _ _) _

set_option mvcgen.warning false in
open Std.Do in
theorem grows_mountInstr (site : List Nat) (env : Env) (target : Target) (node : Mounted)
    (stack : List (Option NodeId)) (instr : Instruction) (k : Nat) :
    Grows (mountInstr sub site env target node stack instr k) := by
  refine grows_of_triple fun s => ?_
  have hdoc := fun f => triple_of_grows (grows_doc f) s
  have hdocWith := fun {α} (f : Document → α × Document) => triple_of_grows (grows_docWith f) s
  have hcurrent := fun stack => triple_of_grows (grows_current stack) s
  have hplace := fun stack node target child =>
    triple_of_grows (grows_place stack node target child) s
  have hwrite := fun h p text => triple_of_grows (grows_writeProperty h p text) s
  have hresolve := fun b op env node => triple_of_grows (grows_resolve b op env node) s
  have htest := fun env sc => triple_of_grows (Bind.grows_test env sc) s
  have hbranch := fun site p env pos => triple_of_grows (grows_mountBranch hsub site p env pos) s
  have hloop := fun site l env parent => triple_of_grows (grows_mountLoop hsub site l env parent) s
  have hcomponent := fun site c env pos =>
    triple_of_grows (grows_mountComponent hsub site c env pos) s
  have hdefer := fun d => triple_of_grows (grows_defer d) s
  have hregister := fun n e reg => triple_of_grows (grows_register n e reg) s
  cases instr <;> mvcgen [mountInstr, orBinding, hdoc, hdocWith, hcurrent, hplace, hwrite, hresolve,
    htest, hbranch, hloop, hcomponent, hdefer, hregister]

end Mount

theorem grows_mount : ∀ fuel, MountFn.Grows (mount fuel)
  | 0 => fun _ _ _ _ => .throw _
  | fuel + 1 => fun site q env target => by
    rw [mount_succ, mountSteps]
    exact .bind .get fun _ => .bind (.forIn (fun _ _ =>
      .bind (grows_mountInstr (grows_mount fuel) _ _ _ _ _ _ _) fun _ => .pure _) _) fun _ =>
      .bind (grows_installPlan _ _) fun _ => .pure _

theorem grows_release (name : String) (e : NodeId) : Grows (release name e) :=
  .modify fun _ => .of_eq rfl rfl rfl rfl

theorem grows_retire (id : InstanceId) : Grows (retire id) :=
  .bind (grows_modifyInstance id fun _ => rfl) fun _ => .modify fun _ => .of_eq rfl rfl rfl rfl

theorem grows_unmountOp {sub : Mounted → RenderM Unit} (hsub : ∀ n, Grows (sub n))
    (node : Mounted) (op : UnmountOp) : Grows (unmountOp sub node op) := by
  cases op with
  | releaseEvent name s =>
    dsimp only [unmountOp]
    split
    · exact grows_release _ _
    · exact .pure ()
  | ternary s =>
    dsimp only [unmountOp]
    split
    · exact hsub _
    · exact .pure ()
  | loop s =>
    dsimp only [unmountOp]
    split
    · exact .bind (.forIn (fun _ _ => .bind (hsub _) fun _ => .pure _) _) fun _ => .pure _
    · exact .pure ()
  | component s =>
    dsimp only [unmountOp]
    split
    · exact .bind (grows_retire _) fun _ => hsub _
    · exact .pure ()

/-- Unmounting lets the renderer only grow: it marks instances unmounted and keeps them. -/
theorem grows_unmount : ∀ (fuel : Nat) (n : Mounted), Grows (unmount fuel n)
  | 0, _ => .pure ()
  | fuel + 1, n => by
    rw [unmount.eq_2]
    refine .bind .get fun r => ?_
    split
    · exact .pure ()
    · exact .bind (.forIn (fun op _ =>
        .bind (grows_unmountOp (grows_unmount fuel) n op) fun _ => .pure _) _) fun _ => .pure _

theorem grows_removeNodes (parent : NodeId) (ns : List NodeId) : Grows (removeNodes parent ns) :=
  .bind (.forIn (fun _ _ => .bind (grows_doc _) fun _ => .pure _) _) fun _ => .pure _

theorem grows_insertNodes (parent : NodeId) (ns : List NodeId) (anchor : Option NodeId) :
    Grows (insertNodes parent ns anchor) :=
  .bind (.forIn (fun _ _ => .bind (grows_doc _) fun _ => .pure _) _) fun _ => .pure _

/-- The passes an update hands nested work to let the renderer only grow. -/
structure Subpasses.Grows (sub : Subpasses) : Prop where
  mount : MountFn.Grows sub.mount
  update : ∀ n env, RenderM.Grows (sub.update n env)
  unmount : ∀ n, RenderM.Grows (sub.unmount n)

theorem grows_refreshLeaf (node : Mounted) (s : Nat) {value : RenderM Value}
    {write : NodeId → String → RenderM Unit} (hvalue : Grows value)
    (hwrite : ∀ h t, Grows (write h t)) : Grows (refreshLeaf node s value write) := by
  refine .bind (.attempt hvalue) fun x => ?_
  split
  · exact .pure _
  · split
    · exact .ite (.pure _) (.bind (hwrite _ _) fun _ => .pure _)
    · exact .pure _

section Update

variable {sub : Subpasses} (hsub : sub.Grows)
include hsub

set_option mvcgen.warning false

open Std.Do

theorem grows_updateTernary (node : Mounted) (k : Nat) (spec : TernarySpec Program) (env : Env) :
    Grows (updateTernary sub node k spec env) := by
  refine grows_of_triple fun s => ?_
  have htest := fun env sc => triple_of_grows (Bind.grows_test env sc) s
  have hupdate := fun n env => triple_of_grows (hsub.update n env) s
  have hunmount := fun n => triple_of_grows (hsub.unmount n) s
  have hremove := fun p ns => triple_of_grows (grows_removeNodes p ns) s
  have hbranch := fun site p env pos =>
    triple_of_grows (Grows.attempt (grows_mountBranch hsub.mount site p env pos)) s
  mvcgen [updateTernary, htest, hupdate, hunmount, hremove, hbranch]

theorem grows_removeItem (parent : NodeId) (it : LoopItem Mounted) :
    Grows (removeItem sub parent it) :=
  .bind (hsub.unmount _) fun _ => grows_removeNodes _ _

theorem grows_clearItems (spec : LoopSpec Program) (parent : NodeId)
    (items : List (LoopItem Mounted)) : Grows (clearItems sub spec parent items) := by
  unfold clearItems
  split
  · exact .bind (.forIn (fun _ _ => .bind (hsub.unmount _) fun _ => .pure _) _) fun _ => grows_doc _
  · exact .bind (.forIn (fun _ _ => .bind (grows_removeItem hsub _ _) fun _ => .pure _) _) fun _ =>
      .pure _

theorem grows_patchItem (spec : LoopSpec Program) (env : Env) (it : LoopItem Mounted)
    (p : Projected) : Grows (patchItem sub spec env it p) := by
  refine grows_of_triple fun s => ?_
  have hshould := fun env sc prev next => triple_of_grows (Bind.grows_shouldUpdate env sc prev next) s
  have hupdate := fun n env => triple_of_grows (hsub.update n env) s
  mvcgen [patchItem, hshould, hupdate]

omit hsub in
theorem grows_take {α : Type} (xs : Array (Option α)) (i : Nat) : Grows (take xs i) := by
  unfold take
  split
  · exact .pure _
  · exact .throw _

theorem grows_patchAt (spec : LoopSpec Program) (env : Env) (t : Tables) (i j : Nat) :
    Grows (patchAt sub spec env t i j) := by
  refine grows_of_triple fun s => ?_
  have htake := fun {α : Type} (xs : Array (Option α)) i => triple_of_grows (grows_take xs i) s
  have hpatch := fun it p => triple_of_grows (grows_patchItem hsub spec env it p) s
  mvcgen [patchAt, htake, hpatch]

theorem grows_mountAt (site : List Nat) (spec : LoopSpec Program) (env : Env) (parent : NodeId)
    (t : Tables) (j : Nat) (anchor : Option NodeId) :
    Grows (mountAt sub site spec env parent t j anchor) := by
  refine grows_of_triple fun s => ?_
  have htake := fun {α : Type} (xs : Array (Option α)) i => triple_of_grows (grows_take xs i) s
  have hmount := fun p => triple_of_grows (grows_mountItem hsub.mount site spec env parent p anchor) s
  mvcgen [mountAt, htake, hmount]

theorem grows_trimPrefix (spec : LoopSpec Program) (env : Env) (aKeys bKeys : Array Key)
    (aEnd bEnd n : Nat) (t : Tables) : Grows (trimPrefix sub spec env aKeys bKeys aEnd bEnd n t) := by
  refine grows_of_triple fun s => ?_
  have hpatch := fun t i j => triple_of_grows (grows_patchAt hsub spec env t i j) s
  mvcgen [trimPrefix, hpatch] invariants
  · post⟨fun _ r => ⌜s.Extends r⌝, fun _ r => ⌜s.Extends r⌝⟩

theorem grows_trimSuffix (spec : LoopSpec Program) (env : Env) (aKeys bKeys : Array Key)
    (aStart bStart aEnd bEnd n : Nat) (t : Tables) :
    Grows (trimSuffix sub spec env aKeys bKeys aStart bStart aEnd bEnd n t) := by
  refine grows_of_triple fun s => ?_
  have hpatch := fun t i j => triple_of_grows (grows_patchAt hsub spec env t i j) s
  mvcgen [trimSuffix, hpatch] invariants
  · post⟨fun _ r => ⌜s.Extends r⌝, fun _ r => ⌜s.Extends r⌝⟩

theorem grows_insertRange (site : List Nat) (spec : LoopSpec Program) (env : Env)
    (parent : NodeId) (bStart bEnd : Nat) (t : Tables) :
    Grows (insertRange sub site spec env parent bStart bEnd t) := by
  refine grows_of_triple fun s => ?_
  have hmount := fun t j anchor => triple_of_grows (grows_mountAt hsub site spec env parent t j anchor) s
  mvcgen [insertRange, hmount] invariants
  · post⟨fun _ r => ⌜s.Extends r⌝, fun _ r => ⌜s.Extends r⌝⟩

theorem grows_removeRange (parent : NodeId) (aStart aEnd : Nat) (t : Tables) :
    Grows (removeRange sub parent aStart aEnd t) := by
  refine grows_of_triple fun s => ?_
  have htake := fun {α : Type} (xs : Array (Option α)) i => triple_of_grows (grows_take xs i) s
  have hremove := fun it => triple_of_grows (grows_removeItem hsub parent it) s
  mvcgen [removeRange, htake, hremove] invariants
  · post⟨fun _ r => ⌜s.Extends r⌝, fun _ r => ⌜s.Extends r⌝⟩

theorem grows_patchPairs (spec : LoopSpec Program) (env : Env) (pairs : List (Nat × Nat))
    (t : Tables) : Grows (patchPairs sub spec env pairs t) := by
  refine grows_of_triple fun s => ?_
  have hpatch := fun t i j => triple_of_grows (grows_patchAt hsub spec env t i j) s
  mvcgen [patchPairs, hpatch] invariants
  · post⟨fun _ r => ⌜s.Extends r⌝, fun _ r => ⌜s.Extends r⌝⟩

theorem grows_replaceAll (site : List Nat) (spec : LoopSpec Program) (env : Env)
    (parent : NodeId) (t : Tables) : Grows (replaceAll sub site spec env parent t) := by
  refine grows_of_triple fun s => ?_
  have hclear := fun items => triple_of_grows (grows_clearItems hsub spec parent items) s
  have hmount := fun p anchor => triple_of_grows (grows_mountItem hsub.mount site spec env parent p anchor) s
  mvcgen [replaceAll, hclear, hmount] invariants
  · post⟨fun _ r => ⌜s.Extends r⌝, fun _ r => ⌜s.Extends r⌝⟩

theorem grows_removeLeft (parent : NodeId) (aStart aEnd : Nat) (t : Tables) :
    Grows (removeLeft sub parent aStart aEnd t) := by
  refine grows_of_triple fun s => ?_
  have hremove := fun it => triple_of_grows (grows_removeItem hsub parent it) s
  mvcgen [removeLeft, hremove] invariants
  · post⟨fun _ r => ⌜s.Extends r⌝, fun _ r => ⌜s.Extends r⌝⟩

theorem grows_placeMiddle (site : List Nat) (spec : LoopSpec Program) (env : Env)
    (parent : NodeId) (m : Matching) (bStart bLen : Nat) (t : Tables) :
    Grows (placeMiddle sub site spec env parent m bStart bLen t) := by
  refine grows_of_triple fun s => ?_
  have hmount := fun t j anchor => triple_of_grows (grows_mountAt hsub site spec env parent t j anchor) s
  have hinsert := fun ns anchor => triple_of_grows (grows_insertNodes parent ns anchor) s
  mvcgen [placeMiddle, hmount, hinsert] invariants
  · post⟨fun _ r => ⌜s.Extends r⌝, fun _ r => ⌜s.Extends r⌝⟩

omit hsub in
theorem grows_collect (t : Tables) : Grows (collect t) := by
  unfold collect
  split
  · exact .pure _
  · exact .throw _

theorem grows_reconcile (site : List Nat) (spec : LoopSpec Program) (env : Env) (parent : NodeId)
    (prev : List (LoopItem Mounted)) (next : List Projected) :
    Grows (reconcile sub site spec env parent prev next) := by
  refine grows_of_triple fun s => ?_
  have hprefix := fun aKeys bKeys aEnd bEnd n t =>
    triple_of_grows (grows_trimPrefix hsub spec env aKeys bKeys aEnd bEnd n t) s
  have hsuffix := fun aKeys bKeys aStart bStart aEnd bEnd n t =>
    triple_of_grows (grows_trimSuffix hsub spec env aKeys bKeys aStart bStart aEnd bEnd n t) s
  have hinsert := fun bStart bEnd t =>
    triple_of_grows (grows_insertRange hsub site spec env parent bStart bEnd t) s
  have hremove := fun aStart aEnd t => triple_of_grows (grows_removeRange hsub parent aStart aEnd t) s
  have hpairs := fun pairs t => triple_of_grows (grows_patchPairs hsub spec env pairs t) s
  have hreplace := fun t => triple_of_grows (grows_replaceAll hsub site spec env parent t) s
  have hleft := fun aStart aEnd t => triple_of_grows (grows_removeLeft hsub parent aStart aEnd t) s
  have hmiddle := fun m bStart bLen t =>
    triple_of_grows (grows_placeMiddle hsub site spec env parent m bStart bLen t) s
  have hcollect := fun t => triple_of_grows (grows_collect t) s
  mvcgen [reconcile, hprefix, hsuffix, hinsert, hremove, hpairs, hreplace, hleft, hmiddle, hcollect]

theorem grows_reconcileAll (site : List Nat) (spec : LoopSpec Program) (env : Env)
    (parent : NodeId) (prev : List (LoopItem Mounted)) (next : List Projected) :
    Grows (reconcileAll sub site spec env parent prev next) := by
  unfold reconcileAll
  split
  · exact .pure _
  · exact grows_mapM (fun _ => grows_mountItem hsub.mount _ _ _ _ _ _) _
  · exact .bind (grows_clearItems hsub _ _ _) fun _ => .pure _
  · exact grows_reconcile hsub _ _ _ _ _ _

theorem grows_updateLoop (node : Mounted) (k : Nat) (spec : LoopSpec Program) (env : Env) :
    Grows (updateLoop sub node k spec env) := by
  refine grows_of_triple fun s => ?_
  have hproject := fun env spec => triple_of_grows (Grows.attempt (grows_project env spec)) s
  have hreconcile := fun site parent prev next =>
    triple_of_grows (Grows.attempt (grows_reconcileAll hsub site spec env parent prev next)) s
  mvcgen [updateLoop, hproject, hreconcile]

theorem grows_updateComponent (node : Mounted) (s : Nat) (env : Env) :
    Grows (updateComponent sub node s env) := by
  refine grows_of_triple fun s₀ => ?_
  have hmodify := fun id => triple_of_grows
    (grows_modifyInstance id (f := fun i => { i with props := env.props }) fun _ => rfl) s₀
  have hupdate := fun n env => triple_of_grows (hsub.update n env) s₀
  mvcgen [updateComponent, hmodify, hupdate]

theorem grows_updateOp (node : Mounted) (k : Nat) (op : UpdateOp) (env : Env) :
    Grows (updateOp sub node k op env) := by
  cases op
  · exact grows_refreshLeaf _ _ (grows_resolve _ _ _ _) fun _ _ => grows_writeProperty _ _ _
  · exact grows_refreshLeaf _ _ (grows_resolve _ _ _ _) fun h t => grows_doc (·.setAttribute h _ t)
  · exact grows_refreshLeaf _ _ (grows_resolve _ _ _ _) fun h t => grows_doc (·.setTextContent h t)
  · exact grows_updateTernary hsub _ _ _ _
  · exact grows_updateLoop hsub _ _ _ _
  · exact grows_updateComponent hsub _ _ _
  · exact .bind (grows_defer _) fun _ => .pure _
  · dsimp only [updateOp]
    split
    · exact .bind (.modify fun _ => .of_eq rfl rfl rfl rfl) fun _ => .pure _
    · exact .pure _

end Update

set_option mvcgen.warning false in
open Std.Do in
/-- An update pass lets the renderer only grow, at any depth. -/
theorem grows_updateNode : ∀ (fuel : Nat) (node : Mounted) (env : Env),
    Grows (updateNode fuel node env)
  | 0, _, _ => .pure _
  | fuel + 1, node, env => by
    have hsub : Subpasses.Grows ⟨fun s p e t => mount fuel s p e t, fun n e => updateNode fuel n e,
        unmount fuel⟩ := ⟨grows_mount fuel, grows_updateNode fuel, grows_unmount fuel⟩
    rw [updateNode.eq_2]
    refine grows_of_triple fun s => ?_
    have hop := fun node k op env => triple_of_grows (grows_updateOp hsub node k op env) s
    mvcgen [hop] invariants
    · post⟨fun _ r => ⌜s.Extends r⌝, fun _ r => ⌜s.Extends r⌝⟩
    · post⟨fun _ r => ⌜s.Extends r⌝, fun _ r => ⌜s.Extends r⌝⟩

end Pass

end Canopy
