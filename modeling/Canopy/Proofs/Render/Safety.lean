import Mathlib
import Canopy.Proofs.Render.Updating
import Canopy.Proofs.Render.Unmounting
import Canopy.Proofs.Render.Sessions
import Canopy.Proofs.Render.Flushing
import Canopy.Program.Builder

/-!
# Sessions of decoded programs never break an invariant

The roots of a renderer are well formed (`RootsWellFormed`) when each is a well-formed node and
no two share a container. Every call keeps this, whether it succeeds or fails, and fails only
with an error that is no broken invariant (`Call.run_stays`): mounting a decoded program builds a
well-formed node, an update of a well-formed node hands back one of the same program, and the
flush updates nodes at paths inside the roots, each well formed. So from a renderer without roots,
every state a session of calls reaches has well-formed roots (`Reaches.rootsWellFormed`).

Two consequences. `Reaches.safe`: no call from a reachable state stops at a broken invariant, every
slot index a mounted program uses is below its node's slot count, and no update or unmount of a
node in the roots stops at one. `Reaches.loopsKeyed`: every loop slot in the roots holds items
with pairwise distinct keys, and reconciling them takes each position at most once and fills
every next position.

`RenderM.Stays I x` says that `x` keeps `I` whatever its outcome and fails with no broken
invariant; it is built up from the parts of a call like a triple, and is what a call's proof
composes when `mvcgen` cannot see through a loop.
-/

open Std.Do

set_option mvcgen.warning false

namespace Canopy

/-- Mounted roots that are well-formed nodes, at most one per container. -/
structure RootsWellFormed (fs : List Fiber) : Prop where
  nodes : ∀ f ∈ fs, f.node.WellFormed
  containers : (fs.map (·.container)).Nodup

namespace RootsWellFormed

variable {fs : List Fiber}

theorem nil : RootsWellFormed [] :=
  ⟨fun _ h => absurd h List.not_mem_nil, List.nodup_nil⟩

theorem filter (h : RootsWellFormed fs) (p : Fiber → Bool) : RootsWellFormed (fs.filter p) :=
  ⟨fun f hf => h.nodes f (List.mem_of_mem_filter hf),
    h.containers.sublist ((List.filter_sublist).map _)⟩

/-- A root mounted into a container that has none. -/
theorem append (h : RootsWellFormed fs) {f : Fiber} (hf : f.node.WellFormed)
    (hc : ∀ g ∈ fs, g.container ≠ f.container) : RootsWellFormed (fs ++ [f]) := by
  refine ⟨fun g hg => ?_, ?_⟩
  · rcases List.mem_append.1 hg with hg | hg
    · exact h.nodes g hg
    · rw [List.mem_singleton.1 hg]
      exact hf
  · rw [List.map_append, List.nodup_append]
    refine ⟨h.containers, List.nodup_singleton _, fun a ha b hb => ?_⟩
    obtain ⟨g, hg, rfl⟩ := List.mem_map.1 ha
    rw [List.map_singleton, List.mem_singleton] at hb
    subst hb
    exact hc g hg

theorem eq_of_container (h : RootsWellFormed fs) {f g : Fiber} (hf : f ∈ fs) (hg : g ∈ fs)
    (hc : g.container = f.container) : g = f :=
  List.inj_on_of_nodup_map h.containers hg hf hc

/-- Changing the root of one container into a well-formed root of that container. -/
theorem map_container (h : RootsWellFormed fs) {c : NodeId} (g : Fiber → Fiber)
    (hg : ∀ f ∈ fs, f.container = c → (g f).node.WellFormed ∧ (g f).container = c) :
    RootsWellFormed (fs.map fun f => if f.container == c then g f else f) := by
  have hcont : ∀ f ∈ fs,
      (if f.container == c then g f else f).container = f.container := by
    intro f hf
    split
    · rename_i hfc
      rw [beq_iff_eq] at hfc
      rw [(hg f hf hfc).2, hfc]
    · rfl
  refine ⟨fun f hf => ?_, ?_⟩
  · obtain ⟨f', hf', rfl⟩ := List.mem_map.1 hf
    split
    · rename_i hfc
      exact (hg f' hf' (beq_iff_eq.1 hfc)).1
    · exact h.nodes f' hf'
  · have hmap : (fs.map fun f => if f.container == c then g f else f).map (·.container) =
        fs.map (·.container) := by
      rw [List.map_map]
      exact List.map_congr_left fun f hf => hcont f hf
    rw [hmap]
    exact h.containers

/-- Changing the root of the container of a root `f` keeps the roots well formed when the
change keeps containers and makes `f`'s node a well-formed one. -/
theorem update (h : RootsWellFormed fs) {f : Fiber} (hf : f ∈ fs) {c : NodeId}
    (hc : f.container = c) (g : Fiber → Fiber) (hg : (g f).node.WellFormed)
    (hgc : ∀ f, (g f).container = f.container) :
    RootsWellFormed (fs.map fun x => if x.container == c then g x else x) := by
  refine h.map_container g fun x hx hxc => ?_
  obtain rfl := h.eq_of_container hf hx (hxc.trans hc.symm)
  exact ⟨hg, (hgc x).trans hxc⟩

/-- Replacing the node at a path of the root of a container by an update of it keeps the roots
well formed. -/
theorem setAt (h : RootsWellFormed fs) {f : Fiber} (hf : f ∈ fs) {c : NodeId}
    (hc : f.container = c) {path : List Step} {n : Mounted} (hp : f.node.get? path = some n)
    {res : Mounted × Option RenderError} (hup : Pass.Updated n res) (events : EventTables) :
    RootsWellFormed (fs.map fun g =>
      if g.container == c then { g with node := g.node.setAt path res.1, events } else g) :=
  h.update hf hc _ ((h.nodes f hf).setAt hp hup.1 hup.2.1).1 fun _ => rfl

end RootsWellFormed

namespace Renderer

theorem mem_of_fiber? {r : Renderer} {c : NodeId} {f : Fiber} (h : r.fiber? c = some f) :
    f ∈ r.fibers ∧ f.container = c := by
  unfold fiber? at h
  exact ⟨List.mem_of_find?_eq_some h, by simpa using List.find?_some h⟩

theorem mem_of_fiber?_of_eq {r : Renderer} {c : NodeId} {f : Fiber} (h : r.fiber? c = some f)
    {fs : List Fiber} (hr : r.fibers = fs) : f ∈ fs ∧ f.container = c :=
  hr ▸ mem_of_fiber? h

theorem fiber?_eq_none {r : Renderer} {c : NodeId} :
    r.fiber? c = none ↔ ∀ g ∈ r.fibers, g.container ≠ c := by
  unfold fiber?
  simp

end Renderer

namespace RenderM

variable {α β γ : Type} {I : Renderer → Prop}

/-- From every renderer where `I` holds, `x` ends at a renderer where `I` holds, whether it
succeeds or fails, and it fails with no broken invariant. -/
def Stays (I : Renderer → Prop) (x : RenderM α) : Prop :=
  ∀ r, I r → match x.run r with
    | .ok _ r' => I r'
    | .error e r' => e.isDefensive = false ∧ I r'

namespace Stays

theorem pure (a : α) : Stays I (Pure.pure a : RenderM α) := fun _ h => h

theorem get : Stays I (MonadState.get : RenderM Renderer) := fun _ h => h

theorem throw {e : RenderError} (he : e.isDefensive = false) :
    Stays I (MonadExcept.throw e : RenderM α) := fun _ h => ⟨he, h⟩

theorem modify {f : Renderer → Renderer} (hf : ∀ r, I r → I (f r)) :
    Stays I (modify f : RenderM Unit) := fun r h => hf r h

theorem bind {x : RenderM α} {f : α → RenderM β} (hx : Stays I x) (hf : ∀ a, Stays I (f a)) :
    Stays I (x >>= f) := by
  intro r h
  have hr := hx r h
  rw [EStateM.run_bind]
  cases hrun : x.run r with
  | ok a s =>
    rw [hrun] at hr
    exact hf a s hr
  | error e s =>
    rw [hrun] at hr
    exact hr

theorem forIn {xs : List γ} {f : γ → β → RenderM (ForInStep β)}
    (hf : ∀ y c, Stays I (f y c)) : ∀ init, Stays I (ForIn.forIn xs init f) := by
  induction xs with
  | nil => exact fun init => pure init
  | cons y ys ih =>
    intro init
    rw [List.forIn_cons]
    refine bind (hf y init) fun step => ?_
    cases step with
    | done c => exact pure c
    | yield c => exact ih c

theorem of_triple {x : RenderM α}
    (h : ⦃fun r => ⌜I r⌝⦄ x ⦃post⟨fun _ r => ⌜I r⌝, fun e r => ⌜e.isDefensive = false ∧ I r⌝⟩⦄) :
    Stays I x :=
  triple_iff_run.1 h

theorem triple {x : RenderM α} (h : Stays I x) :
    ⦃fun r => ⌜I r⌝⦄ x ⦃post⟨fun _ r => ⌜I r⌝, fun e r => ⌜e.isDefensive = false ∧ I r⌝⟩⦄ :=
  triple_iff_run.2 h

theorem map {x : RenderM α} (hx : Stays I x) (f : α → β) : Stays I (f <$> x) := by
  intro r h
  have hr := hx r h
  simp only [EStateM.run] at hr ⊢
  show match EStateM.map f x r with | .ok _ r' => I r' | .error e r' => e.isDefensive = false ∧ I r'
  unfold EStateM.map
  cases hrun : x r with
  | ok a s =>
    rw [hrun] at hr
    exact hr
  | error e s =>
    rw [hrun] at hr
    exact hr

/-- What `I` gives of the renderer an action leaves, whether it succeeds or fails. -/
theorem finalRenderer {x : RenderM α} (hx : Stays I x) {r : Renderer} (h : I r) :
    I (RenderM.finalRenderer (x.run r)) := by
  have hr := hx r h
  cases hrun : x.run r with
  | ok a s =>
    rw [hrun] at hr
    exact hr
  | error e s =>
    rw [hrun] at hr
    exact hr.2

end Stays

end RenderM

namespace Pass

theorem outcome_run {α : Type} {x : RenderM α} {Q : α → Prop}
    (h : ∀ fs, ⦃fun r => ⌜r.fibers = fs⌝⦄ x ⦃Outcome fs Q⦄) (r : Renderer) :
    match x.run r with
    | .ok a r' => Q a ∧ r'.fibers = r.fibers
    | .error e r' => e.isDefensive = false ∧ r'.fibers = r.fibers :=
  RenderM.triple_iff_run.1 (h r.fibers) r rfl

/-- A part of a pass that keeps the mounted roots keeps every property of them. -/
theorem outcome_lift {α : Type} {x : RenderM α} {Q : α → Prop}
    (h : ∀ fs, ⦃fun r => ⌜r.fibers = fs⌝⦄ x ⦃Outcome fs Q⦄) (J : List Fiber → Prop) :
    ⦃fun r => ⌜J r.fibers⌝⦄ x
    ⦃post⟨fun a r => ⌜Q a ∧ J r.fibers⌝, fun e r => ⌜e.isDefensive = false ∧ J r.fibers⌝⟩⦄ := by
  refine RenderM.triple_iff_run.2 fun r hr => ?_
  have hrun := outcome_run h r
  cases hx : x.run r with
  | ok a s =>
    rw [hx] at hrun
    exact ⟨hrun.1, by rw [hrun.2]; exact hr⟩
  | error e s =>
    rw [hx] at hrun
    exact ⟨hrun.1, by rw [hrun.2]; exact hr⟩

/-- A part of a pass that keeps the mounted roots keeps them well formed. -/
theorem stays_of_keeps {α : Type} {x : RenderM α} (h : ∀ fs, ⦃fun r => ⌜r.fibers = fs⌝⦄ x ⦃Keeps fs⦄) :
    RenderM.Stays (fun r => RootsWellFormed r.fibers) x := by
  intro r hr
  have hrun := outcome_run (fun fs => outcome_of_keeps (h fs)) r
  cases hx : x.run r with
  | ok a s =>
    rw [hx] at hrun
    show RootsWellFormed s.fibers
    rw [hrun.2]
    exact hr
  | error e s =>
    rw [hx] at hrun
    refine ⟨hrun.1, ?_⟩
    show RootsWellFormed s.fibers
    rw [hrun.2]
    exact hr

/-- What a part of a session leaves: well-formed roots, one per container, whether it succeeds
or fails, and no broken invariant when it fails. -/
abbrev Stays {α : Type} : PostCond α (.except RenderError (.arg Renderer .pure)) :=
  post⟨fun _ r => ⌜RootsWellFormed r.fibers⌝,
    fun e r => ⌜e.isDefensive = false ∧ RootsWellFormed r.fibers⌝⟩

/-- Deferred callbacks run scripts only, and fail with a callback error. -/
theorem runDeferred_stays : RenderM.Stays (fun r => RootsWellFormed r.fibers) runDeferred := by
  have hscript := fun frame s => stays_of_keeps (fun fs => script_spec fs frame s)
  refine .bind .get fun r => .bind (.modify fun _ h => h) fun _ => ?_
  refine .bind (RenderM.Stays.forIn (fun d _ => ?_) _) fun _ => .pure _
  cases d with
  | lifecycle kind cb owner =>
    refine .bind .get fun s => .bind (hscript _ _) fun o => ?_
    cases o with
    | error e => exact .bind (.throw rfl) fun _ => .pure _
    | ok v => exact .pure _
  | settled cb owner =>
    refine .bind .get fun s => .bind (hscript _ _) fun o => ?_
    cases o with
    | error e => exact .bind (.throw rfl) fun _ => .pure _
    | ok v => exact .pure _

/-- Mounting a decoded program into a container without a root adds a well-formed root. -/
theorem mountRoot_stays (c : NodeId) (root : Nat) {program : Program} (hp : program.WellFormed)
    (props : Value) :
    ⦃fun r => ⌜RootsWellFormed r.fibers ∧ ∀ g ∈ r.fibers, g.container ≠ c⌝⦄
    Renderer.mountRoot c root program props ⦃Stays⦄ := by
  have hmount := outcome_lift (fun fs => mount_sound (program.depth + 1) [root] program { props }
    { parent := c } fs hp (Nat.lt_succ_self _)) fun fs => RootsWellFormed fs ∧ ∀ g ∈ fs, g.container ≠ c
  mvcgen [Renderer.mountRoot, hmount]
  case vc2.post.success =>
    obtain ⟨⟨hwf, -⟩, hroots, hfree⟩ := ‹(_ ∧ _) ∧ RootsWellFormed _ ∧ _›
    exact hroots.append hwf hfree
  all_goals simp_all +zetaDelta

/-- An update of a well-formed node, with fuel above its depth, keeps every property of the
mounted roots and hands back a well-formed node of its program. -/
theorem updateNode_lift (n : Mounted) (env : Env) (J : List Fiber → Prop) :
    ⦃fun r => ⌜n.WellFormed ∧ J r.fibers⌝⦄ updateNode (n.program.depth + 1) n env
    ⦃post⟨fun res r => ⌜Updated n res ∧ J r.fibers⌝,
      fun e r => ⌜e.isDefensive = false ∧ J r.fibers⌝⟩⦄ := by
  apply Triple.iff.mpr
  intro r hr
  obtain ⟨hn, hJ⟩ := hr
  exact Triple.iff.mp (outcome_lift (fun fs => updateNode_updated _ n env fs hn
    (Nat.lt_succ_self _)) J) r hJ

/-- Updating the root of a container keeps the roots well formed. -/
theorem updateRoot_stays (c : NodeId) (props : Value) :
    ⦃fun r => ⌜RootsWellFormed r.fibers⌝⦄ Renderer.updateRoot c props ⦃Stays⦄ := by
  have hupdate := fun f : Fiber => updateNode_lift f.node { props }
    fun fs => RootsWellFormed fs ∧ f ∈ fs ∧ f.container = c
  mvcgen [Renderer.updateRoot, hupdate]
  case vc1.h_1.pre =>
    obtain ⟨hmem, hc⟩ := Renderer.mem_of_fiber? ‹_›
    exact ⟨‹RootsWellFormed _›.nodes _ hmem, ‹_›, hmem, hc⟩
  case vc2.h_1.post.success.h_1 =>
    -- the update stopped at an error: the partly updated root is stored first
    obtain ⟨hup, hroots, hmem, hc⟩ := ‹Updated _ _ ∧ _›
    exact ⟨hup.2.2 _ ‹_ = some _›, hroots.update hmem hc _ hup.1 fun _ => rfl⟩
  case vc3.h_1.post.success.h_2 =>
    obtain ⟨hup, hroots, hmem, hc⟩ := ‹Updated _ _ ∧ _›
    exact hroots.update hmem hc _ hup.1 fun _ => rfl
  case vc4.h_1.post.except.handle => exact fun he hroots _ _ => ⟨he, hroots⟩

/-- Unmounting the root of a container keeps the roots well formed and leaves the container
without one. -/
theorem unmountRoot_stays (c : NodeId) :
    ⦃fun r => ⌜RootsWellFormed r.fibers⌝⦄ Renderer.unmountRoot c
    ⦃post⟨fun _ r => ⌜RootsWellFormed r.fibers ∧ ∀ g ∈ r.fibers, g.container ≠ c⌝,
      fun e r => ⌜e.isDefensive = false ∧ RootsWellFormed r.fibers⌝⟩⦄ := by
  let J := fun fs => RootsWellFormed fs ∧ ∀ g ∈ fs, g.container ≠ c
  have hunmount := fun fuel n => outcome_lift (fun fs => outcome_of_keeps (unmount_spec fs fuel n)) J
  have hremove := fun ns => outcome_lift (fun fs => outcome_of_keeps (removeNodes_spec fs c ns)) J
  mvcgen [Renderer.unmountRoot, hunmount, hremove]
  case vc1.h_1.pre =>
    refine ⟨‹RootsWellFormed _›.filter _, fun g hg => ?_⟩
    simpa using (List.mem_filter.1 hg).2
  case vc6.h_2 =>
    rename_i hr _ hnone hfib
    subst hfib
    exact ⟨hr, Renderer.fiber?_eq_none.1 (Option.eq_none_iff_forall_ne_some.2 hnone)⟩
  all_goals simp_all +zetaDelta

/-- The update pass over an instance's node, of a well-formed node, keeps the mounted roots and
hands back a well-formed node of its program. -/
theorem updateInstanceNode_updated (fs : List Fiber) (id : InstanceId) (props : Value)
    (n : Mounted) :
    ⦃fun r => ⌜r.fibers = fs ∧ n.WellFormed⌝⦄ updateInstanceNode id props n
    ⦃Outcome fs (Updated n)⦄ :=
  Triple.iff.mpr fun r hr =>
    Triple.iff.mp (updateNode_updated _ n _ fs hr.2 (Nat.lt_succ_self _)) r hr.1

/-- Applying a queued update keeps the roots well formed. -/
theorem applyUpdate_stays (u : QueuedUpdate) {fs : List Fiber} (hfs : RootsWellFormed fs) :
    ⦃fun r => ⌜r.fibers = fs⌝⦄ applyUpdate u ⦃Stays⦄ := by
  have hscript := fun frame s => script_spec fs frame s
  have hupdate := updateInstanceNode_updated fs
  mvcgen [applyUpdate, hupdate, hscript, RenderM.modifyInstance,
    RenderM.defer]
  -- the patched and the computed partial state leave the same four goals
  case vc2.h_1.h_1.isFalse.h_1.h_1.h_1.h_1.pre
      | vc8.h_1.h_1.isFalse.h_1.h_1.h_1.h_2.post.success.h_1.pre =>
    obtain ⟨hmem, -⟩ := Renderer.mem_of_fiber?_of_eq ‹Renderer.fiber? _ _ = some _› ‹_›
    exact ⟨‹_›, (hfs.nodes _ hmem).get ‹_›⟩
  case vc3.h_1.h_1.isFalse.h_1.h_1.h_1.h_1.post.success.h_1
      | vc9.h_1.h_1.isFalse.h_1.h_1.h_1.h_2.post.success.h_1.post.success.h_1 =>
    obtain ⟨hmem, hc⟩ := Renderer.mem_of_fiber?_of_eq ‹Renderer.fiber? _ _ = some _› ‹_›
    obtain ⟨hup, hfs'⟩ := ‹Updated _ _ ∧ _›
    refine ⟨hup.2.2 _ ‹_ = some _›, ?_⟩
    show RootsWellFormed (List.map _ _)
    rw [hfs']
    exact hfs.setAt hmem hc ‹_› hup _
  case vc4.h_1.h_1.isFalse.h_1.h_1.h_1.h_1.post.success.h_2.h_1
      | vc5.h_1.h_1.isFalse.h_1.h_1.h_1.h_1.post.success.h_2.h_2
      | vc10.h_1.h_1.isFalse.h_1.h_1.h_1.h_2.post.success.h_1.post.success.h_2.h_1
      | vc11.h_1.h_1.isFalse.h_1.h_1.h_1.h_2.post.success.h_1.post.success.h_2.h_2 =>
    obtain ⟨hmem, hc⟩ := Renderer.mem_of_fiber?_of_eq ‹Renderer.fiber? _ _ = some _› ‹_›
    obtain ⟨hup, hfs'⟩ := ‹Updated _ _ ∧ _›
    show RootsWellFormed (List.map _ _)
    rw [hfs']
    exact hfs.setAt hmem hc ‹_› hup _
  all_goals simp_all

theorem stays_of_fibers {α : Type} {x : RenderM α}
    (h : ∀ fs, RootsWellFormed fs → ⦃fun r => ⌜r.fibers = fs⌝⦄ x ⦃Stays⦄) :
    RenderM.Stays (fun r => RootsWellFormed r.fibers) x :=
  .of_triple (Triple.iff.mpr fun r hr => Triple.iff.mp (h r.fibers hr) r rfl)

/-- Draining applies queued updates one at a time, each keeping the roots well formed. -/
theorem drainFor_stays : ∀ n, RenderM.Stays (fun r => RootsWellFormed r.fibers) (drainFor n)
  | 0 => by
    rw [drainFor]
    exact .pure _
  | n + 1 => by
    rw [drainFor]
    refine .bind .get fun r => ?_
    split
    · exact .pure _
    · refine .bind (.modify fun _ h => h) fun _ => .bind ?_ fun _ => drainFor_stays n
      exact stays_of_fibers fun _ hfs => applyUpdate_stays _ hfs

theorem drain_stays (rounds : Nat) :
    RenderM.Stays (fun r => RootsWellFormed r.fibers) (drain rounds) := by
  refine .bind .get fun r => .bind (drainFor_stays _) fun _ => .bind .get fun r' => ?_
  split
  · exact .throw rfl
  · exact .pure _

theorem flushRounds_stays : ∀ left done,
    RenderM.Stays (fun r => RootsWellFormed r.fibers) (flushRounds left done)
  | 0, done => by
    rw [flushRounds]
    refine .bind .get fun r => ?_
    split
    · exact .throw rfl
    · exact .pure _
  | left + 1, done => by
    rw [flushRounds]
    refine .bind .get fun r => ?_
    split
    · exact .pure _
    · -- one round: drain, then the round's deferred callbacks
      refine .bind ?_ fun _ => flushRounds_stays left (done + 1)
      exact .bind (.modify fun _ h => h) fun _ => .bind (drain_stays _) fun _ => runDeferred_stays

theorem flush_stays : RenderM.Stays (fun r => RootsWellFormed r.fibers) flush :=
  .bind .get fun _ => flushRounds_stays _ 0

/-- Rendering a well-formed program, or nothing, into a container keeps the roots well formed. -/
theorem render_stays (c : NodeId) {tree : Option (Nat × Program × Value)}
    (hp : ∀ t ∈ tree, t.2.1.WellFormed) :
    RenderM.Stays (fun r => RootsWellFormed r.fibers) (Renderer.render tree c) := by
  have hdeferred := RenderM.Stays.triple runDeferred_stays
  have hflush := RenderM.Stays.triple flush_stays
  cases tree with
  | none =>
    apply RenderM.Stays.of_triple
    mvcgen [Renderer.render, unmountRoot_stays, hdeferred, hflush]
    all_goals simp_all
  | some t =>
    obtain ⟨root, program, props⟩ := t
    have hmount := mountRoot_stays c root (hp _ rfl) props
    apply RenderM.Stays.of_triple
    mvcgen [Renderer.render, updateRoot_stays, unmountRoot_stays, hmount, hdeferred, hflush]
    case vc8.some.h_2.pre =>
      exact ⟨‹_›, Renderer.fiber?_eq_none.1 ‹_›⟩

/-- Delivering an event runs handlers, which are scripts, and then flushes. -/
theorem dispatch_stays (c target : NodeId) (name : String) (detail : Value) :
    RenderM.Stays (fun r => RootsWellFormed r.fibers) (Renderer.dispatch c target name detail) := by
  unfold Renderer.dispatch
  refine .bind .get fun r => ?_
  split
  · refine .bind (RenderM.Stays.forIn (fun reg _ => ?_) _) fun _ => .bind flush_stays fun _ => .pure _
    refine .bind .get fun s => .bind (stays_of_keeps fun fs => script_spec fs _ _) fun o => ?_
    cases o with
    | error e => exact .bind (.throw rfl) fun _ => .pure _
    | ok v => exact .pure _
  · exact .throw rfl

end Pass

namespace Call

/-- Every call of a session that renders only well-formed programs keeps the roots well formed
and fails with no broken invariant. -/
theorem run_stays {call : Call} (h : call.Decoded) :
    RenderM.Stays (fun r => RootsWellFormed r.fibers) call.run := by
  cases call with
  | render tree c =>
    exact Pass.render_stays c fun t ht => h.wellFormed (by
      obtain ⟨root, p, props⟩ := t
      rw [Option.mem_def] at ht
      subst ht
      rfl)
  | dispatch c target name detail => exact (Pass.dispatch_stays c target name detail).map _
  | flush => exact Pass.flush_stays

end Call

namespace Renderer

/-- Every state a session reaches from a renderer without roots has well-formed roots, one per
container. -/
theorem Reaches.rootsWellFormed {r₀ r : Renderer} (h₀ : r₀.fibers = []) (h : r₀.Reaches r) :
    RootsWellFormed r.fibers :=
  h.invariant (I := fun r => RootsWellFormed r.fibers) (h₀ ▸ RootsWellFormed.nil)
    fun _ _ hr hc => (Call.run_stays hc).finalRenderer hr

end Renderer

namespace Mounted

theorem WellFormed.within {m n : Mounted} (h : Relation.ReflTransGen Mounted.Inside m n)
    (hn : n.WellFormed) : m.WellFormed ∧ m.program.depth ≤ n.program.depth := by
  induction h with
  | refl => exact ⟨hn, le_refl _⟩
  | tail _ hin ih =>
    obtain ⟨hwf, hlt⟩ := hin.wellFormed hn
    obtain ⟨hm, hle⟩ := ih hwf
    exact ⟨hm, hle.trans hlt.le⟩

/-- The slot of a loop of a well-formed node holds items of its template with distinct keys. -/
theorem WellFormed.loop {n : Mounted} (hn : n.WellFormed) {l : LoopSpec Program}
    (hl : .loop l ∈ n.program.instructions) :
    ∃ parent items, n.slot? l.slot = some (.loop parent items) ∧ (items.map (·.key)).Nodup ∧
      ∀ it ∈ items, it.node.WellFormed ∧ it.node.program = l.template := by
  obtain ⟨x, hx, parent, items, rfl, hkeys, hprog⟩ := hn.holds hl rfl
  refine ⟨parent, items, hx, hkeys, fun it hit => ⟨?_, hprog it hit⟩⟩
  exact hn.nodes_of_slot hx _ (List.mem_map_of_mem hit)

end Mounted

namespace Pass

/-- The passes an update with fuel `fuel + 1` hands nested work to. -/
def Subpasses.ofFuel (fuel : Nat) : Subpasses :=
  ⟨fun s p e t => Pass.mount fuel s p e t, fun n e => updateNode fuel n e, Pass.unmount fuel⟩

theorem Subpasses.ofFuel_sound (fuel : Nat) : (Subpasses.ofFuel fuel).Sound fuel :=
  ⟨mount_sound fuel, updateNode_updated fuel, fun n fs => unmount_spec fs fuel n⟩

/-- A reconcile with the passes of fuel above its template's depth, of well-formed items of the
template with distinct keys into a projection with distinct keys, never stops at a broken
invariant, and the items it hands back fit the loop. -/
theorem reconcile_run {fuel : Nat} {spec : LoopSpec Program} (hT : spec.template.WellFormed)
    (hd : spec.template.depth < fuel) {prev : List (LoopItem Mounted)}
    (hprev : ∀ it ∈ prev, it.node.WellFormed ∧ it.node.program = spec.template)
    (hprevKeys : (prev.map (·.key)).Nodup) {next : List Projected}
    (hnext : (next.map (·.key)).Nodup) (site : List Nat) (env : Env) (parent : NodeId)
    (s : Renderer) :
    match (reconcile (.ofFuel fuel) site spec env parent prev next).run s with
    | .ok items _ => ItemsFit spec.template items
    | .error e _ => e.isDefensive = false := by
  have hrun := outcome_run (fun fs => reconcile_fits (Subpasses.ofFuel_sound fuel) fs env hprev
    hT hd site parent hprevKeys hnext) s
  cases hx : (reconcile (.ofFuel fuel) site spec env parent prev next).run s with
  | ok items s' =>
    rw [hx] at hrun
    exact hrun.1
  | error e s' =>
    rw [hx] at hrun
    exact hrun.1

end Pass

namespace Renderer

/-- In the roots of a renderer, every loop slot holds items with pairwise distinct keys, and a
reconcile of them into a projection with distinct keys, by the passes of fuel above the
template's depth, takes each previous and pending position at most once and fills every next
position: it never stops at a broken invariant, and the items it hands back fit the loop. -/
def LoopsKeyed (r : Renderer) : Prop :=
  ∀ f ∈ r.fibers, ∀ m, Relation.ReflTransGen Mounted.Inside m f.node →
    ∀ l, Instruction.loop l ∈ m.program.instructions →
    ∃ parent items, m.slot? l.slot = some (.loop parent items) ∧ (items.map (·.key)).Nodup ∧
      ∀ fuel, l.template.depth < fuel → ∀ site env (next : List Projected),
        (next.map (·.key)).Nodup → ∀ s,
        match (Pass.reconcile (.ofFuel fuel) site l env parent items next).run s with
        | .ok items' _ => Pass.ItemsFit l.template items'
        | .error e _ => e.isDefensive = false

/-- What decoded programs guarantee of a renderer: no call from it stops at a broken invariant;
and in its roots, at any depth, every slot index a node's program uses is below the node's slot
count, and neither an update, with fuel above the node's depth, nor an unmount of a node stops at
one. -/
structure Safe (r : Renderer) : Prop where
  calls : ∀ c : Call, c.Decoded → ∀ e r', c.run.run r = .error e r' → e.isDefensive = false
  slots : ∀ f ∈ r.fibers, ∀ m, Relation.ReflTransGen Mounted.Inside m f.node →
    ∀ i ∈ m.program.instructions, ∀ s ∈ i.slot?, s < m.slots.size
  updates : ∀ f ∈ r.fibers, ∀ m, Relation.ReflTransGen Mounted.Inside m f.node →
    ∀ fuel env s, m.program.depth < fuel →
    match (Pass.updateNode fuel m env).run s with
    | .ok res _ => ∀ e ∈ res.2, e.isDefensive = false
    | .error e _ => e.isDefensive = false
  unmounts : ∀ f ∈ r.fibers, ∀ m, Relation.ReflTransGen Mounted.Inside m f.node →
    ∀ fuel s e s', (Pass.unmount fuel m).run s = .error e s' → e.isDefensive = false

variable {config : Config} {document : Document} {procs : Procedures} {r : Renderer}

theorem Reaches.wellFormed (h : (init config document procs).Reaches r) {f : Fiber}
    (hf : f ∈ r.fibers) {m : Mounted} (hm : Relation.ReflTransGen Mounted.Inside m f.node) :
    m.WellFormed :=
  (((h.rootsWellFormed rfl).nodes f hf).within hm).1

theorem Reaches.loopsKeyed (h : (init config document procs).Reaches r) : r.LoopsKeyed := by
  intro f hf m hm l hl
  have hwf := h.wellFormed hf hm
  obtain ⟨parent, items, hslot, hkeys, hitems⟩ := hwf.loop hl
  have hT : l.template.WellFormed :=
    hwf.program.of_mem_programs hl (by simp [Instruction.programs])
  exact ⟨parent, items, hslot, hkeys, fun fuel hd site env next hnext s =>
    Pass.reconcile_run hT hd hitems hkeys hnext site env parent s⟩

theorem Reaches.safe (h : (init config document procs).Reaches r) : r.Safe where
  calls c hc e r' hrun := by
    have hstays := Call.run_stays hc r (h.rootsWellFormed rfl)
    rw [hrun] at hstays
    exact hstays.1
  slots f hf m hm i hi s hs := (h.wellFormed hf hm).slot_lt hi hs
  updates f hf m hm fuel env s hd := by
    have hrun := Pass.outcome_run (fun fs =>
      Pass.updateNode_updated fuel m env fs (h.wellFormed hf hm) hd) s
    cases hx : (Pass.updateNode fuel m env).run s with
    | ok res s' =>
      rw [hx] at hrun
      exact hrun.1.2.2
    | error e s' =>
      rw [hx] at hrun
      exact hrun.1
  unmounts f hf m hm fuel s e s' hrun := by
    have hout := Pass.outcome_run (fun fs => Pass.outcome_of_keeps (Pass.unmount_spec fs fuel m)) s
    rw [hrun] at hout
    exact hout.1

/-- A list with a click handler, a ternary and a keyed loop of text rows, as words. -/
def listWords : List Word :=
  (((({} : ProgramBuilder).openElement "ul").on "click" ⟨.arr [.str "log", .str "clicked"]⟩ 0
    |>.ternary ⟨.arr [.str "get", .arr [.str "props"], .str "open"]⟩ 1
      (({} : ProgramBuilder).textNode "open") {}
    |>.loopMap ⟨.arr [.str "get", .arr [.str "props"], .str "items"]⟩ 2 ⟨.arr [.str "item"]⟩ {}
      (({} : ProgramBuilder).textNode "row")).close).words.toList

/-- The program `listWords` decodes to. -/
def listView : Program :=
  .mk [.openElement (.named "ul"), .event "click" ⟨.arr [.str "log", .str "clicked"]⟩ 0 false,
    .ternary ⟨⟨.arr [.str "get", .arr [.str "props"], .str "open"]⟩, 1,
      .mk [.staticTextNode "open"] 0, .mk [] 0⟩,
    .loop ⟨⟨.arr [.str "get", .arr [.str "props"], .str "items"]⟩, 2, ⟨.arr [.str "item"]⟩, none,
      none, .mk [.staticTextNode "row"] 0, false⟩, .closeElement] 3

/-- Render `listView` with two items and the ternary open into the container. -/
def renderList : Call :=
  .render (some (0, listView, .obj [("items", .arr [.int 1, .int 2]), ("open", .bool true)])) 0

theorem listWords_decode : Program.decode listWords = .ok listView := by
  cbv

theorem renderList_decoded : renderList.Decoded := by
  intro p hp
  simp only [renderList, Call.program?, Option.mem_def, Option.some.injEq] at hp
  subst hp
  exact ⟨listWords, listWords_decode⟩

theorem loopsKeyed_after_renderList :
    (init {} Document.oneContainer []).Reaches ((init {} Document.oneContainer []).after renderList) ∧
      ((init {} Document.oneContainer []).after renderList).isMounted 0 = true ∧
      ((init {} Document.oneContainer []).after renderList).LoopsKeyed :=
  ⟨.call .start renderList_decoded, by decide +kernel,
    Reaches.loopsKeyed (.call .start renderList_decoded)⟩

theorem safe_after_renderList :
    (init {} Document.oneContainer []).Reaches ((init {} Document.oneContainer []).after renderList) ∧
      ((init {} Document.oneContainer []).after renderList).isMounted 0 = true ∧
      ((init {} Document.oneContainer []).after renderList).Safe :=
  ⟨.call .start renderList_decoded, by decide +kernel,
    Reaches.safe (.call .start renderList_decoded)⟩

end Renderer

end Canopy
