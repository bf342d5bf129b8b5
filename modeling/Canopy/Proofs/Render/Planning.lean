import Mathlib
import Canopy.Proofs.Render.Growth

/-!
# Plans and planned programs

The first mount of a program collects its plan while it mounts the instructions: each
instruction adds its update ops and its unmount ops, in instruction order, and every op carries
the opcode and the slot of the instruction it comes from (`Instruction.opcode_slot_of_updateOps`,
`Instruction.slot_of_unmountOps`). The plan is installed once the last instruction is mounted
(`Pass.mount_succ`), so the plan installed is the plan of the instructions, whatever props,
decisions and collections the mount met.

A mount installs plans only for its own site and for the sub-programs it mounts, whose sites lie
strictly below its own (`site ++ [k, b] ++ ...`), and only for sites that have none. So a mount
only adds plans, a first mount that succeeds leaves its program with the plan of its
instructions, a plan once installed is never replaced, and a mount that fails leaves its
program's plan as it was (`Pass.mount_plans_once`); sub-programs it mounted before it failed keep
theirs.

`Renderer.PlannedWithin S r r'` says that `r'` has the plans of `r`, in order, followed only by
plans for sites satisfying `S`; `RenderM.PlansWithin S x` says it of every run of `x`, whether
it succeeds or fails. It is closed under the monad's combinators, so the parts of a mount are
shown with those, and the parts with loops and pattern-matching binds through their triples.
-/

namespace Canopy

/-! ## The plan of a program -/

namespace Instruction

/-- Each update op of an instruction reports the instruction's opcode and works on its slot. -/
theorem opcode_slot_of_updateOps {i : Instruction} {op : UpdateOp} (h : op ∈ i.updateOps) :
    op.opcode = i.opcode ∧ op.slot? = i.slot? := by
  cases i with
  | event name handler s refresh =>
    -- only a refreshing binding has an update op
    cases refresh with
    | false => simp [updateOps] at h
    | true =>
      rw [updateOps, if_pos rfl, List.mem_singleton] at h
      subst h
      exact ⟨rfl, rfl⟩
  | _ => simp only [updateOps, List.mem_singleton, List.not_mem_nil] at h <;> subst h <;>
      exact ⟨rfl, rfl⟩

theorem slot_of_unmountOps {i : Instruction} {op : UnmountOp} (h : op ∈ i.unmountOps) :
    some op.slot = i.slot? := by
  cases i <;> simp only [unmountOps, List.mem_singleton, List.not_mem_nil] at h <;> subst h <;> rfl

end Instruction

/-! ## Installed plans -/

/-- The sites of the programs mounted inside the one at `site`: strictly below it. -/
def Pass.SubSite (site x : List Nat) : Prop :=
  site <+: x ∧ site.length < x.length

namespace Pass.SubSite

theorem irrefl (site : List Nat) : ¬ SubSite site site := fun h => Nat.lt_irrefl _ h.2

theorem isPrefix {site x : List Nat} (h : SubSite site x) : site <+: x := h.1

theorem of_append {site x : List Nat} (k b : Nat) (h : site ++ [k, b] <+: x) : SubSite site x :=
  ⟨(List.prefix_append site [k, b]).trans h, by
    have := h.length_le
    simp only [List.length_append, List.length_cons, List.length_nil] at this
    omega⟩

end Pass.SubSite

namespace Renderer

/-- `r'` has the plans `r` has, in their order, and after them only plans for sites
satisfying `S`. -/
def PlannedWithin (S : List Nat → Prop) (r r' : Renderer) : Prop :=
  ∃ new : List (List Nat × Plan), r'.plans = r.plans ++ new ∧ ∀ x ∈ new, S x.1

namespace PlannedWithin

variable {S T : List Nat → Prop} {r s t : Renderer}

@[refl] theorem refl (r : Renderer) : r.PlannedWithin S r :=
  ⟨[], (List.append_nil _).symm, fun _ h => absurd h List.not_mem_nil⟩

theorem of_eq (h : s.plans = r.plans) : r.PlannedWithin S s :=
  ⟨[], by rw [h, List.append_nil], fun _ h => absurd h List.not_mem_nil⟩

theorem trans (h₁ : r.PlannedWithin S s) (h₂ : s.PlannedWithin S t) : r.PlannedWithin S t := by
  obtain ⟨n₁, e₁, h₁⟩ := h₁
  obtain ⟨n₂, e₂, h₂⟩ := h₂
  refine ⟨n₁ ++ n₂, by rw [e₂, e₁, List.append_assoc], fun x hx => ?_⟩
  rcases List.mem_append.1 hx with hx | hx
  · exact h₁ x hx
  · exact h₂ x hx

theorem mono (h : r.PlannedWithin S s) (hST : ∀ x, S x → T x) : r.PlannedWithin T s := by
  obtain ⟨n, e, hn⟩ := h
  exact ⟨n, e, fun x hx => hST _ (hn x hx)⟩

theorem isPrefix (h : r.PlannedWithin S s) : r.plans <+: s.plans := by
  obtain ⟨n, e, -⟩ := h
  exact ⟨n, e.symm⟩

theorem planAt?_of_some (h : r.PlannedWithin S s) {x : List Nat} {p : Plan}
    (hx : r.planAt? x = some p) : s.planAt? x = some p := by
  obtain ⟨n, e, -⟩ := h
  obtain ⟨y, hy, rfl⟩ := Option.map_eq_some_iff.1 hx
  simp [planAt?, e, List.find?_append, hy]

theorem planAt?_eq (h : r.PlannedWithin S s) {x : List Nat} (hx : ¬ S x) :
    s.planAt? x = r.planAt? x := by
  obtain ⟨n, e, hn⟩ := h
  have hnew : n.find? (·.1 == x) = none :=
    List.find?_eq_none.2 fun y hy hyx => hx (by rw [← beq_iff_eq.1 hyx]; exact hn y hy)
  simp only [planAt?, e, List.find?_append, hnew, Option.or_none]

end PlannedWithin

end Renderer

namespace RenderM

variable {α β γ : Type} {S T : List Nat → Prop} {r r' : Renderer}

/-- Every run of `x`, successful or not, installs plans only for sites satisfying `S`, after
those installed before. -/
def PlansWithin (S : List Nat → Prop) (x : RenderM α) : Prop :=
  ∀ r : Renderer, r.PlannedWithin S (finalRenderer (x.run r))

namespace PlansWithin

theorem ok {x : RenderM α} {a : α} (h : PlansWithin S x) (hrun : x.run r = .ok a r') :
    r.PlannedWithin S r' := by
  have hr := h r
  rwa [hrun] at hr

theorem error {x : RenderM α} {e : RenderError} (h : PlansWithin S x)
    (hrun : x.run r = .error e r') : r.PlannedWithin S r' := by
  have hr := h r
  rwa [hrun] at hr

theorem mono {x : RenderM α} (h : PlansWithin S x) (hST : ∀ x, S x → T x) : PlansWithin T x :=
  fun r => (h r).mono hST

theorem of_run (x : RenderM α) {f : Renderer → Renderer} {a : Renderer → α}
    (hrun : ∀ r, x.run r = .ok (a r) (f r)) (hf : ∀ r, (f r).plans = r.plans) :
    PlansWithin S x := by
  intro r
  rw [hrun]
  exact .of_eq (hf r)

theorem pure (a : α) : PlansWithin S (Pure.pure a : RenderM α) := fun r => .refl r

theorem throw (e : RenderError) : PlansWithin S (MonadExcept.throw e : RenderM α) :=
  fun r => .refl r

theorem get : PlansWithin S (MonadState.get : RenderM Renderer) := fun r => .refl r

theorem bind {x : RenderM α} {f : α → RenderM β} (hx : PlansWithin S x)
    (hf : ∀ a, PlansWithin S (f a)) : PlansWithin S (x >>= f) := by
  intro r
  have hr := hx r
  rw [EStateM.run_bind]
  cases hrun : x.run r with
  | ok a s =>
    rw [hrun] at hr
    exact hr.trans (hf a s)
  | error e s =>
    rw [hrun] at hr
    exact hr

theorem ite {c : Prop} [Decidable c] {x y : RenderM α} (hx : PlansWithin S x)
    (hy : PlansWithin S y) : PlansWithin S (if c then x else y) := by
  split
  · exact hx
  · exact hy

theorem forIn {xs : List γ} {f : γ → β → RenderM (ForInStep β)}
    (hf : ∀ y c, PlansWithin S (f y c)) : ∀ init, PlansWithin S (ForIn.forIn xs init f) := by
  induction xs with
  | nil => exact fun init => pure init
  | cons y ys ih =>
    intro init
    rw [List.forIn_cons]
    refine bind (hf y init) fun step => ?_
    cases step with
    | done c => exact pure c
    | yield c => exact ih c

theorem modify {f : Renderer → Renderer} (hf : ∀ r : Renderer, r.PlannedWithin S (f r)) :
    PlansWithin S (modify f : RenderM Unit) := fun r => hf r

theorem getSet {k : Renderer → RenderM β} {g : Renderer → Renderer}
    (hg : ∀ r, (g r).plans = r.plans) (hk : ∀ r, PlansWithin S (k r)) :
    PlansWithin S (MonadState.get >>= fun r => MonadState.set (g r) >>= fun _ => k r) :=
  fun r => (Renderer.PlannedWithin.of_eq (hg r)).trans (hk r (g r))

theorem mapM {f : α → RenderM β} (hf : ∀ a, PlansWithin S (f a)) :
    ∀ xs : List α, PlansWithin S (xs.mapM f)
  | [] => pure _
  | x :: xs => by
    rw [List.mapM_cons]
    exact bind (hf x) fun _ => bind (mapM hf xs) fun _ => pure _

open Std.Do in
theorem of_triple {x : RenderM α}
    (h : ∀ s : Renderer, ⦃fun r => ⌜s.PlannedWithin S r⌝⦄ x
      ⦃post⟨fun _ r => ⌜s.PlannedWithin S r⌝, fun _ r => ⌜s.PlannedWithin S r⌝⟩⦄) :
    PlansWithin S x := by
  intro r
  have hrun := RenderM.triple_iff_run.1 (h r) r (.refl r)
  cases hx : x.run r with
  | ok a s =>
    rw [hx] at hrun
    exact hrun
  | error e s =>
    rw [hx] at hrun
    exact hrun

open Std.Do in
theorem triple {x : RenderM α} (h : PlansWithin S x) (s : Renderer) :
    ⦃fun r => ⌜s.PlannedWithin S r⌝⦄ x
      ⦃post⟨fun _ r => ⌜s.PlannedWithin S r⌝, fun _ r => ⌜s.PlannedWithin S r⌝⟩⦄ := by
  refine RenderM.triple_iff_run.2 fun r hr => ?_
  have hx := h r
  cases hrun : x.run r with
  | ok a r' =>
    rw [hrun] at hx
    exact hr.trans hx
  | error e r' =>
    rw [hrun] at hx
    exact hr.trans hx

end PlansWithin

/-! ### The parts that plan nothing -/

theorem plansWithin_script (frame : Frame) (s : Script) : PlansWithin S (script frame s) :=
  .of_run _ (script_run frame s) fun _ => rfl

theorem plansWithin_doc (f : Document → Document) : PlansWithin S (doc f) :=
  .of_run _ (fun _ => rfl) fun _ => rfl

theorem plansWithin_docWith (f : Document → α × Document) : PlansWithin S (docWith f) :=
  .of_run _ (fun _ => rfl) fun _ => rfl

theorem plansWithin_defer (d : Deferred) : PlansWithin S (defer d) :=
  .modify fun _ => .of_eq rfl

/-- Installing plans only for its site, and leaves the site with the plan it had or, without
one, with the plan installed. -/
theorem installPlan_run (site : List Nat) (plan : Option Plan) (r : Renderer) :
    ∃ r', (installPlan site plan).run r = .ok () r' ∧ r.PlannedWithin (· = site) r' ∧
      r'.planAt? site = (r.planAt? site).or plan := by
  cases plan with
  | none => exact ⟨r, rfl, .refl r, by simp⟩
  | some p =>
    cases h : r.planAt? site with
    | some q =>
      refine ⟨r, ?_, .refl r, by simp [h]⟩
      simp [installPlan, EStateM.run, modify, modifyGet, MonadStateOf.modifyGet,
        EStateM.modifyGet, h]
    | none =>
      have hfind : r.plans.find? (·.1 == site) = none := by simpa [Renderer.planAt?] using h
      refine ⟨{ r with plans := r.plans ++ [(site, p)] }, ?_, ⟨[(site, p)], rfl, by simp⟩, ?_⟩
      · simp [installPlan, EStateM.run, modify, modifyGet, MonadStateOf.modifyGet,
          EStateM.modifyGet, h]
      · simp [Renderer.planAt?, List.find?_append, hfind]

end RenderM

open RenderM

namespace Bind

variable {S : List Nat → Prop}

theorem plansWithin_compute (env : Env) (s : Script) : PlansWithin S (compute env s) :=
  .bind .get fun _ => .bind (plansWithin_script _ _) fun _ => .pure _

theorem plansWithin_test (env : Env) (s : Script) : PlansWithin S (test env s) :=
  .bind .get fun _ => .bind (plansWithin_script _ _) fun _ => .pure _

theorem plansWithin_factory (props : Value) (s : Script) : PlansWithin S (factory props s) :=
  .bind (plansWithin_script _ _) fun _ => .pure _

end Bind

namespace Pass

variable {S : List Nat → Prop}

theorem plansWithin_orBinding {α : Type} (op : Opcode) (x : Except BindingFailure α) :
    PlansWithin S (orBinding op x) := by
  cases x with
  | ok a => exact .pure a
  | error f => exact .throw _

theorem plansWithin_current (stack : List (Option NodeId)) : PlansWithin S (current stack) := by
  unfold current
  split
  · exact .pure _
  · exact .throw _

theorem plansWithin_resolve (b : Binding) (op : Opcode) (env : Env) (node : Mounted) :
    PlansWithin S (resolve b op env node) := by
  cases b with
  | compute sc => exact .bind (Bind.plansWithin_compute env sc) fun x => plansWithin_orBinding op x
  | prop name => exact .pure _
  | sibling s =>
    dsimp only [resolve]
    split
    · exact .pure _
    · exact .throw _

theorem plansWithin_writeProperty (h : NodeId) (p : Property) (text : String) :
    PlansWithin S (writeProperty h p text) := by
  unfold writeProperty
  cases p <;> exact plansWithin_doc _

theorem plansWithin_place (stack : List (Option NodeId)) (node : Mounted) (target : Target)
    (child : NodeId) : PlansWithin S (place stack node target child) := by
  unfold place
  split
  · exact .bind (plansWithin_doc _) fun _ => .pure _
  · exact .bind (plansWithin_doc _) fun _ => .pure _

theorem plansWithin_register (name : String) (e : NodeId) (reg : Registration) :
    PlansWithin S (register name e reg) :=
  .modify fun _ => .of_eq rfl

set_option mvcgen.warning false in
open Std.Do in
theorem plansWithin_project (env : Env) (spec : LoopSpec Program) :
    PlansWithin S (project env spec) := by
  refine .of_triple fun s => ?_
  have hscript := fun frame sc => (plansWithin_script frame sc : PlansWithin S _).triple s
  mvcgen [project, Bind.collection, Bind.key, Bind.props, hscript]
  case inv1 => exact post⟨fun _ r => ⌜s.PlannedWithin S r⌝, fun _ r => ⌜s.PlannedWithin S r⌝⟩
  all_goals simp_all

/-! ### A mount plans below its site -/

/-- A mount function whose mounts at the sub-sites of `site` plan only below `site`. -/
def MountFn.PlansBelow (f : MountFn) (site : List Nat) : Prop :=
  ∀ k b q env target, PlansWithin (SubSite site) (f (site ++ [k, b]) q env target)

section Mount

variable {sub : MountFn} {site : List Nat} (hsub : sub.PlansBelow site)
include hsub

theorem plansWithin_mountBranch (k b : Nat) (p : Program) (env : Env) (pos : Target) :
    PlansWithin (SubSite site) (mountBranch sub (site ++ [k, b]) p env pos) :=
  .bind (hsub _ _ _ _ _) fun _ =>
    .ite (.pure _) (.bind (plansWithin_docWith _) fun _ => .bind (plansWithin_doc _) fun _ => .pure _)

theorem plansWithin_mountComponent (k b : Nat) (spec : ComponentSpec Program) (env : Env)
    (pos : Target) : PlansWithin (SubSite site) (mountComponent sub (site ++ [k, b]) spec env pos) := by
  unfold mountComponent
  dsimp only
  exact .bind (Bind.plansWithin_factory _ _) fun x => .bind (plansWithin_orBinding _ x) fun _ =>
    .getSet (fun _ => rfl) fun _ => .bind (hsub _ _ _ _ _) fun _ =>
      .bind (.modify fun _ => .of_eq rfl) fun _ => .pure _

theorem plansWithin_mountLoop (k b : Nat) (spec : LoopSpec Program) (env : Env) (parent : NodeId) :
    PlansWithin (SubSite site) (mountLoop sub (site ++ [k, b]) spec env parent) :=
  .bind (plansWithin_project _ _) fun _ =>
    .mapM (fun _ => .bind (hsub _ _ _ _ _) fun _ => .pure _) _

set_option mvcgen.warning false in
open Std.Do in
/-- An instruction plans only below the site of the program it belongs to. -/
theorem plansWithin_mountInstr (env : Env) (target : Target) (node : Mounted)
    (stack : List (Option NodeId)) (instr : Instruction) (k : Nat) :
    PlansWithin (SubSite site) (mountInstr sub site env target node stack instr k) := by
  refine .of_triple fun s => ?_
  have hdoc := fun f => (plansWithin_doc f : PlansWithin (SubSite site) _).triple s
  have hdocWith := fun {α} (f : Document → α × Document) =>
    (plansWithin_docWith f : PlansWithin (SubSite site) _).triple s
  have hcurrent := fun stack =>
    (plansWithin_current stack : PlansWithin (SubSite site) _).triple s
  have hplace := fun stack node target child =>
    (plansWithin_place stack node target child : PlansWithin (SubSite site) _).triple s
  have hwrite := fun h p text =>
    (plansWithin_writeProperty h p text : PlansWithin (SubSite site) _).triple s
  have hresolve := fun b op env node =>
    (plansWithin_resolve b op env node : PlansWithin (SubSite site) _).triple s
  have htest := fun env sc => (Bind.plansWithin_test env sc : PlansWithin (SubSite site) _).triple s
  have hbranch := fun k b p env pos => (plansWithin_mountBranch hsub k b p env pos).triple s
  have hloop := fun k b l env parent => (plansWithin_mountLoop hsub k b l env parent).triple s
  have hcomponent := fun k b c env pos => (plansWithin_mountComponent hsub k b c env pos).triple s
  have hdefer := fun d => (plansWithin_defer d : PlansWithin (SubSite site) _).triple s
  have hregister := fun n e reg =>
    (plansWithin_register n e reg : PlansWithin (SubSite site) _).triple s
  cases instr <;> mvcgen [mountInstr, orBinding, hdoc, hdocWith, hcurrent, hplace, hwrite, hresolve,
    htest, hbranch, hloop, hcomponent, hdefer, hregister]

end Mount

theorem plansWithin_mountSteps {sub : MountFn} {site : List Nat} (hsub : sub.PlansBelow site)
    (env : Env) (target : Target)
    (program : Program) : PlansWithin (SubSite site) (mountSteps sub site env target program) :=
  .forIn (fun _ _ => .bind (plansWithin_mountInstr hsub _ _ _ _ _ _) fun _ => .pure _) _

/-- A body that plans below `site`, followed by the plan of `site`: when it succeeds it leaves
`site` with the plan it had or, without one, with the plan installed, and when it fails it has
planned below `site` only. -/
theorem run_then_installPlan {β : Type} {x : RenderM β} {g : β → Mounted} (plan : Option Plan)
    (hx : PlansWithin (SubSite site) x) (r : Renderer) :
    (∀ n r', (x >>= fun b => installPlan site plan >>= fun _ => Pure.pure (g b)).run r =
        .ok n r' → r.PlannedWithin (site <+: ·) r' ∧ r'.planAt? site = (r.planAt? site).or plan) ∧
    (∀ e r', (x >>= fun b => installPlan site plan >>= fun _ => Pure.pure (g b)).run r =
        .error e r' → r.PlannedWithin (SubSite site) r') := by
  constructor
  · intro n r' h
    rw [EStateM.run_bind] at h
    cases hb : x.run r with
    | ok b s =>
      obtain ⟨s', hm, hpl, hat⟩ := installPlan_run site plan s
      rw [hb] at h
      dsimp only at h
      rw [EStateM.run_bind, hm] at h
      cases h
      -- the body planned strictly below `site`, so `site` kept its plan until the install
      have hbody := hx.ok hb
      refine ⟨(hbody.mono fun _ h => h.isPrefix).trans
        (hpl.mono fun x hx => hx ▸ List.prefix_refl x), ?_⟩
      rw [hat, hbody.planAt?_eq (SubSite.irrefl site)]
    | error e s =>
      rw [hb] at h
      cases h
  · intro e r' h
    rw [EStateM.run_bind] at h
    cases hb : x.run r with
    | ok b s =>
      obtain ⟨s', hm, -⟩ := installPlan_run site plan s
      rw [hb] at h
      dsimp only at h
      rw [EStateM.run_bind, hm] at h
      cases h
    | error e s =>
      rw [hb] at h
      cases h
      exact hx.error hb

/-- A mount plans its own site and sites below it only; when it succeeds its site has the plan
it had or, without one, the plan of its instructions, and when it fails it has planned strictly
below its site. -/
theorem mount_plans : ∀ (fuel : Nat) (site : List Nat) (q : Program) (env : Env)
    (target : Target) (r : Renderer),
    (∀ n r', (mount fuel site q env target).run r = .ok n r' →
      r.PlannedWithin (site <+: ·) r' ∧
        r'.planAt? site = (r.planAt? site).or (some (Plan.ofInstructions q.instructions))) ∧
    (∀ e r', (mount fuel site q env target).run r = .error e r' →
      r.PlannedWithin (SubSite site) r')
  | 0, _, _, _, _, r => by
    refine ⟨fun n r' h => ?_, fun e r' h => ?_⟩
    · rw [mount.eq_1] at h
      cases h
    · rw [mount.eq_1] at h
      cases h
      exact .refl r
  | fuel + 1, site, q, env, target, r => by
    -- the sub-programs are mounted at sites below `site`, where they plan at or below their own
    have hsub : MountFn.PlansBelow (fun s p e t => mount fuel s p e t) site := by
      intro k b q' env' target' r₀
      obtain ⟨hok, herr⟩ := mount_plans fuel (site ++ [k, b]) q' env' target' r₀
      cases hrun : (mount fuel (site ++ [k, b]) q' env' target').run r₀ with
      | ok n r₁ => exact (hok n r₁ hrun).1.mono fun x hx => SubSite.of_append k b hx
      | error e r₁ => exact (herr e r₁ hrun).mono fun x hx => SubSite.of_append k b hx.isPrefix
    rw [mount_succ]
    obtain ⟨hok, herr⟩ := run_then_installPlan (g := Prod.fst)
      (if (r.planAt? site).isSome then none else some (Plan.ofInstructions q.instructions))
      (plansWithin_mountSteps hsub env target q) r
    refine ⟨fun n r' h => ?_, fun e r' h => herr e r' h⟩
    obtain ⟨hpl, hat⟩ := hok n r' h
    refine ⟨hpl, hat.trans ?_⟩
    -- the mount collects a plan exactly when its program has none
    cases r.planAt? site <;> rfl

/-- The plan a first mount installs lists, in instruction order, what each instruction needs in a
later pass and on unmount, each op with the opcode and the slot of its instruction. A plan once
installed is never replaced, and a mount that fails leaves its program's plan as it was; a mount
plans only its own site and sites below it. -/
theorem mount_plans_once (fuel : Nat) (site : List Nat) (P : Program) (env : Env)
    (target : Target) (r : Renderer) :
    (∀ i ∈ P.instructions, (∀ op ∈ i.updateOps, op.opcode = i.opcode ∧ op.slot? = i.slot?) ∧
      ∀ op ∈ i.unmountOps, some op.slot = i.slot?) ∧
    (∀ n r', (mount fuel site P env target).run r = .ok n r' →
      (r.planAt? site = none → r'.planAt? site =
        some ⟨P.instructions.flatMap Instruction.updateOps,
          P.instructions.flatMap Instruction.unmountOps⟩) ∧
      (∀ p, r.planAt? site = some p → r'.planAt? site = some p) ∧
      r.PlannedWithin (site <+: ·) r') ∧
    (∀ e r', (mount fuel site P env target).run r = .error e r' →
      r'.planAt? site = r.planAt? site ∧ r.PlannedWithin (SubSite site) r') := by
  obtain ⟨hok, herr⟩ := mount_plans fuel site P env target r
  refine ⟨fun i _ => ⟨fun _ => Instruction.opcode_slot_of_updateOps,
    fun _ => Instruction.slot_of_unmountOps⟩, fun n r' h => ?_, fun e r' h => ?_⟩
  · obtain ⟨hpl, hat⟩ := hok n r' h
    refine ⟨fun hnone => ?_, fun p hp => ?_, hpl⟩
    · rw [hat, hnone]
      rfl
    · rw [hat, hp]
      rfl
  · have hpl := herr e r' h
    exact ⟨hpl.planAt?_eq (SubSite.irrefl site), hpl⟩

/-- A program that writes the prop `name` into a `p` element. -/
def nameLine : Program :=
  .mk [.openElement (.named "p"), .dynamicTextNode (.prop "name") 0, .closeElement] 1

/-- A renderer whose document is one `div` element. -/
def oneDiv : Renderer :=
  { document := { nodes := #[⟨.element "div" none none [], none, []⟩] } }

/-- The first mount of `nameLine` installs one update op, for its text node, and no unmount op. -/
theorem mount_plans_once_nameLine : oneDiv.planAt? [0] = none ∧
    ∃ n r', (mount 1 [0] nameLine { props := .null } ⟨0, none⟩).run oneDiv = .ok n r' ∧
      r'.planAt? [0] = some ⟨[.text (Instruction.dynamicTextNode (.prop "name") 0).opcode
        (.prop "name") 0], []⟩ := by
  have hok : RenderM.succeeded
      ((mount 1 [0] nameLine { props := .null } ⟨0, none⟩).run oneDiv) = true := by
    decide +kernel
  obtain ⟨n, hrun⟩ := RenderM.eq_ok_of_succeeded hok
  exact ⟨rfl, n, _, hrun,
    ((mount_plans_once 1 [0] nameLine { props := .null } ⟨0, none⟩ oneDiv).2.1 n _ hrun).1 rfl⟩

end Pass

end Canopy
