import Canopy.Render.Update
import Std.Tactic.Do

/-!
# Successful runs of the passes' parts

What is proved here about a part `x` of a pass is proved of its successful runs,
`x.run r = .ok a r'`. A run of `x >>= f` is a run of `x` followed by one of `f`
(`run_bind_ok`), and a run of a `for` loop is a run of its body on each element in turn until the
body stops it (`run_forIn_ok`), so that an invariant of a loop is shown by its body alone.

Most parts leave the document alone (`KeepsDocument`): scripts and the functions of a program,
deferring a callback, changing an instance, and unmounting, which drops registrations and
instances and leaves removing the nodes to its caller.
-/

namespace Canopy

namespace RenderM

variable {α β γ : Type} {r r' r'' : Renderer}

theorem run_bind_ok {x : RenderM α} {f : α → RenderM β} {b : β}
    (h : (x >>= f).run r = .ok b r'') : ∃ a r', x.run r = .ok a r' ∧ (f a).run r' = .ok b r'' := by
  rw [EStateM.run_bind] at h
  split at h
  · exact ⟨_, _, ‹_›, h⟩
  · cases h

@[simp] theorem run_pure (a : α) (r : Renderer) : (pure a : RenderM α).run r = .ok a r := rfl

theorem run_get_bind (f : Renderer → RenderM α) (r : Renderer) :
    (get >>= f).run r = (f r).run r := rfl

theorem run_pure_ok {a b : α} (h : (pure a : RenderM α).run r = .ok b r') : b = a ∧ r' = r := by
  simp only [run_pure, EStateM.Result.ok.injEq] at h
  exact ⟨h.1.symm, h.2.symm⟩

theorem run_throw_ok {e : RenderError} {b : α} (h : (throw e : RenderM α).run r = .ok b r') :
    False := by
  cases h

theorem run_doc_ok {f : Document → Document} {u : Unit} (h : (doc f).run r = .ok u r') :
    r' = { r with document := f r.document } := by
  cases h
  rfl

theorem run_docWith_ok {f : Document → α × Document} {a : α} (h : (docWith f).run r = .ok a r') :
    a = (f r.document).1 ∧ r' = { r with document := (f r.document).2 } := by
  cases h
  exact ⟨rfl, rfl⟩

/-- An action whose error is handed back as a value succeeded exactly when it did. -/
theorem run_attempt_ok {x : RenderM α} {a : α} (h : x.attempt.run r = .ok (.ok a) r') :
    x.run r = .ok a r' := by
  change (tryCatch (Except.ok <$> x) fun e => Pure.pure (Except.error e)) r = .ok (.ok a) r' at h
  simp only [tryCatch, tryCatchThe, MonadExceptOf.tryCatch, EStateM.tryCatch, Functor.map,
    EStateM.map] at h
  cases hx : x r with
  | ok b s =>
    rw [hx] at h
    cases h
    exact hx
  | error e s =>
    rw [hx] at h
    cases h

/-- A successful run of a loop over a list keeps an invariant of the elements left, the loop's
state and the renderer when each run of the body does. -/
theorem run_forIn_ok {xs : List γ} {init b : β} {f : γ → β → RenderM (ForInStep β)}
    (I : List γ → β → Renderer → Prop)
    (hyield : ∀ y ys c s c' s', I (y :: ys) c s → (f y c).run s = .ok (.yield c') s' → I ys c' s')
    (hdone : ∀ y ys c s c' s', I (y :: ys) c s → (f y c).run s = .ok (.done c') s' → I [] c' s')
    (hinit : I xs init r) (h : (forIn xs init f).run r = .ok b r') : I [] b r' := by
  induction xs generalizing init r with
  | nil =>
    obtain ⟨rfl, rfl⟩ := run_pure_ok h
    exact hinit
  | cons y ys ih =>
    rw [List.forIn_cons] at h
    obtain ⟨step, s, hs, hrest⟩ := run_bind_ok h
    cases step with
    | done c =>
      obtain ⟨hb, hr⟩ := run_pure_ok hrest
      subst hb hr
      exact hdone y ys init r _ _ hinit hs
    | yield c => exact ih (hyield y ys init r c s hinit hs) hrest

/-- A loop whose body keeps an invariant of its state and the renderer, on each element of the
list, keeps it. -/
theorem run_forIn_inv {xs : List γ} {init b : β} {f : γ → β → RenderM (ForInStep β)}
    (I : β → Renderer → Prop)
    (hf : ∀ y ∈ xs, ∀ c s step s', I c s → (f y c).run s = .ok step s' → I step.value s')
    (hinit : I init r) (h : (forIn xs init f).run r = .ok b r') : I b r' := by
  refine (run_forIn_ok (fun rest c s => (∀ y ∈ rest, y ∈ xs) ∧ I c s) ?_ ?_
    ⟨fun _ hy => hy, hinit⟩ h).2
  · intro y ys c s c' s' ⟨hys, hc⟩ hrun
    exact ⟨fun z hz => hys z (List.mem_cons_of_mem _ hz),
      hf y (hys y (List.mem_cons_self ..)) c s _ s' hc hrun⟩
  · intro y ys c s c' s' ⟨hys, hc⟩ hrun
    exact ⟨fun _ hz => absurd hz List.not_mem_nil,
      hf y (hys y (List.mem_cons_self ..)) c s _ s' hc hrun⟩

theorem forIn_range_eq {a b : Nat} {init : β} {f : Nat → β → RenderM (ForInStep β)} :
    forIn [a:b] init f = forIn (List.range' a (b - a)) init f := by
  rw [Std.Legacy.Range.forIn_eq_forIn_range']
  simp

/-- A loop that carries, beside its state, a value each element changes without reading the
state runs as the loop without it, and the value ends folded over the elements. -/
theorem forIn_beside {δ : Type} (xs : List γ) (g : γ → β → RenderM β) (h : δ → γ → δ) (d : δ)
    (b : β) :
    forIn xs (d, b) (fun x acc => g x acc.2 >>= fun b' => pure (ForInStep.yield (h acc.1 x, b'))) =
      (fun b' => (xs.foldl h d, b')) <$>
        forIn xs b (fun x acc => g x acc >>= fun b' => pure (ForInStep.yield b')) := by
  induction xs generalizing d b with
  | nil => simp
  | cons x xs ih => simp only [List.forIn_cons, bind_assoc, pure_bind, ih, map_bind, List.foldl_cons]

/-! ## Parts that leave the document alone -/

/-- The document a run ends with, whether it succeeds or fails. -/
def finalDocument : EStateM.Result RenderError Renderer α → Document
  | .ok _ r => r.document
  | .error _ r => r.document

/-- An action that leaves the document as it is, whether it succeeds or fails. -/
def KeepsDocument (x : RenderM α) : Prop :=
  ∀ r, finalDocument (x.run r) = r.document

namespace KeepsDocument

theorem ok {x : RenderM α} {a : α} (h : KeepsDocument x) (hrun : x.run r = .ok a r') :
    r'.document = r.document := by
  have hr := h r
  rwa [hrun] at hr

theorem pure (a : α) : KeepsDocument (Pure.pure a : RenderM α) := fun _ => rfl

theorem bind {x : RenderM α} {f : α → RenderM β} (hx : KeepsDocument x)
    (hf : ∀ a, KeepsDocument (f a)) : KeepsDocument (x >>= f) := by
  intro r
  have hr := hx r
  rw [EStateM.run_bind]
  cases hrun : x.run r with
  | ok a s =>
    rw [hrun] at hr
    exact (hf a s).trans hr
  | error e s =>
    rw [hrun] at hr
    exact hr

theorem forIn {xs : List γ} {f : γ → β → RenderM (ForInStep β)}
    (hf : ∀ y c, KeepsDocument (f y c)) : ∀ init, KeepsDocument (ForIn.forIn xs init f) := by
  induction xs with
  | nil => exact fun init => pure init
  | cons y ys ih =>
    intro init
    rw [List.forIn_cons]
    refine bind (hf y init) fun step => ?_
    cases step with
    | done c => exact pure c
    | yield c => exact ih c

theorem modify {f : Renderer → Renderer} (hf : ∀ r, (f r).document = r.document) :
    KeepsDocument (modify f : RenderM Unit) := fun r => hf r

theorem get : KeepsDocument (MonadState.get : RenderM Renderer) := fun _ => rfl

theorem throw (e : RenderError) : KeepsDocument (MonadExcept.throw e : RenderM α) := fun _ => rfl

/-- Handing back an error as a value keeps the document when the action does. -/
theorem attempt {x : RenderM α} (h : KeepsDocument x) : KeepsDocument x.attempt := by
  intro r
  have hr := h r
  change finalDocument ((tryCatch (Except.ok <$> x) fun e => Pure.pure (Except.error e)) r) = _
  simp only [tryCatch, tryCatchThe, MonadExceptOf.tryCatch, EStateM.tryCatch, Functor.map,
    EStateM.map]
  change finalDocument (x r) = _ at hr
  cases hx : x r with
  | ok b s =>
    rw [hx] at hr
    exact hr
  | error e s =>
    rw [hx] at hr
    exact hr

end KeepsDocument

open Std.Do in
/-- A triple with pure pre- and postconditions says where every run from a renderer that meets
the precondition ends. -/
theorem triple_iff_run {x : RenderM α} {P : Renderer → Prop} {Q : α → Renderer → Prop}
    {E : RenderError → Renderer → Prop} :
    ⦃fun r => ⌜P r⌝⦄ x ⦃post⟨fun a r => ⌜Q a r⌝, fun e r => ⌜E e r⌝⟩⦄ ↔
      ∀ r, P r → match x.run r with
        | .ok a r' => Q a r'
        | .error e r' => E e r' := by
  rw [Triple.iff]
  refine forall_congr' fun r => imp_congr_right fun _ => ?_
  simp only [wp, PredTrans.apply, EStateM.run]
  cases x r <;> rfl

open Std.Do in
/-- A triple that keeps the document, whatever the outcome. -/
theorem keepsDocument_of_triple {x : RenderM α}
    (h : ∀ d, ⦃fun r => ⌜r.document = d⌝⦄ x
      ⦃post⟨fun _ r => ⌜r.document = d⌝, fun _ r => ⌜r.document = d⌝⟩⦄) :
    KeepsDocument x := by
  intro r
  have hrun := triple_iff_run.1 (h r.document) r rfl
  cases hx : x.run r with
  | ok a s =>
    rw [hx] at hrun
    exact hrun
  | error e s =>
    rw [hx] at hrun
    exact hrun

open Std.Do in
theorem triple_of_keepsDocument {x : RenderM α} (h : KeepsDocument x) (d : Document) :
    ⦃fun r => ⌜r.document = d⌝⦄ x
    ⦃post⟨fun _ r => ⌜r.document = d⌝, fun _ r => ⌜r.document = d⌝⟩⦄ := by
  refine triple_iff_run.2 fun r hr => ?_
  have hx := h r
  cases hrun : x.run r with
  | ok a r' =>
    rw [hrun] at hx
    exact hx.trans hr
  | error e r' =>
    rw [hrun] at hx
    exact hx.trans hr

theorem keepsDocument_script (frame : Frame) (s : Script) : KeepsDocument (script frame s) := by
  intro r
  simp only [script, EStateM.run]
  split <;> rfl

theorem keepsDocument_defer (d : Deferred) : KeepsDocument (defer d) :=
  KeepsDocument.modify fun _ => rfl

theorem keepsDocument_modifyInstance (id : InstanceId) (f : Instance → Instance) :
    KeepsDocument (modifyInstance id f) :=
  KeepsDocument.modify fun _ => rfl

/-- Installing a plan changes the installed plans only. -/
theorem installPlan_run_ok {site : List Nat} {plan : Option Plan} {u : Unit}
    (h : (installPlan site plan).run r = .ok u r') : r' = { r with plans := r'.plans } := by
  cases plan with
  | none =>
    obtain ⟨-, rfl⟩ := run_pure_ok h
    rfl
  | some p =>
    cases h
    dsimp only
    split <;> rfl

theorem keepsDocument_installPlan (site : List Nat) (plan : Option Plan) :
    KeepsDocument (installPlan site plan) := by
  cases plan with
  | none => exact .pure ()
  | some p =>
    refine KeepsDocument.modify fun r => ?_
    split <;> rfl

end RenderM

open RenderM Std.Do

set_option mvcgen.warning false

namespace Bind

theorem keepsDocument_compute (env : Env) (s : Script) : KeepsDocument (compute env s) :=
  .bind .get fun _ => .bind (keepsDocument_script _ _) fun _ => .pure _

theorem keepsDocument_test (env : Env) (s : Script) : KeepsDocument (test env s) :=
  .bind .get fun _ => .bind (keepsDocument_script _ _) fun _ => .pure _

theorem keepsDocument_collection (env : Env) (s : Script) : KeepsDocument (collection env s) :=
  .bind .get fun _ => .bind (keepsDocument_script _ _) fun _ => .pure _

theorem keepsDocument_key (env : Env) (s : Script) (item : Value) (index : Nat) :
    KeepsDocument (key env s item index) :=
  .bind .get fun _ => .bind (keepsDocument_script _ _) fun _ => .pure _

theorem keepsDocument_props (env : Env) (s : Script) (item : Value) (index : Nat) :
    KeepsDocument (props env s item index) :=
  .bind .get fun _ => .bind (keepsDocument_script _ _) fun _ => .pure _

theorem keepsDocument_shouldUpdate (env : Env) (s : Script) (prev next : Value) :
    KeepsDocument (shouldUpdate env s prev next) :=
  .bind .get fun _ => .bind (keepsDocument_script _ _) fun _ => .pure _

end Bind

theorem PlanBuilder.foldl_push (b : PlanBuilder) (is : List Instruction) :
    (is.foldl PlanBuilder.push b).finish =
      ⟨b.plan.update ++ is.flatMap Instruction.updateOps,
        b.plan.unmount ++ is.flatMap Instruction.unmountOps⟩ := by
  induction is generalizing b with
  | nil => simp [PlanBuilder.finish]
  | cons i is ih => simp [ih, PlanBuilder.push, List.flatMap_cons]

namespace Pass

theorem keepsDocument_orBinding {α : Type} (op : Opcode) (x : Except BindingFailure α) :
    KeepsDocument (orBinding op x) := by
  cases x with
  | ok a => exact .pure a
  | error f => exact .throw _

theorem keepsDocument_resolve (b : Binding) (op : Opcode) (env : Env) (node : Mounted) :
    KeepsDocument (resolve b op env node) := by
  cases b with
  | compute sc =>
    exact .bind (Bind.keepsDocument_compute env sc) fun x => keepsDocument_orBinding op x
  | prop name => exact .pure _
  | sibling s =>
    simp only [resolve]
    split
    · exact .pure _
    · exact .throw _

theorem keepsDocument_project (env : Env) (spec : LoopSpec Program) :
    KeepsDocument (project env spec) := by
  refine keepsDocument_of_triple fun d => ?_
  have hscript := fun frame s => triple_of_keepsDocument (keepsDocument_script frame s) d
  mvcgen [project, Bind.collection, Bind.key, Bind.props, hscript]
  case inv1 => exact post⟨fun _ r => ⌜r.document = d⌝, fun _ r => ⌜r.document = d⌝⟩
  all_goals simp_all

theorem keepsDocument_unmountOp {sub : Mounted → RenderM Unit}
    (hsub : ∀ n, KeepsDocument (sub n)) (node : Mounted) (op : UnmountOp) :
    KeepsDocument (unmountOp sub node op) := by
  cases op with
  | releaseEvent name s =>
    simp only [unmountOp]
    split
    · exact .modify fun _ => rfl
    · exact .pure ()
  | ternary s =>
    simp only [unmountOp]
    split
    · exact hsub _
    · exact .pure ()
  | loop s =>
    simp only [unmountOp]
    split
    · exact .bind (.forIn (fun it _ => .bind (hsub _) fun _ => .pure _) _) fun _ => .pure _
    · exact .pure ()
  | component s =>
    simp only [unmountOp]
    split
    · exact .bind (.bind (keepsDocument_modifyInstance _ _) fun _ => .modify fun _ => rfl)
        fun _ => hsub _
    · exact .pure ()

/-- Unmounting leaves the document alone: whoever unmounts a node removes its roots. -/
theorem keepsDocument_unmount : ∀ (fuel : Nat) (n : Mounted), KeepsDocument (unmount fuel n)
  | 0, _ => .pure ()
  | fuel + 1, n => by
    rw [unmount.eq_2]
    refine .bind .get fun r => ?_
    split
    · exact .pure ()
    · exact .bind (.forIn (fun op _ =>
        .bind (keepsDocument_unmountOp (keepsDocument_unmount fuel) n op) fun _ => .pure _) _)
        fun _ => .pure _

/-! ## The mount loop -/

/-- A mount's walk over its instructions, leaving aside the plan it collects: the node and the
open constructs after each instruction. -/
def mountSteps (sub : MountFn) (site : List Nat) (env : Env) (target : Target)
    (program : Program) : RenderM (Mounted × List (Option NodeId)) :=
  forIn program.instructions.zipIdx (Mounted.fresh site program, []) fun x acc => do
    let r ← mountInstr sub site env target acc.1 acc.2 x.1 x.2
    pure (.yield r)

theorem foldl_map_push (zs : List (Instruction × Nat)) (o : Option PlanBuilder) :
    zs.foldl (fun p x => p.map (·.push x.1)) o =
      o.map fun b => (zs.map Prod.fst).foldl PlanBuilder.push b := by
  induction zs generalizing o with
  | nil => cases o <;> rfl
  | cons z zs ih => cases o <;> simp [ih]

/-- A mount reads whether its program has a plan, walks its instructions, and then installs the
plan of the instructions for a program that had none. -/
theorem mount_succ (fuel : Nat) (site : List Nat) (program : Program) (env : Env)
    (target : Target) :
    mount (fuel + 1) site program env target = (do
      let r ← get
      let acc ← mountSteps (fun s p e t => mount fuel s p e t) site env target program
      installPlan site
        (if (r.planAt? site).isSome then none else some (Plan.ofInstructions program.instructions))
      pure acc.1) := by
  rw [mount.eq_2]
  congr 1
  funext r
  -- the plan being collected is the value carried beside the node and the open constructs
  have hloop := forIn_beside program.instructions.zipIdx
    (fun x a => mountInstr (fun s p e t => mount fuel s p e t) site env target a.1 a.2 x.1 x.2)
    (fun (p : Option PlanBuilder) x => p.map (·.push x.1))
    (if (r.planAt? site).isSome then none else some {}) (Mounted.fresh site program, [])
  have hplan : (program.instructions.zipIdx.foldl (fun p x => p.map (·.push x.1))
      (if (r.planAt? site).isSome then none else some {})).map PlanBuilder.finish =
      if (r.planAt? site).isSome then none else some (Plan.ofInstructions program.instructions) := by
    rw [foldl_map_push, List.zipIdx_map_fst]
    split
    · rfl
    · simp [PlanBuilder.foldl_push, Plan.ofInstructions]
  simp only []
  erw [hloop]
  simp only [bind_map_left, mountSteps, hplan]

end Pass

end Canopy
