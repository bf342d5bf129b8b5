import Canopy.Proofs.Render.Growth
import Canopy.Proofs.Render.Runs

/-!
# What a program's functions compute

A binding, a test, a loop's projection: each runs scripts in the frame of the pass's env, and
a script's result is a function of the procedures, the frame and the script alone
(`Script.outcome`). So what they compute is a plain function of the renderer's procedures,
options and the owner's state: `Binding.valueIn` for a binding, `Pass.projection` for a
loop's projection. A run of them gives that value and changes only the effects; when the
scripts queue nothing, it only adds to the log (`Renderer.Logged`).

The lemmas come in pairs: a run gives the computed value when there is one (`..._run`), and
what a successful run gives is the computed value (`..._ok`).
-/

namespace Canopy

/-- `r'` is `r` after scripts that queue nothing ran: only the log grew. -/
def Renderer.Logged (r r' : Renderer) : Prop :=
  ∃ fx, r' = { r with effects := fx } ∧ fx.queue = r.effects.queue

namespace Renderer.Logged

variable {r r' r'' : Renderer}

@[refl] theorem refl (r : Renderer) : r.Logged r := ⟨r.effects, rfl, rfl⟩

theorem trans (h₁ : r.Logged r') (h₂ : r'.Logged r'') : r.Logged r'' := by
  obtain ⟨fx, rfl, hq⟩ := h₁
  obtain ⟨fx', rfl, hq'⟩ := h₂
  exact ⟨fx', rfl, hq'.trans hq⟩

theorem procs (h : r.Logged r') : r'.procs = r.procs := by
  obtain ⟨fx, rfl, -⟩ := h
  rfl

theorem config (h : r.Logged r') : r'.config = r.config := by
  obtain ⟨fx, rfl, -⟩ := h
  rfl

theorem document (h : r.Logged r') : r'.document = r.document := by
  obtain ⟨fx, rfl, -⟩ := h
  rfl

theorem instances (h : r.Logged r') : r'.instances = r.instances := by
  obtain ⟨fx, rfl, -⟩ := h
  rfl

theorem queue (h : r.Logged r') : r'.effects.queue = r.effects.queue := by
  obtain ⟨fx, rfl, hq⟩ := h
  exact hq

theorem frameOf (h : r.Logged r') (env : Env) : r'.frameOf env = r.frameOf env := by
  obtain ⟨fx, rfl, -⟩ := h
  rfl

end Renderer.Logged

/-- One run of a script of `S` in some frame: the effects grow by what it logged and queued. -/
def Renderer.ScriptStep (S : List Script) (r r' : Renderer) : Prop :=
  ∃ s ∈ S, ∃ f, r' =
    { r with effects := r.effects.extend (Script.logged r.procs f s) (Script.queued r.procs f s) }

/-- `r'` is `r` after runs of scripts of `S`, one after another. -/
def Renderer.ScriptedBy (S : List Script) : Renderer → Renderer → Prop :=
  Relation.ReflTransGen (Renderer.ScriptStep S)

namespace Renderer.ScriptedBy

variable {S : List Script} {r r' r'' : Renderer}

@[refl] theorem refl (r : Renderer) : r.ScriptedBy S r := Relation.ReflTransGen.refl

theorem trans (h₁ : r.ScriptedBy S r') (h₂ : r'.ScriptedBy S r'') : r.ScriptedBy S r'' :=
  Relation.ReflTransGen.trans h₁ h₂

theorem effects (h : r.ScriptedBy S r') : r' = { r with effects := r'.effects } := by
  induction h with
  | refl => rfl
  | tail _ hstep ih =>
    obtain ⟨s, -, f, rfl⟩ := hstep
    rw [ih]

theorem procs (h : r.ScriptedBy S r') : r'.procs = r.procs := by
  rw [h.effects]

theorem config (h : r.ScriptedBy S r') : r'.config = r.config := by
  rw [h.effects]

theorem document (h : r.ScriptedBy S r') : r'.document = r.document := by
  rw [h.effects]

theorem frameOf (h : r.ScriptedBy S r') (env : Env) : r'.frameOf env = r.frameOf env := by
  rw [h.effects]
  rfl

theorem logged (hq : ∀ s ∈ S, ∀ f, Script.queued r.procs f s = []) (h : r.ScriptedBy S r') :
    r.Logged r' := by
  induction h with
  | refl => exact .refl r
  | tail hrest hstep ih =>
    obtain ⟨s, hs, f, rfl⟩ := hstep
    refine ih.trans ⟨_, rfl, ?_⟩
    simp [Effects.extend, ih.procs, hq s hs f]

end Renderer.ScriptedBy

namespace RenderM

variable {α β : Type} {r r' : Renderer}

/-- The run that ends in a renderer with a value or an error. -/
def settle : Except RenderError α → Renderer → EStateM.Result RenderError Renderer α
  | .ok a, r => .ok a r
  | .error e, r => .error e r

theorem run_bind_of_ok {x : RenderM α} {f : α → RenderM β} {a : α}
    (hx : x.run r = .ok a r') : (x >>= f).run r = (f a).run r' := by
  rw [EStateM.run_bind, hx]

theorem run_bind_of_error {x : RenderM α} {f : α → RenderM β} {e : RenderError}
    (hx : x.run r = .error e r') : (x >>= f).run r = .error e r' := by
  rw [EStateM.run_bind, hx]

theorem settle_ok (a : α) (r : Renderer) : settle (.ok a) r = .ok a r := rfl

/-- What running `k` after a run that ended with `e` in `r` gives. -/
def thenRun (e : Except RenderError α) (k : α → RenderM β) (r : Renderer) :
    EStateM.Result RenderError Renderer β :=
  match e with
  | .ok a => (k a).run r
  | .error err => .error err r

/-- Two runs of scripts of `S` make one. -/
theorem bind_run_scriptedBy {S : List Script} {r₀ : Renderer} (hr : r₀.ScriptedBy S r)
    {x : RenderM α} {k : α → RenderM β} {e : Except RenderError α}
    {R : Renderer → EStateM.Result RenderError Renderer β}
    (hx : ∃ r', r.ScriptedBy S r' ∧ x.run r = settle e r')
    (hk : ∀ r', r₀.ScriptedBy S r' → ∃ r'', r₀.ScriptedBy S r'' ∧ thenRun e k r' = R r'') :
    ∃ r', r₀.ScriptedBy S r' ∧ (x >>= k).run r = R r' := by
  obtain ⟨r₁, h₁, hrun⟩ := hx
  obtain ⟨r₂, h₂, hthen⟩ := hk r₁ (hr.trans h₁)
  refine ⟨r₂, h₂, ?_⟩
  rw [EStateM.run_bind, hrun, ← hthen]
  cases e <;> rfl

theorem script_logged (frame : Frame) {s : Script} (hq : ∀ f, Script.queued r.procs f s = []) :
    ∃ r', (script frame s).run r = .ok (Script.outcome r.procs frame s) r' ∧ r.Logged r' := by
  refine ⟨_, script_run frame s r, _, rfl, ?_⟩
  simp [Effects.extend, hq frame]

/-- A function of a program reads the renderer for its frame, runs its script there and makes
its answer of the outcome. -/
theorem run_get_script_scriptedBy {S : List Script} (fr : Renderer → Frame)
    (post : Except ScriptError Value → β) {s : Script} (hs : s ∈ S) :
    ∃ r', ((do let r ← get; return post (← script (fr r) s)) : RenderM β).run r =
      .ok (post (Script.outcome r.procs (fr r) s)) r' ∧ r.ScriptedBy S r' := by
  refine ⟨_, ?_, Relation.ReflTransGen.single ⟨s, hs, fr r, rfl⟩⟩
  have hrun := script_run (fr r) s r
  simp only [bind, EStateM.bind, get, getThe, MonadStateOf.get, EStateM.get,
    EStateM.run] at hrun ⊢
  rw [hrun]
  rfl

theorem run_get_script (fr : Renderer → Frame) (post : Except ScriptError Value → β)
    {s : Script} (hq : ∀ f, Script.queued r.procs f s = []) :
    ∃ r', ((do let r ← get; return post (← script (fr r) s)) : RenderM β).run r =
      .ok (post (Script.outcome r.procs (fr r) s)) r' ∧ r.Logged r' := by
  obtain ⟨r', hrun, hs⟩ := run_get_script_scriptedBy (S := [s]) fr post (List.mem_singleton_self s)
  exact ⟨r', hrun, hs.logged fun s' hs' => by rw [List.mem_singleton.1 hs']; exact hq⟩

/-- A loop whose body, from wherever the loop got, gives the step of a function of the loop's
state after runs of scripts of `S` gives the fold of that function. -/
theorem run_forIn_scriptedBy {γ : Type} {S : List Script} {f : γ → β → RenderM (ForInStep β)}
    (g : β → γ → Except RenderError β) {r₀ : Renderer}
    (hf : ∀ x c r, r₀.ScriptedBy S r → ∃ r', r.ScriptedBy S r' ∧
      (f x c).run r = settle ((g c x).map ForInStep.yield) r') :
    ∀ (xs : List γ) (init : β) (r : Renderer), r₀.ScriptedBy S r →
      ∃ r', r.ScriptedBy S r' ∧ (forIn xs init f).run r = settle (xs.foldlM g init) r'
  | [], init, r, _ => ⟨r, .refl r, rfl⟩
  | x :: xs, init, r, hr => by
    obtain ⟨r₁, h₁, hx⟩ := hf x init r hr
    rw [List.forIn_cons, List.foldlM_cons]
    cases hg : g init x with
    | error e =>
      rw [hg] at hx
      exact ⟨r₁, h₁, run_bind_of_error hx⟩
    | ok c =>
      rw [hg] at hx
      obtain ⟨r₂, h₂, hrest⟩ := run_forIn_scriptedBy g hf xs c r₁ (hr.trans h₁)
      exact ⟨r₂, h₁.trans h₂, by rw [run_bind_of_ok hx]; exact hrest⟩

end RenderM

/-! ## Bindings and tests -/

/-- The scripts a binding runs: its compute script, if it has one. -/
def Binding.scripts : Binding → List Script
  | .compute s => [s]
  | _ => []

/-- The value a binding gives in a node under an env: its script's result, a field of the
props, or the value an earlier slot holds; `none` when it fails. -/
def Binding.valueIn (r : Renderer) (env : Env) (n : Mounted) : Binding → Option Value
  | .compute s => (Script.outcome r.procs (r.frameOf env) s).toOption
  | .prop name => some ((env.props.field? name).getD .null)
  | .sibling s => match n.slot? s with
    | some (.leaf _ v) => some v
    | _ => none

namespace Bind

open RenderM

variable {r : Renderer} (env : Env) {s : Script}

theorem compute_run (hq : ∀ f, Script.queued r.procs f s = []) :
    ∃ r', (compute env s).run r =
      .ok ((Script.outcome r.procs (r.frameOf env) s).mapError .script) r' ∧ r.Logged r' :=
  run_get_script (·.frameOf env) (·.mapError BindingFailure.script) hq

theorem test_run (hq : ∀ f, Script.queued r.procs f s = []) :
    ∃ r', (test env s).run r =
      .ok (match Script.outcome r.procs (r.frameOf env) s with
        | .ok (.bool b) => .ok b
        | .ok v => .error (.notBool v)
        | .error e => .error (.script e)) r' ∧ r.Logged r' :=
  run_get_script (·.frameOf env) _ hq

theorem collection_run (hq : ∀ f, Script.queued r.procs f s = []) :
    ∃ r', (collection env s).run r =
      .ok (match Script.outcome r.procs (r.frameOf env) s with
        | .ok (.arr xs) => .ok xs
        | .ok v => .error (.notArray v)
        | .error e => .error (.script e)) r' ∧ r.Logged r' :=
  run_get_script (·.frameOf env) _ hq

theorem key_run (hq : ∀ f, Script.queued r.procs f s = []) (item : Value) (index : Nat) :
    ∃ r', (key env s item index).run r =
      .ok (match Script.outcome r.procs (itemFrame r env item index) s with
        | .ok v => (Key.ofValue v).mapError .invalidKey
        | .error e => .error (.script e)) r' ∧ r.Logged r' :=
  run_get_script (itemFrame · env item index) _ hq

theorem props_run (hq : ∀ f, Script.queued r.procs f s = []) (item : Value) (index : Nat) :
    ∃ r', (props env s item index).run r =
      .ok ((Script.outcome r.procs (itemFrame r env item index) s).mapError .script) r' ∧
        r.Logged r' :=
  run_get_script (itemFrame · env item index) (·.mapError BindingFailure.script) hq

theorem collection_run_scriptedBy {S : List Script} (hs : s ∈ S) :
    ∃ r', (collection env s).run r =
      .ok (match Script.outcome r.procs (r.frameOf env) s with
        | .ok (.arr xs) => .ok xs
        | .ok v => .error (.notArray v)
        | .error e => .error (.script e)) r' ∧ r.ScriptedBy S r' :=
  run_get_script_scriptedBy (·.frameOf env) _ hs

theorem key_run_scriptedBy {S : List Script} (hs : s ∈ S) (item : Value) (index : Nat) :
    ∃ r', (key env s item index).run r =
      .ok (match Script.outcome r.procs (itemFrame r env item index) s with
        | .ok v => (Key.ofValue v).mapError .invalidKey
        | .error e => .error (.script e)) r' ∧ r.ScriptedBy S r' :=
  run_get_script_scriptedBy (itemFrame · env item index) _ hs

theorem props_run_scriptedBy {S : List Script} (hs : s ∈ S) (item : Value) (index : Nat) :
    ∃ r', (props env s item index).run r =
      .ok ((Script.outcome r.procs (itemFrame r env item index) s).mapError .script) r' ∧
        r.ScriptedBy S r' :=
  run_get_script_scriptedBy (itemFrame · env item index) (·.mapError BindingFailure.script) hs

end Bind

namespace Pass

/-- The projected item a loop's functions give for an item of the collection at a position, and
the error a projection stops with. -/
def projectItem (procs : Procedures) (frame : Frame) (l : LoopSpec Program) (x : Value × Nat) :
    Except RenderError Projected := do
  let f := { frame with item := some x.1, index := some x.2 }
  let key ← (match Script.outcome procs f l.key with
    | .ok v => (Key.ofValue v).mapError BindingFailure.invalidKey
    | .error e => .error (.script e) : Except BindingFailure Key).mapError
      (RenderError.binding .loopMap)
  let props ← match l.props with
    | some s =>
      ((Script.outcome procs f s).mapError BindingFailure.script).mapError (.binding .loopMap)
    | none => .ok frame.props
  pure ⟨key, props⟩

/-- What a loop's projection gives in a frame under a duplicate-key policy: the collection's
items, each projected in turn, with duplicate keys dealt with by the policy. -/
def projection (procs : Procedures) (policy : DuplicateKeyPolicy) (frame : Frame)
    (l : LoopSpec Program) : Except RenderError (List Projected) := do
  let items ← (match Script.outcome procs frame l.collection with
    | .ok (.arr xs) => .ok xs
    | .ok v => .error (.notArray v)
    | .error e => .error (.script e) : Except BindingFailure (List Value)).mapError
      (RenderError.binding .loopMap)
  let out ← items.zipIdx.foldlM (fun (out : Array Projected) x => do
    let p ← projectItem procs frame l x
    pure (out.push p)) #[]
  (Projected.dedupe policy out.toList).mapError .duplicateKey

open RenderM

variable {r : Renderer} {env : Env} {n : Mounted} {b : Binding} {op : Opcode} {v : Value}

/-- A projection gives what `projection` computes, after runs of the loop's collection, key and
props functions. -/
theorem project_run_scriptedBy (r : Renderer) (env : Env) (l : LoopSpec Program) :
    ∃ r', r.ScriptedBy (l.collection :: l.key :: l.props.toList) r' ∧ (project env l).run r =
      settle (projection r.procs r.config.duplicateKeys (r.frameOf env) l) r' := by
  generalize hS : l.collection :: l.key :: l.props.toList = S
  have hkeyS : l.key ∈ S := hS ▸ by simp
  have hpropsS : ∀ f ∈ l.props, f ∈ S := fun f hf => hS ▸ by simp [Option.mem_def.1 hf]
  obtain ⟨r₁, hcol, hl₁⟩ := Bind.collection_run_scriptedBy (r := r) env
    (hS ▸ List.mem_cons_self ..)
  unfold project projection
  rw [run_bind_of_ok hcol]
  -- the collection's outcome decides whether the items are projected at all
  generalize Script.outcome r.procs (r.frameOf env) l.collection = o
  rcases o with e | v
  · exact ⟨r₁, hl₁, rfl⟩
  cases v with
  | arr xs =>
    simp only [pure_bind, Except.mapError]
    refine bind_run_scriptedBy hl₁ (run_forIn_scriptedBy (fun (out : Array Projected) x => do
      let p ← projectItem r.procs (r.frameOf env) l x
      pure (out.push p)) ?_ xs.zipIdx #[] r₁ (.refl _)) ?_
    · rintro ⟨item, index⟩ c s hs
      have hs' := hl₁.trans hs
      have hframe : Bind.itemFrame s env item index =
          { r.frameOf env with item := some item, index := some index } := by
        rw [Bind.itemFrame, hs'.frameOf]
      obtain ⟨s₁, hkey, hk₁⟩ := Bind.key_run_scriptedBy (r := s) env hkeyS item index
      rw [hframe, hs'.procs, ← settle_ok] at hkey
      refine bind_run_scriptedBy (.refl s) ⟨s₁, hk₁, hkey⟩ ?_
      intro s₂ hs₂
      simp only [thenRun, projectItem]
      split
      · rename_i key hkv
        simp only [hkv]
        cases hp : l.props with
        | none => exact ⟨s₂, hs₂, rfl⟩
        | some f =>
          have hs₂' := hs'.trans hs₂
          obtain ⟨s₃, hprops, hl₃⟩ := Bind.props_run_scriptedBy (r := s₂) env
            (hpropsS f (Option.mem_def.2 hp)) item index
          simp only [Bind.itemFrame, hs₂'.frameOf, hs₂'.procs] at hprops
          rw [run_bind_of_ok hprops]
          split
          · rename_i props hpv
            exact ⟨s₃, hs₂.trans hl₃, by simp [hpv]; rfl⟩
          · rename_i e hpv
            exact ⟨s₃, hs₂.trans hl₃, by simp [hpv]; rfl⟩
      · rename_i f hkv
        exact ⟨s₂, hs₂, by simp [hkv]; rfl⟩
    · intro s hs
      cases hfold : xs.zipIdx.foldlM (fun (out : Array Projected) x => do
          let p ← projectItem r.procs (r.frameOf env) l x
          pure (out.push p)) #[] with
      | error e =>
        refine ⟨s, hs, ?_⟩
        simp only [thenRun, hfold, show ∀ f : List Value → Except RenderError (List Projected),
          (Except.ok xs >>= f) = f xs from fun _ => rfl]
        rfl
      | ok out =>
        refine ⟨s, hs, ?_⟩
        simp only [thenRun, hfold, show ∀ f : List Value → Except RenderError (List Projected),
          (Except.ok xs >>= f) = f xs from fun _ => rfl]
        rw [run_get_bind]
        change _ = settle ((Projected.dedupe r.config.duplicateKeys out.toList).mapError
          RenderError.duplicateKey) s
        rw [hs.config]
        cases Projected.dedupe r.config.duplicateKeys out.toList <;> rfl
  | _ => exact ⟨r₁, hl₁, rfl⟩

/-- A projection whose functions queue nothing gives what `projection` computes, and only adds
to the log. -/
theorem project_run {l : LoopSpec Program}
    (hq : ∀ s ∈ l.collection :: l.key :: l.props.toList, ∀ f, Script.queued r.procs f s = []) :
    ∃ r', r.Logged r' ∧ (project env l).run r =
      settle (projection r.procs r.config.duplicateKeys (r.frameOf env) l) r' := by
  obtain ⟨r', hs, hrun⟩ := project_run_scriptedBy r env l
  exact ⟨r', hs.logged hq, hrun⟩

/-- A slot source gives the value its slot holds, and changes nothing. -/
theorem run_resolve_sibling {s : Nat} {r' : Renderer} :
    (resolve (.sibling s) op env n).run r = .ok v r' ↔
      (∃ e, n.slot? s = some (.leaf e v)) ∧ r' = r := by
  simp only [resolve]
  cases hs : n.slot? s with
  | none =>
    refine ⟨fun h => (run_throw_ok h).elim, ?_⟩
    rintro ⟨⟨e, he⟩, -⟩
    cases he
  | some sl =>
    cases sl with
    | leaf e w =>
      constructor
      · intro h
        obtain ⟨rfl, rfl⟩ := run_pure_ok h
        exact ⟨⟨e, rfl⟩, rfl⟩
      · rintro ⟨⟨e', he'⟩, rfl⟩
        cases he'
        rfl
    | _ =>
      refine ⟨fun h => (run_throw_ok h).elim, ?_⟩
      rintro ⟨⟨e, he⟩, -⟩
      cases he

theorem resolve_run (hq : ∀ s ∈ b.scripts, ∀ f, Script.queued r.procs f s = [])
    (hv : b.valueIn r env n = some v) : ∃ r', (resolve b op env n).run r = .ok v r' ∧ r.Logged r' := by
  cases b with
  | compute s =>
    obtain ⟨r₁, hrun, hl⟩ := Bind.compute_run env (hq s (List.mem_singleton_self s))
    refine ⟨r₁, ?_, hl⟩
    rw [resolve, run_bind_of_ok hrun]
    simp only [Binding.valueIn] at hv
    cases ho : Script.outcome r.procs (r.frameOf env) s with
    | ok w =>
      rw [ho] at hv
      cases hv
      rfl
    | error e =>
      rw [ho] at hv
      cases hv
  | prop name =>
    simp only [Binding.valueIn, Option.some.injEq] at hv
    exact ⟨r, by rw [resolve, hv]; rfl, .refl r⟩
  | sibling s =>
    refine ⟨r, run_resolve_sibling.2 ⟨?_, rfl⟩, .refl r⟩
    simp only [Binding.valueIn] at hv
    cases hs : n.slot? s with
    | none => simp [hs] at hv
    | some sl =>
      cases sl with
      | leaf h w =>
        simp only [hs, Option.some.injEq] at hv
        exact ⟨h, by rw [hv]⟩
      | _ => simp [hs] at hv

theorem resolve_ok (hq : ∀ s ∈ b.scripts, ∀ f, Script.queued r.procs f s = [])
    {r' : Renderer} (h : (resolve b op env n).run r = .ok v r') :
    b.valueIn r env n = some v ∧ r.Logged r' := by
  cases b with
  | compute s =>
    obtain ⟨r₁, hrun, hl⟩ := Bind.compute_run env (hq s (List.mem_singleton_self s))
    rw [resolve, run_bind_of_ok hrun] at h
    simp only [Binding.valueIn]
    cases ho : Script.outcome r.procs (r.frameOf env) s with
    | ok w =>
      rw [ho] at h
      obtain ⟨rfl, rfl⟩ := run_pure_ok h
      exact ⟨rfl, hl⟩
    | error e =>
      rw [ho] at h
      cases h
  | prop name =>
    obtain ⟨rfl, rfl⟩ := run_pure_ok h
    exact ⟨rfl, .refl _⟩
  | sibling s =>
    obtain ⟨⟨e, hs⟩, rfl⟩ := run_resolve_sibling.1 h
    refine ⟨?_, .refl _⟩
    simp only [Binding.valueIn, hs]

end Pass

end Canopy
