import Mathlib
import Canopy.Proofs.Render.Flushing

/-!
# The order in which a flush applies updates

A drain takes the entries off the front of the update queue one at a time and applies each
before it takes the next, so a flush applies its entries in the order they were queued, the ones
queued while it runs included (`Flushes.fifo`). Applying an entry (`EntryStep`) either finds its
instance updatable — registered, mounted and with its node in the root of its container — or
changes nothing. In the first case the entry's partial state is resolved against the instance's
props and state and merged into the state, exactly one update pass runs over the instance's
node, and the entry's callback is deferred in front of the hooks the pass deferred.

Deferring puts a callback in front of those deferred before, and a round runs its callbacks from
the front once its drain is over (`callbacksRun_of_runDeferred`), so they run latest first
(`RoundApplies.callbacks`); the entries they queue wait for the next round. Scripts change no
instance, so an instance that is there when a flush begins ends with the left fold, over the
entries for it, of merging each partial state resolved against the state of that moment
(`Flushes.stateOf`). `flush_applies_in_order` puts these together.

Instances live in an array at position `id - 1`, so ids are taken to be positive where the state
of one instance is followed through entries for others.
-/

namespace Canopy

theorem InstanceId.pred_ne {i j : InstanceId} (hi : i.raw ≠ 0) (hj : j.raw ≠ 0) (h : i ≠ j) :
    i.raw - 1 ≠ j.raw - 1 := by
  intro hpred
  apply h
  cases i
  cases j
  simp only [InstanceId.mk.injEq]
  simp only at hi hj hpred
  omega

namespace UpdateQueue

theorem toList_eq_nil_of_isEmpty {q : UpdateQueue} (h : q.isEmpty = true) : q.toList = [] := by
  rcases q with ⟨front, back⟩
  simp_all [isEmpty, toList]

end UpdateQueue

namespace QueuedUpdate

/-- The partial state an entry gives against an instance's props and state: its patch, or what
its updater computes from them. -/
def resolve (procs : Procedures) (u : QueuedUpdate) (props state : Value) :
    Except ScriptError Value :=
  match u.update with
  | .patch v => .ok v
  | .updater sc => Script.outcome procs { props, state := some state } sc

/-- The values an entry's updater logs while it computes the partial state. -/
def logged (procs : Procedures) (u : QueuedUpdate) (props state : Value) : List Value :=
  match u.update with
  | .patch _ => []
  | .updater sc => Script.logged procs { props, state := some state } sc

/-- The state an entry leaves an instance with: the partial state it resolves to against the
props and state, merged into the state. -/
def applyTo (procs : Procedures) (u : QueuedUpdate) (props state : Value) :
    Except ScriptError Value :=
  (u.resolve procs props state).map (mergeState state)

end QueuedUpdate

/-- The instance a deferred callback runs for, if any. -/
def Deferred.owner : Deferred → Option InstanceId
  | .lifecycle _ _ owner => owner
  | .settled _ owner => some owner

namespace Renderer

/-- The queued updates, oldest first. -/
def pending (r : Renderer) : List QueuedUpdate := r.effects.queue.toList

/-- The state of the instance with an id, if there is one. -/
def stateOf (r : Renderer) (id : InstanceId) : Option Value := (r.instance? id).map (·.state)

/-- The instance `id` is registered under the container `c`, whose root `f` holds the
instance's node `node` at `path`. -/
def NodeAt (r : Renderer) (id : InstanceId) (c : NodeId) (f : Fiber) (path : List Step)
    (node : Mounted) : Prop :=
  r.registry.lookup id = some c ∧ r.fiber? c = some f ∧ f.node.findComponent id = some path ∧
    f.node.get? path = some node

end Renderer

namespace Pass

open RenderM

/-! ## What applying one entry does -/

/-- The renderer an entry's update pass starts from: the partial state `p` merged into the
state of the entry's instance, the updater's log entries added, and the container `c` of the
instance and the event tables of its root `f` current. -/
def mergedFor (s : Renderer) (u : QueuedUpdate) (inst : Instance) (p : Value) (c : NodeId)
    (f : Fiber) : Renderer :=
  { s with
    effects := s.effects.extend (u.logged s.procs inst.props inst.state) []
    instances := (s.instances.modify (u.target.raw - 1) fun i =>
      { i with state := mergeState i.state p })
    container := c
    events := f.events }

/-- The renderer an entry leaves once its update pass ended at `m` with the node `node'`: the
node goes back at `path` in the root of the container `c`, with the pass's event tables, and the
entry's callback, if it has one, is deferred. -/
def settledFor (m : Renderer) (u : QueuedUpdate) (c : NodeId) (path : List Step)
    (node' : Mounted) : Renderer :=
  { m with
    fibers := (m.fibers.map fun g =>
      if g.container == c then { g with node := g.node.setAt path node', events := m.events }
      else g)
    deferred := (u.callback.map fun cb => Deferred.settled cb u.target).toList ++ m.deferred }

/-- An entry a drain took off the queue, with what applying it found and left: the instance it
found updatable, if any, the entries its update pass queued, and the callbacks it deferred,
latest first. -/
structure AppliedEntry where
  entry : QueuedUpdate
  found : Option Instance
  queued : List QueuedUpdate
  deferred : List Deferred

/-- What applying an entry does to `s`, ending at `t`. -/
inductive EntryStep : Renderer → AppliedEntry → Renderer → Prop
  /-- An entry whose instance is unregistered, unmounted or without a node in its root changes
  nothing. -/
  | skip {s : Renderer} {u : QueuedUpdate} (hu : ∀ inst, ¬ s.Updatable u.target inst) :
      EntryStep s ⟨u, none, [], []⟩ s
  /-- Otherwise the partial state is resolved against the instance's props and state and merged
  into the state, exactly one update pass runs over the instance's node with its props, and the
  entry's callback is deferred in front of the callbacks the pass deferred. -/
  | apply {s m : Renderer} {u : QueuedUpdate} {inst : Instance} {p : Value} {c : NodeId}
      {f : Fiber} {path : List Step} {node node' : Mounted} {queued : List QueuedUpdate}
      {pass : List Deferred} (hi : s.instance? u.target = some inst) (hm : inst.mounted = true)
      (hnode : s.NodeAt u.target c f path node)
      (hres : u.resolve s.procs inst.props inst.state = .ok p)
      (hrun : (updateInstanceNode u.target inst.props node).run (mergedFor s u inst p c f) =
        .ok (node', none) m)
      (hq : m.pending = s.pending ++ queued) (hd : m.deferred = pass ++ s.deferred) :
      EntryStep s ⟨u, some inst, queued,
        (u.callback.map fun cb => Deferred.settled cb u.target).toList ++ pass⟩
        (settledFor m u c path node')

/-- What an applied entry did to the state `st` of its instance: the partial state resolved
against the props of the instance it found, merged in; nothing when it found none. -/
def AppliedEntry.step (procs : Procedures) (a : AppliedEntry) (st : Value) :
    Except ScriptError Value :=
  match a.found with
  | some inst => a.entry.applyTo procs inst.props st
  | none => .ok st

theorem grows_updateInstanceNode (id : InstanceId) (props : Value) (node : Mounted) :
    Grows (updateInstanceNode id props node) :=
  grows_updateNode _ _ _

theorem instance?_mergedFor (s : Renderer) (u : QueuedUpdate) (inst : Instance) (p : Value)
    (c : NodeId) (f : Fiber) (j : InstanceId) :
    (mergedFor s u inst p c f).instance? j = if u.target.raw - 1 = j.raw - 1 then
      (s.instance? j).map fun i => { i with state := mergeState i.state p } else s.instance? j := by
  simp only [mergedFor, Renderer.instance?, Array.getElem?_modify]

theorem applyUpdate_of_not_updatable {s : Renderer} {u : QueuedUpdate}
    (hu : ∀ inst, ¬ s.Updatable u.target inst) : (applyUpdate u).run s = .ok () s := by
  unfold applyUpdate
  rw [run_bind_of_ok (EStateM.run_get s)]
  dsimp only
  -- each lookup that fails returns at once, and they cannot all succeed
  rcases hc : s.registry.lookup u.target with _ | c
  · rfl
  dsimp only
  rcases hi : s.instance? u.target with _ | inst
  · rfl
  dsimp only
  cases hm : inst.mounted
  · rfl
  simp only [Bool.not_true, Bool.false_eq_true, if_false]
  rcases hf : s.fiber? c with _ | f
  · rfl
  dsimp only
  rcases hp : f.node.findComponent u.target with _ | path
  · rfl
  dsimp only
  rcases hn : f.node.get? path with _ | node
  · rfl
  exact absurd ⟨hi, hm, c, f, path, node, hc, hf, hp, hn⟩ (hu inst)

/-- The end of an entry's application, once its partial state `p` is resolved: the state is
merged, one update pass runs over the node, and a pass that reports no error puts the node back
and defers the entry's callback. -/
theorem run_settle_ok {s₁ t : Renderer} {u : QueuedUpdate} {inst : Instance} {c : NodeId}
    {f : Fiber} {path : List Step} {node : Mounted} {p : Value}
    (h : (do
      RenderM.modifyInstance u.target fun i => { i with state := mergeState i.state p }
      modify fun r => { r with container := c, events := f.events }
      let (node', err) ← updateInstanceNode u.target inst.props node
      modify fun r => { r with fibers := r.fibers.map fun g =>
        if g.container == c then { g with node := g.node.setAt path node', events := r.events }
        else g }
      match err with
      | some e => throw e
      | none => if let some cb := u.callback then RenderM.defer (.settled cb u.target) :
        RenderM Unit).run s₁ = .ok () t) :
    ∃ node' m, (updateInstanceNode u.target inst.props node).run
        { s₁ with
          instances := (s₁.instances.modify (u.target.raw - 1) fun i =>
            { i with state := mergeState i.state p })
          container := c
          events := f.events } = .ok (node', none) m ∧
      t = settledFor m u c path node' := by
  obtain ⟨_, s₂, h₂, h₃⟩ := run_bind_ok h
  cases h₂
  obtain ⟨_, s₃, h₄, h₅⟩ := run_bind_ok h₃
  cases h₄
  obtain ⟨⟨node', err⟩, m, hpass, h₆⟩ := run_bind_ok h₅
  obtain ⟨_, s₄, h₇, h₈⟩ := run_bind_ok h₆
  cases h₇
  cases err with
  | some e => cases h₈
  | none =>
    refine ⟨node', m, hpass, ?_⟩
    cases hcb : u.callback <;> simp only [hcb] at h₈ <;> cases h₈ <;> simp [settledFor, hcb]

/-- An entry whose pass ran from its merged state and whose node went back is an `EntryStep`:
the pass only appends to the queue and puts callbacks in front. -/
theorem entryStep_of_settle {s m t : Renderer} {u : QueuedUpdate} {inst : Instance} {p : Value}
    {c : NodeId} {f : Fiber} {path : List Step} {node node' : Mounted}
    (hi : s.instance? u.target = some inst) (hm : inst.mounted = true)
    (hnode : s.NodeAt u.target c f path node)
    (hres : u.resolve s.procs inst.props inst.state = .ok p)
    (hrun : (updateInstanceNode u.target inst.props node).run (mergedFor s u inst p c f) =
      .ok (node', none) m)
    (ht : t = settledFor m u c path node') : ∃ a : AppliedEntry, a.entry = u ∧ EntryStep s a t := by
  have hg := (grows_updateInstanceNode u.target inst.props node).ok hrun
  obtain ⟨queued, hq⟩ := hg.queue
  obtain ⟨pass, hd⟩ := hg.deferred
  have hq' : m.pending = s.pending ++ queued := by
    rw [Renderer.pending, ← hq]
    simp [Renderer.pending, mergedFor]
  subst ht
  exact ⟨_, rfl, .apply hi hm hnode hres hrun hq' hd.symm⟩

/-- Every successful application of an entry is an `EntryStep`. -/
theorem applyUpdate_entryStep {s t : Renderer} {u : QueuedUpdate}
    (h : (applyUpdate u).run s = .ok () t) : ∃ a : AppliedEntry, a.entry = u ∧ EntryStep s a t := by
  by_cases hu : ∃ inst, s.Updatable u.target inst
  · obtain ⟨inst, hi, hm, c, f, path, node, hc, hf, hp, hn⟩ := hu
    have hnode : s.NodeAt u.target c f path node := ⟨hc, hf, hp, hn⟩
    unfold applyUpdate at h
    rw [run_bind_of_ok (EStateM.run_get s)] at h
    simp only [hc, hi, hm, hf, hp, hn, Bool.not_true, Bool.false_eq_true, if_false] at h
    -- a patch is its partial state; an updater runs first and adds its log entries
    cases hupd : u.update with
    | patch v =>
      rw [hupd] at h
      obtain ⟨p, s₁, hres, h₁⟩ := run_bind_ok h
      obtain ⟨hp, hs₁⟩ := run_pure_ok hres
      subst p s₁
      obtain ⟨node', m, hrun, ht⟩ := run_settle_ok h₁
      have hrun' : (updateInstanceNode u.target inst.props node).run (mergedFor s u inst v c f) =
          .ok (node', none) m := by
        convert hrun using 2
        simp [mergedFor, QueuedUpdate.logged, hupd]
      exact entryStep_of_settle hi hm hnode (by simp [QueuedUpdate.resolve, hupd]) hrun' ht
    | updater sc =>
      rw [hupd] at h
      obtain ⟨o, s₁, h₁, h₂⟩ := run_bind_ok h
      rw [script_run, Script.queued_eq_nil_of_owner sc rfl] at h₁
      cases h₁
      cases hout : Script.outcome s.procs { props := inst.props, state := some inst.state } sc with
      | error e =>
        rw [hout] at h₂
        cases h₂
      | ok v =>
        rw [hout] at h₂
        obtain ⟨p, s₂, hres, h₃⟩ := run_bind_ok h₂
        obtain ⟨hp, hs₂⟩ := run_pure_ok hres
        subst p s₂
        obtain ⟨node', m, hrun, ht⟩ := run_settle_ok h₃
        have hrun' : (updateInstanceNode u.target inst.props node).run (mergedFor s u inst v c f) =
            .ok (node', none) m := by
          convert hrun using 2
          simp [mergedFor, QueuedUpdate.logged, hupd]
        exact entryStep_of_settle hi hm hnode (by simp [QueuedUpdate.resolve, hupd, hout]) hrun' ht
  · push Not at hu
    rw [applyUpdate_of_not_updatable hu] at h
    cases h
    exact ⟨_, rfl, .skip hu⟩

namespace EntryStep

variable {s t : Renderer} {a : AppliedEntry}

theorem pending (h : EntryStep s a t) : t.pending = s.pending ++ a.queued := by
  cases h with
  | skip => simp
  | apply _ _ _ _ _ hq => exact hq

theorem deferred (h : EntryStep s a t) : t.deferred = a.deferred ++ s.deferred := by
  cases h with
  | skip => rfl
  | apply _ _ _ _ _ _ hd => simp [settledFor, hd]

theorem procs (h : EntryStep s a t) : t.procs = s.procs := by
  cases h with
  | skip => rfl
  | apply _ _ _ _ hrun => exact ((grows_updateInstanceNode _ _ _).ok hrun).procs

/-- An entry leaves the state of every instance in another position of the array as it was. -/
theorem stateOf_ne (h : EntryStep s a t) {i : InstanceId} (hne : a.entry.target.raw - 1 ≠ i.raw - 1)
    {st : Value} (hs : s.stateOf i = some st) : t.stateOf i = some st := by
  cases h with
  | skip => exact hs
  | @apply m u inst p c f path node node' queued pass _ _ _ _ hrun _ _ =>
    obtain ⟨x, hx, rfl⟩ := Option.map_eq_some_iff.1 hs
    have hmerged : (mergedFor s u inst p c f).instance? i = some x := by
      rw [instance?_mergedFor, if_neg hne, hx]
    obtain ⟨x', hx', hstate⟩ := ((grows_updateInstanceNode _ _ _).ok hrun).instance_state hmerged
    show (m.instance? i).map (·.state) = some x.state
    rw [hx', Option.map_some, hstate]

/-- An entry leaves its own instance with the state its step gives. -/
theorem stateOf_self (h : EntryStep s a t) {st : Value} (hs : s.stateOf a.entry.target = some st) :
    ∃ st', t.stateOf a.entry.target = some st' ∧ a.step s.procs st = .ok st' := by
  cases h with
  | skip => exact ⟨st, hs, rfl⟩
  | @apply m u inst p c f path node node' queued pass hi _ _ hres hrun _ _ =>
    have hst : inst.state = st := by
      simpa [Renderer.stateOf, hi] using hs
    subst hst
    have hmerged : (mergedFor s u inst p c f).instance? u.target =
        some { inst with state := mergeState inst.state p } := by
      rw [instance?_mergedFor, if_pos rfl, hi]
      rfl
    obtain ⟨x', hx', hstate⟩ := ((grows_updateInstanceNode _ _ _).ok hrun).instance_state hmerged
    refine ⟨mergeState inst.state p, ?_, ?_⟩
    · show (m.instance? u.target).map (·.state) = _
      rw [hx', Option.map_some, hstate]
    · simp only [AppliedEntry.step, QueuedUpdate.applyTo, hres]
      rfl

end EntryStep

/-! ## A drain as a trace of entries -/

/-- `Applies s as t`: a drain from `s` takes the entries of `as` off the front of the queue one
after another and applies each, reaching `t`. -/
inductive Applies : Renderer → List AppliedEntry → Renderer → Prop
  | nil (s : Renderer) : Applies s [] s
  | cons {s m t : Renderer} {a : AppliedEntry} {rest : UpdateQueue} {as : List AppliedEntry} :
      s.effects.queue.pop? = some (a.entry, rest) →
      EntryStep { s with effects := { s.effects with queue := rest } } a m →
      Applies m as t → Applies s (a :: as) t

theorem DrainSteps.applies {n : Nat} {s t : Renderer} (h : DrainSteps n s t) :
    ∃ as, as.length = n ∧ Applies s as t := by
  induction h with
  | refl s => exact ⟨[], rfl, .nil s⟩
  | head hstep _ ih =>
    obtain ⟨u, rest, hpop, happly⟩ := hstep
    obtain ⟨a, rfl, ha⟩ := applyUpdate_entryStep happly
    obtain ⟨as, hlen, has⟩ := ih
    exact ⟨a :: as, by simp [hlen], .cons hpop ha has⟩

namespace Applies

variable {s t : Renderer} {as : List AppliedEntry}

/-- First in, first out: the entries queued at the start and those queued while the drain runs,
in the order they were queued, are the entries applied followed by those still queued. -/
theorem fifo (h : Applies s as t) :
    s.pending ++ as.flatMap (·.queued) = as.map (·.entry) ++ t.pending := by
  induction h with
  | nil => simp
  | @cons s m t a rest as hpop hstep _ ih =>
    have hs : s.pending = a.entry :: rest.toList := UpdateQueue.toList_of_pop? hpop
    have hm : m.pending = rest.toList ++ a.queued := hstep.pending
    rw [hs, List.flatMap_cons, List.map_cons, List.cons_append, List.cons_append, ← ih, hm]
    simp

/-- The callbacks deferred while a drain runs stand in front of those deferred before it, those
of later entries first. -/
theorem deferred (h : Applies s as t) :
    t.deferred = as.reverse.flatMap (·.deferred) ++ s.deferred := by
  induction h with
  | nil => simp
  | cons _ hstep _ ih => simp [ih, hstep.deferred]

theorem procs (h : Applies s as t) : t.procs = s.procs := by
  induction h with
  | nil => rfl
  | cons _ hstep _ ih => rw [ih, hstep.procs]

/-- The state an instance that was there at the start ends with is the fold of the steps of the
entries for it. -/
theorem stateOf (h : Applies s as t) {i : InstanceId} (hi : i.raw ≠ 0)
    (hids : ∀ a ∈ as, a.entry.target.raw ≠ 0) {st : Value} (hs : s.stateOf i = some st) :
    ∃ st', t.stateOf i = some st' ∧
      (as.filter (·.entry.target == i)).foldlM (fun st a => a.step s.procs st) st = .ok st' := by
  induction h generalizing st with
  | nil => exact ⟨st, hs, rfl⟩
  | @cons s m t a rest as hpop hstep _ ih =>
    have hids' : ∀ b ∈ as, b.entry.target.raw ≠ 0 := fun b hb => hids b (List.mem_cons_of_mem _ hb)
    have hprocs : m.procs = s.procs := hstep.procs
    by_cases ha : a.entry.target = i
    · -- the entry is for the instance: its step is the first of the fold
      subst ha
      obtain ⟨st₁, hm, hst₁⟩ := hstep.stateOf_self hs
      obtain ⟨st', ht, hfold⟩ := ih hids' hm
      refine ⟨st', ht, ?_⟩
      rw [hprocs] at hfold
      rw [List.filter_cons_of_pos (by simp), List.foldlM_cons, hst₁]
      exact hfold
    · -- an entry for another instance leaves its state alone
      have hne := InstanceId.pred_ne (hids a List.mem_cons_self) hi ha
      obtain ⟨st', ht, hfold⟩ := ih hids' (hstep.stateOf_ne hne hs)
      refine ⟨st', ht, ?_⟩
      rw [hprocs] at hfold
      simpa [List.filter_cons, ha] using hfold

end Applies

/-! ## Deferred callbacks -/

/-- The callbacks deferred in `d` run from the front, each in the frame its instance has in `d`
(the callbacks before it change no instance), and all succeed: the round ends at `t` with no
callback deferred and the callbacks' log entries and queued updates added in the order they
ran. -/
def CallbacksRun (d t : Renderer) : Prop :=
  (∀ x ∈ d.deferred, ∃ v, Script.outcome d.procs (callbackFrame d x.owner) x.callback = .ok v) ∧
    t = { d with
      deferred := []
      effects := (d.effects.extend
        (d.deferred.flatMap fun x => Script.logged d.procs (callbackFrame d x.owner) x.callback)
        (d.deferred.flatMap fun x => Script.queued d.procs (callbackFrame d x.owner) x.callback)) }

namespace CallbacksRun

variable {d t : Renderer}

theorem pending (h : CallbacksRun d t) : t.pending = d.pending ++
    d.deferred.flatMap fun x => Script.queued d.procs (callbackFrame d x.owner) x.callback := by
  obtain ⟨-, rfl⟩ := h
  simp [Renderer.pending]

theorem procs (h : CallbacksRun d t) : t.procs = d.procs := by
  obtain ⟨-, rfl⟩ := h
  rfl

theorem stateOf (h : CallbacksRun d t) (i : InstanceId) : t.stateOf i = d.stateOf i := by
  obtain ⟨-, rfl⟩ := h
  rfl

end CallbacksRun

/-- A loop whose body always goes on runs to the end of its list. -/
theorem run_forIn_yield {γ : Type} {xs : List γ} {r r' : Renderer}
    {f : γ → Unit → RenderM (ForInStep Unit)} (I : List γ → Renderer → Prop)
    (hstep : ∀ y ys s step s', I (y :: ys) s → (f y ()).run s = .ok step s' →
      step = .yield () ∧ I ys s')
    (hinit : I xs r) (h : (forIn xs () f).run r = .ok () r') : I [] r' := by
  refine run_forIn_ok (fun rest _ s => I rest s) (fun y ys c s c' s' hI hrun => ?_)
    (fun y ys c s c' s' hI hrun => ?_) hinit h
  · exact (hstep y ys s _ s' hI hrun).2
  · cases (hstep y ys s _ s' hI hrun).1

theorem callbacksRun_of_runDeferred {d t : Renderer} (h : runDeferred.run d = .ok () t) :
    CallbacksRun d t := by
  obtain ⟨r₁, s₁, h₁, h₂⟩ := run_bind_ok h
  obtain ⟨hr₁, hs₁⟩ := run_get_ok h₁
  subst r₁ s₁
  obtain ⟨_, s₂, h₃, h₄⟩ := run_bind_ok h₂
  cases h₃
  obtain ⟨_, s₃, h₄, h₅⟩ := run_bind_ok h₄
  obtain ⟨-, hs₃⟩ := run_pure_ok h₅
  subst s₃
  -- the callbacks run so far, `done`, succeeded and added their effects
  let ran : List Deferred → Renderer := fun done => { d with
    deferred := []
    effects := (d.effects.extend
      (done.flatMap fun x => Script.logged d.procs (callbackFrame d x.owner) x.callback)
      (done.flatMap fun x => Script.queued d.procs (callbackFrame d x.owner) x.callback)) }
  have key := run_forIn_yield (fun rest s => ∃ done, d.deferred = done ++ rest ∧
      (∀ x ∈ done, ∃ v, Script.outcome d.procs (callbackFrame d x.owner) x.callback = .ok v) ∧
      s = ran done) ?_ ⟨[], by simp, by simp, by simp [ran]⟩ h₄
  · obtain ⟨done, hdone, hok, rfl⟩ := key
    rw [List.append_nil] at hdone
    subst hdone
    exact ⟨hok, rfl⟩
  · rintro y ys s step s' ⟨done, hd, hok, rfl⟩ hrun
    have hran : ran (done ++ [y]) = { ran done with
        effects := ((ran done).effects.extend
          (Script.logged d.procs (callbackFrame d y.owner) y.callback)
          (Script.queued d.procs (callbackFrame d y.owner) y.callback)) } := by
      simp [ran, Effects.extend_extend]
    -- the two kinds of callback differ only in the frame and the error they report
    cases y <;>
    · obtain ⟨fr, s₁, h₅, h₆⟩ := run_bind_ok hrun
      obtain ⟨rfl, rfl⟩ := run_get_ok h₅
      obtain ⟨o, s₂, h₇, h₈⟩ := run_bind_ok h₆
      rw [script_run] at h₇
      cases h₇
      split at h₈
      · cases h₈
      · obtain ⟨rfl, rfl⟩ := run_pure_ok h₈
        refine ⟨rfl, done ++ [_], by simp [hd], ?_, hran.symm⟩
        intro x hx
        rcases List.mem_append.1 hx with hx | hx
        · exact hok x hx
        · rw [List.mem_singleton.1 hx]
          exact ⟨_, ‹_›⟩

/-! ## Flush rounds as traces -/

/-- A flush round as a trace: the entries its drain applied, in order, the callbacks that ran
after the drain, in the order they ran, and the entries those callbacks queued. -/
structure RoundTrace where
  applied : List AppliedEntry
  callbacks : List Deferred
  requeued : List QueuedUpdate

/-- The entries a round applied. -/
def RoundTrace.entries (rt : RoundTrace) : List QueuedUpdate := rt.applied.map (·.entry)

/-- The entries queued while a round ran: by its update passes, in the order of their entries,
then by its callbacks. -/
def RoundTrace.added (rt : RoundTrace) : List QueuedUpdate :=
  rt.applied.flatMap (·.queued) ++ rt.requeued

/-- `RoundApplies s rt t`: a flush round from `s` to `t`, as `rt` traces it. With the callbacks
deferred before it dropped, the drain applies the entries of `rt`, no more of them than were
queued at its start and `drainLimit` more, and ends at `d` with nothing queued; then the
callbacks deferred in `d`, those of `rt`, run, and queue the entries of `rt`. -/
def RoundApplies (s : Renderer) (rt : RoundTrace) (t : Renderer) : Prop :=
  ∃ d, Applies { s with deferred := [] } rt.applied d ∧
    rt.applied.length ≤ s.effects.queue.length + drainLimit ∧ d.pending = [] ∧
    d.deferred = rt.callbacks ∧
    rt.requeued = rt.callbacks.flatMap
      (fun x => Script.queued d.procs (callbackFrame d x.owner) x.callback) ∧
    CallbacksRun d t

theorem Round.roundApplies {s t : Renderer} (h : Round s t) : ∃ rt, RoundApplies s rt t := by
  obtain ⟨d, ⟨n, hn, hsteps, hempty⟩, hrun⟩ := h
  obtain ⟨as, rfl, has⟩ := hsteps.applies
  exact ⟨⟨as, d.deferred, d.deferred.flatMap
    fun x => Script.queued d.procs (callbackFrame d x.owner) x.callback⟩, d, has, hn, UpdateQueue.toList_eq_nil_of_isEmpty hempty, rfl, rfl,
    callbacksRun_of_runDeferred hrun⟩

namespace RoundApplies

variable {s t : Renderer} {rt : RoundTrace}

theorem fifo (h : RoundApplies s rt t) : s.pending ++ rt.added = rt.entries ++ t.pending := by
  obtain ⟨d, has, -, hempty, hcb, hre, hrun⟩ := h
  -- the drain empties the queue, and the callbacks then queue what the round requeues
  have hd := has.fifo
  rw [hempty, List.append_nil] at hd
  have ht : t.pending = rt.requeued := by
    rw [hrun.pending, hempty, hre, hcb, List.nil_append]
  rw [ht, RoundTrace.added, ← List.append_assoc]
  exact congrArg (· ++ rt.requeued) hd

/-- The callbacks of a round run latest deferred first: those of later entries before those of
earlier ones, and each entry's own callback before the hooks of its update pass. -/
theorem callbacks (h : RoundApplies s rt t) :
    rt.callbacks = rt.applied.reverse.flatMap (·.deferred) := by
  obtain ⟨d, has, -, -, hcb, -, -⟩ := h
  rw [← hcb, has.deferred, List.append_nil]

theorem procs (h : RoundApplies s rt t) : t.procs = s.procs := by
  obtain ⟨d, has, -, -, -, -, hrun⟩ := h
  rw [hrun.procs, has.procs]

theorem stateOf (h : RoundApplies s rt t) {i : InstanceId} (hi : i.raw ≠ 0)
    (hids : ∀ a ∈ rt.applied, a.entry.target.raw ≠ 0) {st : Value} (hs : s.stateOf i = some st) :
    ∃ st', t.stateOf i = some st' ∧
      (rt.applied.filter (·.entry.target == i)).foldlM (fun st a => a.step s.procs st) st =
        .ok st' := by
  obtain ⟨d, has, -, -, -, -, hrun⟩ := h
  rw [hrun.stateOf i]
  exact has.stateOf hi hids hs

end RoundApplies

/-- `Flushes s rounds t`: flush rounds from `s`, each begun with updates queued and traced by
its entry of `rounds`, lead to `t`. -/
inductive Flushes : Renderer → List RoundTrace → Renderer → Prop
  | nil (s : Renderer) : Flushes s [] s
  | cons {s m t : Renderer} {rt : RoundTrace} {rounds : List RoundTrace} :
      s.effects.queue.isEmpty = false → RoundApplies s rt m → Flushes m rounds t →
      Flushes s (rt :: rounds) t

theorem Rounds.flushes {k : Nat} {s t : Renderer} (h : Rounds k s t) :
    ∃ rounds, rounds.length = k ∧ Flushes s rounds t := by
  induction h with
  | zero s => exact ⟨[], rfl, .nil s⟩
  | succ hs hm _ ih =>
    obtain ⟨rt, hrt⟩ := hm.roundApplies
    obtain ⟨rounds, hlen, hfl⟩ := ih
    exact ⟨rt :: rounds, by simp [hlen], .cons hs hrt hfl⟩

namespace Flushes

variable {s t : Renderer} {rounds : List RoundTrace}

/-- First in, first out over a whole flush: the entries queued at its start and those queued
while it runs, in the order they were queued, are the entries applied followed by those still
queued. -/
theorem fifo (h : Flushes s rounds t) :
    s.pending ++ rounds.flatMap RoundTrace.added = rounds.flatMap RoundTrace.entries ++ t.pending := by
  induction h with
  | nil => simp
  | cons _ hrt _ ih =>
    rw [List.flatMap_cons, List.flatMap_cons, ← List.append_assoc, hrt.fifo, List.append_assoc,
      ih, List.append_assoc]

theorem callbacks (h : Flushes s rounds t) :
    ∀ rt ∈ rounds, rt.callbacks = rt.applied.reverse.flatMap (·.deferred) := by
  induction h with
  | nil => simp
  | cons _ hrt _ ih =>
    intro rt' hrt'
    rcases List.mem_cons.1 hrt' with rfl | hmem
    · exact hrt.callbacks
    · exact ih rt' hmem

theorem stateOf (h : Flushes s rounds t) {i : InstanceId} (hi : i.raw ≠ 0)
    (hids : ∀ a ∈ rounds.flatMap (·.applied), a.entry.target.raw ≠ 0) {st : Value}
    (hs : s.stateOf i = some st) :
    ∃ st', t.stateOf i = some st' ∧
      ((rounds.flatMap (·.applied)).filter (·.entry.target == i)).foldlM
        (fun st a => a.step s.procs st) st = .ok st' := by
  induction h generalizing st with
  | nil => exact ⟨st, hs, rfl⟩
  | @cons s m t rt rounds _ hrt _ ih =>
    -- the fold over the first round, then over the rest from where it ended
    have hids₁ : ∀ a ∈ rt.applied, a.entry.target.raw ≠ 0 :=
      fun a ha => hids a (List.mem_append_left _ ha)
    have hids₂ : ∀ a ∈ rounds.flatMap (·.applied), a.entry.target.raw ≠ 0 :=
      fun a ha => hids a (List.mem_append_right _ ha)
    obtain ⟨st₁, hm, hfold₁⟩ := hrt.stateOf hi hids₁ hs
    obtain ⟨st', ht, hfold₂⟩ := ih hids₂ hm
    rw [hrt.procs] at hfold₂
    refine ⟨st', ht, ?_⟩
    rw [List.flatMap_cons, List.filter_append, List.foldlM_append, hfold₁]
    exact hfold₂

end Flushes

/-- A flush that succeeds is a trace of at most its configured number of rounds that leaves
the queue empty. -/
theorem flush_flushes {r t : Renderer} (h : flush.run r = .ok () t) :
    ∃ rounds, rounds.length ≤ r.config.maxFlushRounds ∧ Flushes r rounds t ∧ t.pending = [] := by
  rw [flush_run] at h
  obtain ⟨k, hk, hr, hempty⟩ := (flushRounds_ok_iff _ 0).1 h
  obtain ⟨rounds, rfl, hfl⟩ := hr.flushes
  exact ⟨rounds, hk, hfl, UpdateQueue.toList_eq_nil_of_isEmpty hempty⟩

/-- Flushing applies queued updates in order, with shallow merges. Running a script, the only
way to ask for a state change, changes nothing but the effects: it adds log entries and appends
entries to the queue, each for the frame's owner. A flush that succeeds runs a trace of at most
its configured number of rounds (`Flushes`) in which each entry is applied, or skipped when its
instance is not updatable, before the next is taken, and which ends with nothing queued:
- the entries applied, over all rounds, are those queued at the start followed by those queued
  while it ran, in the order they were queued, those queued by a round's callbacks coming after
  the entries of that round;
- each round's callbacks run latest deferred first, those of later entries before those of
  earlier ones;
- with positive ids, an instance that was there at the start ends with the state its entries'
  steps give, folded from left to right: each applied entry merges into the state of that moment
  the partial state resolved against it and the instance's props, and a skipped one changes
  nothing. -/
theorem flush_applies_in_order {r t : Renderer} (h : flush.run r = .ok () t) :
    (∀ (frame : Frame) (sc : Script) (s : Renderer),
      (RenderM.script frame sc).run s = .ok (Script.outcome s.procs frame sc)
        { s with
          effects := (s.effects.extend (Script.logged s.procs frame sc)
            (Script.queued s.procs frame sc)) } ∧
      ∀ u ∈ Script.queued s.procs frame sc, frame.owner = some u.target) ∧
    ∃ rounds : List RoundTrace, rounds.length ≤ r.config.maxFlushRounds ∧ Flushes r rounds t ∧
      t.pending = [] ∧
      r.pending ++ rounds.flatMap RoundTrace.added = rounds.flatMap RoundTrace.entries ∧
      (∀ rt ∈ rounds, rt.callbacks = rt.applied.reverse.flatMap (·.deferred)) ∧
      ∀ (i : InstanceId) (st : Value), i.raw ≠ 0 →
        (∀ a ∈ rounds.flatMap (·.applied), a.entry.target.raw ≠ 0) → r.stateOf i = some st →
        ∃ st', t.stateOf i = some st' ∧
          ((rounds.flatMap (·.applied)).filter (·.entry.target == i)).foldlM
            (fun st a => a.step r.procs st) st = .ok st' := by
  refine ⟨fun frame sc s => ⟨script_run frame sc s, Script.queued_target s.procs frame sc⟩, ?_⟩
  obtain ⟨rounds, hlen, hfl, hempty⟩ := flush_flushes h
  have hfifo := hfl.fifo
  rw [hempty, List.append_nil] at hfifo
  exact ⟨rounds, hlen, hfl, hempty, hfifo, hfl.callbacks,
    fun i st hi hids hs => hfl.stateOf hi hids hs⟩

/-- Instance 1, mounted in the root of container 0 with state null, and two updates of it
queued: `{"n": 1}`, then `{"m": 2}`. -/
def twoPatches : Renderer :=
  { fibers := [⟨0, 0, .null,
      .mk [0] (.mk [] 1) [] #[.component ⟨1⟩ (.mk [0, 0, 0] (.mk [] 0) [] #[])], {}⟩],
    instances := #[{ id := ⟨1⟩, props := .null, state := .null }],
    registry := [(⟨1⟩, 0)],
    effects := { queue := ⟨[⟨⟨1⟩, .patch (.obj [("n", .int 1)]), none⟩,
      ⟨⟨1⟩, .patch (.obj [("m", .int 2)]), none⟩], []⟩ } }

theorem flush_applies_in_order_twoPatches :
    ∃ t, flush.run twoPatches = .ok () t ∧
    (∀ (frame : Frame) (sc : Script) (s : Renderer),
      (RenderM.script frame sc).run s = .ok (Script.outcome s.procs frame sc)
        { s with
          effects := (s.effects.extend (Script.logged s.procs frame sc)
            (Script.queued s.procs frame sc)) } ∧
      ∀ u ∈ Script.queued s.procs frame sc, frame.owner = some u.target) ∧
    ∃ rounds : List RoundTrace, rounds.length ≤ twoPatches.config.maxFlushRounds ∧
      Flushes twoPatches rounds t ∧ t.pending = [] ∧
      twoPatches.pending ++ rounds.flatMap RoundTrace.added = rounds.flatMap RoundTrace.entries ∧
      (∀ rt ∈ rounds, rt.callbacks = rt.applied.reverse.flatMap (·.deferred)) ∧
      ∀ (i : InstanceId) (st : Value), i.raw ≠ 0 →
        (∀ a ∈ rounds.flatMap (·.applied), a.entry.target.raw ≠ 0) →
        twoPatches.stateOf i = some st →
        ∃ st', t.stateOf i = some st' ∧
          ((rounds.flatMap (·.applied)).filter (·.entry.target == i)).foldlM
            (fun st a => a.step twoPatches.procs st) st = .ok st' := by
  have hok : RenderM.succeeded (flush.run twoPatches) = true := by decide +kernel
  obtain ⟨⟨⟩, h⟩ := RenderM.eq_ok_of_succeeded hok
  exact ⟨_, h, flush_applies_in_order h⟩

/-! ## A mounted instance without a node -/

/-- Instance 1, registered under container 0 and mounted, while the root of container 0 holds
no node of it, and an update of it queued. -/
def strandedInstance : Renderer :=
  { fibers := [⟨0, 0, .null, .mk [0] (.mk [] 0) [] #[], {}⟩],
    instances := #[{ id := ⟨1⟩, props := .null, state := .null }],
    registry := [(⟨1⟩, 0)],
    effects := { queue := ⟨[⟨⟨1⟩, .patch (.obj [("n", .int 1)]), none⟩], []⟩ } }

/-- Registered and mounted is not enough for an update to be applied: an instance whose node is
not in the root of its container does not get the queued partial state merged into its state,
though the flush succeeds. -/
theorem flush_skips_instance_without_node :
    strandedInstance.registry.lookup ⟨1⟩ = some 0 ∧
      (strandedInstance.instance? ⟨1⟩).map (·.mounted) = some true ∧
      ∃ t, flush.run strandedInstance = .ok () t ∧
        t.stateOf ⟨1⟩ ≠ some (mergeState .null (.obj [("n", .int 1)])) := by
  have hok : RenderM.succeeded (flush.run strandedInstance) = true := by decide +kernel
  obtain ⟨⟨⟩, h⟩ := RenderM.eq_ok_of_succeeded hok
  refine ⟨rfl, rfl, _, h, fun heq => ?_⟩
  -- the state is still null, which the merged state is not
  have hnull : ((finalRenderer (flush.run strandedInstance)).stateOf ⟨1⟩).map (· == .null) =
      some true := by
    decide +kernel
  rw [heq] at hnull
  exact absurd hnull (by decide)

end Pass

end Canopy
