import Canopy.Proofs.Render.Bindings
import Canopy.Proofs.Render.Passes

/-!
# Duplicate keys in a loop's projection

A loop's projection gives each item of its collection a key and props, in order, and hands them
to the duplicate-key policy, whose outcome `Canopy.Proofs.Loop.KeyPolicy` describes. The policy
acts only on projected items: a projection whose functions fail, or whose policy refuses, has
changed nothing but the scripts' effects. So a loop update whose projection fails hands back its
node and the document as they were, and a loop mount stops before it mounts an item
(`Pass.project_duplicate_keys`).
-/

namespace Canopy

namespace RenderM

variable {α : Type} {r r' : Renderer}

theorem run_attempt_of_error {x : RenderM α} {e : RenderError} (h : x.run r = .error e r') :
    x.attempt.run r = .ok (.error e) r' := by
  change (tryCatch (Except.ok <$> x) fun e => Pure.pure (Except.error e)) r = .ok (.error e) r'
  simp only [tryCatch, tryCatchThe, MonadExceptOf.tryCatch, EStateM.tryCatch, Functor.map,
    EStateM.map]
  rw [show x r = .error e r' from h]
  rfl

end RenderM

namespace Pass

open RenderM

/-- The items of a loop's collection in a frame, each with its key and props, before duplicate
keys are dealt with; or the error the projection of an item stops with. -/
def projectedItems (procs : Procedures) (frame : Frame) (l : LoopSpec Program) :
    Except RenderError (List Projected) := do
  let items ← (match Script.outcome procs frame l.collection with
    | .ok (.arr xs) => .ok xs
    | .ok v => .error (.notArray v)
    | .error e => .error (.script e) : Except BindingFailure (List Value)).mapError
      (RenderError.binding .loopMap)
  items.zipIdx.mapM (projectItem procs frame l)

/-- Pushing the results of a failing function one by one is mapping it. -/
theorem foldlM_push_eq_mapM {ε α β : Type} (f : α → Except ε β) :
    ∀ (xs : List α) (acc : Array β),
      xs.foldlM (fun out x => do let p ← f x; pure (out.push p)) acc =
        (xs.mapM f).map fun ps => acc ++ ps.toArray
  | [], acc => by simp [pure, Except.pure, Except.map]
  | x :: xs, acc => by
    rw [List.foldlM_cons, List.mapM_cons]
    cases f x with
    | error e => rfl
    | ok p =>
      change List.foldlM _ (acc.push p) xs = _
      rw [foldlM_push_eq_mapM f xs (acc.push p)]
      cases xs.mapM f with
      | error e => rfl
      | ok ps =>
        change Except.ok (acc.push p ++ ps.toArray) = Except.ok (acc ++ (p :: ps).toArray)
        simp

/-- A projection deals with the projected items by the duplicate-key policy. -/
theorem projection_eq (procs : Procedures) (policy : DuplicateKeyPolicy) (frame : Frame)
    (l : LoopSpec Program) :
    projection procs policy frame l = (projectedItems procs frame l).bind
      fun ps => (Projected.dedupe policy ps).mapError .duplicateKey := by
  simp only [projection, projectedItems, foldlM_push_eq_mapM]
  -- a collection that is no array stops both alike
  generalize Script.outcome procs frame l.collection = o
  rcases o with e | v
  · rfl
  cases v with
  | arr xs =>
    change ((xs.zipIdx.mapM (projectItem procs frame l)).map fun ps => #[] ++ ps.toArray).bind
        (fun out => (Projected.dedupe policy out.toList).mapError .duplicateKey) =
      (xs.zipIdx.mapM (projectItem procs frame l)).bind
        fun ps => (Projected.dedupe policy ps).mapError .duplicateKey
    cases xs.zipIdx.mapM (projectItem procs frame l) with
    | error e => rfl
    | ok ps => simp [Except.map, Except.bind]
  | _ => rfl

variable {r r' : Renderer} {env : Env} {l : LoopSpec Program}

/-- With its items projected, a projection gives what the duplicate-key policy makes of them,
and changes the effects only. -/
theorem project_run_of_projectedItems {ps : List Projected}
    (h : projectedItems r.procs (r.frameOf env) l = .ok ps) :
    ∃ fx, (project env l).run r = settle
      ((Projected.dedupe r.config.duplicateKeys ps).mapError .duplicateKey) { r with effects := fx } := by
  obtain ⟨r', hs, hrun⟩ := project_run_scriptedBy r env l
  rw [projection_eq, h] at hrun
  exact ⟨r'.effects, by rw [hrun, ← hs.effects]; rfl⟩

theorem project_error_effects {e : RenderError} (h : (project env l).run r = .error e r') :
    r' = { r with effects := r'.effects } := by
  obtain ⟨r'', hs, hrun⟩ := project_run_scriptedBy r env l
  rw [h] at hrun
  cases hp : projection r.procs r.config.duplicateKeys (r.frameOf env) l <;>
    rw [hp] at hrun <;> cases hrun
  exact hs.effects

theorem mountLoop_of_project_error {e : RenderError} (h : (project env l).run r = .error e r')
    (mountFn : MountFn) (site : List Nat) (parent : NodeId) :
    (mountLoop mountFn site l env parent).run r = .error e r' :=
  run_bind_of_error h

theorem updateLoop_of_project_error {e : RenderError} (h : (project env l).run r = .error e r')
    (sub : Subpasses) {node : Mounted} (k : Nat) {parent : NodeId} {prev : List (LoopItem Mounted)}
    (hslot : node.slot? l.slot = some (.loop parent prev)) :
    (updateLoop sub node k l env).run r = .ok (node, some e) r' := by
  simp only [updateLoop, hslot]
  rw [run_bind_of_ok (run_attempt_of_error h)]
  rfl

/-- Duplicate keys in a loop's projection. With the collection's items projected, refusing them
fails with a key exactly when it is the key of the first item that repeats an earlier key,
there is such an item exactly when two items share a key, and with keys pairwise distinct every
item comes back in order; keeping the last gives back, in collection order, the items at
exactly the positions that no later position shares a key with, one item for each key. A
projection that fails, by a function's failure or by the policy, has changed the effects only:
a loop mount stops with its error before it mounts an item, and a loop update hands back its
node, items included, with the error. -/
theorem project_duplicate_keys (r : Renderer) (env : Env) (l : LoopSpec Program) :
    (∀ ps, projectedItems r.procs (r.frameOf env) l = .ok ps →
      (r.config.duplicateKeys = .reject →
        (∀ k, (∃ r', (project env l).run r = .error (.duplicateKey k) r') ↔
          Projected.FirstRepeat (ps.map (·.key)) k) ∧
        ((∃ k, Projected.FirstRepeat (ps.map (·.key)) k) ↔ ¬ (ps.map (·.key)).Nodup) ∧
        ((ps.map (·.key)).Nodup → ∃ r', (project env l).run r = .ok ps r')) ∧
      (r.config.duplicateKeys = .keepLast →
        ∃ is : List Nat, ∃ r', (project env l).run r = .ok (is.filterMap fun i => ps[i]?) r' ∧
          is.Pairwise (· < ·) ∧ (∀ i, i ∈ is ↔ Projected.IsLast (ps.map (·.key)) i) ∧
          ((is.filterMap fun i => ps[i]?).map (·.key)).Nodup ∧
          ∀ k, k ∈ (is.filterMap fun i => ps[i]?).map (·.key) ↔ k ∈ ps.map (·.key))) ∧
    (∀ e r', (project env l).run r = .error e r' →
      r' = { r with effects := r'.effects } ∧
      (∀ mountFn site parent, (mountLoop mountFn site l env parent).run r = .error e r') ∧
      (∀ sub node k parent prev, node.slot? l.slot = some (.loop parent prev) →
        (updateLoop sub node k l env).run r = .ok (node, some e) r')) := by
  refine ⟨fun ps hps => ⟨fun hreject => ?_, fun hkeep => ?_⟩, fun e r' h =>
    ⟨project_error_effects h, mountLoop_of_project_error h, fun sub node k _ _ hslot =>
      updateLoop_of_project_error h sub k hslot⟩⟩
  · obtain ⟨fx, hrun⟩ := project_run_of_projectedItems hps
    rw [hreject] at hrun
    refine ⟨fun k => ⟨?_, fun hk => ⟨{ r with effects := fx }, ?_⟩⟩,
      Projected.exists_firstRepeat_iff, fun hnd => ⟨{ r with effects := fx }, ?_⟩⟩
    · -- the run can only fail with the policy's refusal
      rintro ⟨r', h⟩
      rw [hrun] at h
      cases hd : Projected.dedupe .reject ps with
      | error k' =>
        rw [hd] at h
        cases h
        exact Projected.dedupe_reject_eq_error_iff.1 hd
      | ok qs =>
        rw [hd] at h
        cases h
    · rw [hrun, Projected.dedupe_reject_eq_error_iff.2 hk]
      rfl
    · rw [hrun, Projected.dedupe_reject_eq_ok_iff.2 ⟨rfl, hnd⟩]
      rfl
  · obtain ⟨fx, hrun⟩ := project_run_of_projectedItems hps
    rw [hkeep] at hrun
    obtain ⟨is, hsorted, his, hd⟩ := Projected.dedupe_keepLast_eq ps
    exact ⟨is, { r with effects := fx }, by rw [hrun, hd]; rfl, hsorted, his, Projected.dedupe_nodup hd,
      Projected.mem_keys_of_dedupe_keepLast hd⟩

/-- A loop over the collection `[1, 2, 1]`, each item its own key. -/
def repeatedLoop : LoopSpec Program :=
  { collection := ⟨.arr [.str "lit", .arr [.int 1, .int 2, .int 1]]⟩, slot := 0,
    key := ⟨.arr [.str "item"]⟩, props := none, shouldUpdate := none, template := default,
    soleChild := false }

/-- Refusing the collection `[1, 2, 1]` fails with the key `1`. -/
theorem project_duplicate_keys_repeated :
    projectedItems ({} : Renderer).procs (({} : Renderer).frameOf { props := .null })
        repeatedLoop = .ok [⟨.int 1, .null⟩, ⟨.int 2, .null⟩, ⟨.int 1, .null⟩] ∧
      ({} : Renderer).config.duplicateKeys = .reject ∧
      ∃ r', (project { props := .null } repeatedLoop).run {} = .error (.duplicateKey (.int 1)) r' := by
  have hps : projectedItems ({} : Renderer).procs (({} : Renderer).frameOf { props := .null })
      repeatedLoop = .ok [⟨.int 1, .null⟩, ⟨.int 2, .null⟩, ⟨.int 1, .null⟩] := by
    with_unfolding_all rfl
  exact ⟨hps, rfl, ((((project_duplicate_keys {} _ _).1 _ hps).1 rfl).1 (.int 1)).2
    ⟨[.int 1, .int 2], [], rfl, by decide, by decide⟩⟩

end Pass

end Canopy
