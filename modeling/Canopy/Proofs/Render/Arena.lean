import Canopy.Proofs.Render.Regrafting
import Canopy.Proofs.Render.Safety

/-!
# Sessions keep the document a forest

A host creates containers and calls the renderer: it renders decoded programs into its
containers, delivers events and flushes. Every call keeps the renderer's arena
(`Renderer.Arena`): the document is a forest, the roots are well formed, and the node of every
root nests in the document. A mount and an update keep it because they graft new nodes only
under older ones (`Pass.mount_nests`, `Pass.updateNode_nests`); an unmount removes nodes and
stops the container listening; the flush updates nodes at paths inside the roots, and a node
regrown at a path leaves its root regrown (`Pass.Regrown.setAt`). Scripts touch neither the
document nor the roots.

So from an empty document, whatever a host does, the parent relation is well founded and every
walk of the document, with any fuel above the arena's size, gives the answer of the unbounded
walk (`arena_forest`); and any sequence of host calls on allocated nodes keeps children and
parents in agreement.

`RenderM.Tends P x Q` is the triple the renderer-level parts are proved with: from a renderer
whose arena holds and that meets `P`, `x` leaves one whose arena holds, whatever its outcome, and
on success what it returns and the renderer meet `Q`. A part of a pass enters it through
`Tends.lift`, from its forest spec and the fact that it keeps the roots.
-/

open Std.Do

namespace Canopy

open Document RenderM

/-! ## Nodes at a path -/

namespace Mounted

variable {n c : Mounted} {s : Nat}

theorem Nested.child (h : n.Nested s) {step : Step} (hc : n.child? step = some c) : c.Nested s := by
  cases step with
  | branch i =>
    simp only [child?] at hc
    split at hc
    · cases hc
      exact (h.of_slot? ‹_›).2 _ (List.mem_singleton_self _)
    · cases hc
  | item i j =>
    simp only [child?] at hc
    split at hc
    · obtain ⟨it, hit, rfl⟩ := Option.map_eq_some_iff.1 hc
      exact (h.of_slot? ‹_›).2 _ (List.mem_map_of_mem (List.mem_of_getElem? hit))
    · cases hc
  | component i =>
    simp only [child?] at hc
    split at hc
    · cases hc
      exact (h.of_slot? ‹_›).2 _ (List.mem_singleton_self _)
    · cases hc

theorem Nested.get {path : List Step} : ∀ {n c : Mounted}, n.Nested s → n.get? path = some c →
    c.Nested s := by
  induction path with
  | nil =>
    intro n c h hc
    exact Option.some.inj hc ▸ h
  | cons step rest ih =>
    intro n c h hc
    obtain ⟨m, hm, hmc⟩ := Option.bind_eq_some_iff.1 hc
    exact ih (h.child hm) hmc

end Mounted

namespace Pass

namespace Regrown

variable {n c c' : Mounted} {s : Nat} {d : Document}

/-- A node one step inside regrown: the slot holding it points where it did, and an item whose
node was regrown keeps its roots under the loop's element or takes new ones, younger than it. -/
theorem setChild (hn : n.Nested s) {step : Step} (hc : n.child? step = some c)
    (h : Regrown c s c' d) : Regrown n s (n.setChild step c') d := by
  cases step with
  | branch i =>
    simp only [Mounted.child?] at hc
    split at hc
    · rename_i dec b m p hslot
      cases hc
      simp only [Mounted.setChild, hslot]
      exact .setSlot hn h.size_le hslot (Nat.lt_of_lt_of_le (hn.of_slot? hslot).1 h.size_le)
        (by simpa [Slot.nodes] using h.nested) (h.ternary_roots dec m p)
    · cases hc
  | item i j =>
    simp only [Mounted.child?] at hc
    split at hc
    · rename_i p items hslot
      obtain ⟨it, hit, rfl⟩ := Option.map_eq_some_iff.1 hc
      obtain ⟨hpts, hnodes⟩ := hn.of_slot? hslot
      have hmodify : items.modify j (fun it => { it with node := c' }) =
          items.set j { it with node := c' } := by
        simp [List.modify_eq_set_getElem?, hit]
      have hnew : ({ it with node := c' } : LoopItem Mounted).RootedUnder p d.nodes.size := by
        intro x hx
        rcases h.roots x hx with hx | hx
        · have hold := hpts.2 it (List.mem_of_getElem? hit) x hx
          exact ⟨hold.1, Nat.lt_of_lt_of_le hold.2 h.size_le⟩
        · exact ⟨Nat.lt_of_lt_of_le hpts.1 hx.1, hx.2⟩
      simp only [Mounted.setChild, hslot, hmodify]
      refine .setSlot hn h.size_le hslot ⟨Nat.lt_of_lt_of_le hpts.1 h.size_le, fun it' hit' => ?_⟩
        (fun m hm => ?_) (by simp [Slot.roots])
      · rcases List.mem_or_eq_of_mem_set hit' with hit' | rfl
        · exact (hpts.2 it' hit').mono h.size_le
        · exact hnew
      · simp only [Slot.nodes, List.mem_map] at hm
        obtain ⟨it', hit', rfl⟩ := hm
        rcases List.mem_or_eq_of_mem_set hit' with hit' | rfl
        · exact (hnodes _ (List.mem_map_of_mem hit')).mono h.size_le
        · exact h.nested
    · cases hc
  | component i =>
    simp only [Mounted.child?] at hc
    split at hc
    · rename_i o m hslot
      cases hc
      simp only [Mounted.setChild, hslot]
      exact .setSlot hn h.size_le hslot trivial (by simpa [Slot.nodes] using h.nested) h.roots
    · cases hc

/-- A node regrown at a path leaves the node it is in regrown. -/
theorem setAt (h : Regrown c s c' d) : ∀ {path : List Step} {n : Mounted}, n.Nested s →
    n.get? path = some c → Regrown n s (n.setAt path c') d := by
  intro path
  induction path with
  | nil =>
    intro n hn hc
    cases hc
    exact h
  | cons step rest ih =>
    intro n hn hc
    obtain ⟨m, hm, hmc⟩ := Option.bind_eq_some_iff.1 hc
    simp only [Mounted.setAt, hm]
    exact setChild hn hm (ih (hn.child hm) hmc)

end Regrown

end Pass

/-! ## The arena -/

@[simp] theorem Document.nodes_removeListener (d : Document) (c : NodeId) (event : String) :
    (d.removeListener c event).nodes = d.nodes := by
  unfold removeListener
  dsimp only
  split <;> rfl

theorem EventTables.detachAll_grown (t : EventTables) {d : Document} (h : d.Forest)
    (c : NodeId) : d.Grown (t.detachAll d c) := by
  unfold EventTables.detachAll
  generalize t.sortedNames = names
  induction names generalizing d with
  | nil => exact .refl h
  | cons name rest ih =>
    exact (Grown.mk (h.removeListener c name) (by simp)).trans (ih (h.removeListener c name))

namespace Renderer

/-- What every call keeps: the document is a forest, the roots are well formed, and the node of
every root nests in the document. -/
structure Arena (r : Renderer) : Prop where
  forest : r.document.Forest
  roots : RootsWellFormed r.fibers
  nested : ∀ f ∈ r.fibers, f.node.Nested r.document.nodes.size

variable {r r' : Renderer}

theorem Arena.of_grown (h : r.Arena) (hg : r.document.Grown r'.document)
    (hf : r'.fibers = r.fibers) : r'.Arena :=
  ⟨hg.forest, hf ▸ h.roots, fun f hf' => (h.nested f (hf ▸ hf')).mono hg.size_le⟩

theorem Arena.congr (h : r.Arena) (hd : r'.document = r.document) (hf : r'.fibers = r.fibers) :
    r'.Arena :=
  h.of_grown (by rw [hd]; exact .refl h.forest) hf

end Renderer

namespace RenderM

variable {α β γ : Type} {P P' : Renderer → Prop} {Q Q' : α → Renderer → Prop}

/-- From a renderer whose arena holds and that meets `P`, `x` leaves a renderer whose arena
holds, whether it succeeds or fails; on success, what it returns and the renderer meet `Q`. -/
def Tends (P : Renderer → Prop) (x : RenderM α) (Q : α → Renderer → Prop) : Prop :=
  ∀ r, r.Arena → P r → match x.run r with
    | .ok a r' => r'.Arena ∧ Q a r'
    | .error _ r' => r'.Arena

namespace Tends

theorem pure {a : α} (h : ∀ r, r.Arena → P r → Q a r) : Tends P (Pure.pure a : RenderM α) Q :=
  fun r ha hp => ⟨ha, h r ha hp⟩

theorem bind {R : β → Renderer → Prop} {x : RenderM α} {f : α → RenderM β}
    (hx : Tends P x Q) (hf : ∀ a, Tends (Q a) (f a) R) : Tends P (x >>= f) R := by
  intro r ha hp
  have hr := hx r ha hp
  rw [EStateM.run_bind]
  cases hrun : x.run r with
  | ok a s =>
    rw [hrun] at hr
    exact hf a s hr.1 hr.2
  | error e s =>
    rw [hrun] at hr
    exact hr

theorem mono {x : RenderM α} (h : Tends P x Q) (hP : ∀ r, P' r → P r)
    (hQ : ∀ a r, Q a r → Q' a r) : Tends P' x Q' := by
  intro r ha hp
  have hr := h r ha (hP r hp)
  cases hrun : x.run r with
  | ok a s =>
    rw [hrun] at hr
    exact ⟨hr.1, hQ a s hr.2⟩
  | error e s =>
    rw [hrun] at hr
    exact hr

/-- What holds from every renderer whose arena holds holds under any precondition. -/
theorem any {x : RenderM α} (h : Tends (fun _ => True) x Q) : Tends P x Q :=
  h.mono (fun _ _ => trivial) fun _ _ h => h

theorem get_bind {f : Renderer → RenderM β} {R : β → Renderer → Prop}
    (h : ∀ r, r.Arena → P r → Tends (fun r' => r' = r) (f r) R) :
    Tends P (MonadState.get >>= f) R :=
  fun r ha hp => h r ha hp r ha rfl

theorem modify_aside {D : Document → Prop} {F : List Fiber → Prop} {f : Renderer → Renderer}
    (hd : ∀ r, (f r).document = r.document) (hfib : ∀ r, (f r).fibers = r.fibers) :
    Tends (fun r => D r.document ∧ F r.fibers) (modify f : RenderM Unit)
      fun _ r => D r.document ∧ F r.fibers := by
  intro r ha h
  show (f r).Arena ∧ D (f r).document ∧ F (f r).fibers
  rw [hd, hfib]
  exact ⟨ha.congr (hd r) (hfib r), h⟩

theorem modify {f : Renderer → Renderer} {Q : Unit → Renderer → Prop}
    (hf : ∀ r, r.Arena → P r → (f r).Arena ∧ Q () (f r)) :
    Tends P (modify f : RenderM Unit) Q :=
  fun r ha hp => hf r ha hp

theorem throw {e : RenderError} : Tends P (MonadExcept.throw e : RenderM α) Q :=
  fun _ ha _ => ha

theorem throw_bind {e : RenderError} {f : α → RenderM β} {R : β → Renderer → Prop} :
    Tends P (MonadExcept.throw e >>= f) R :=
  fun _ ha _ => ha

theorem forIn {xs : List γ} {f : γ → β → RenderM (ForInStep β)} {I : β → Renderer → Prop}
    (hf : ∀ y ∈ xs, ∀ b, Tends (I b) (f y b) fun step => I step.value) :
    ∀ b, Tends (I b) (ForIn.forIn xs b f) I := by
  induction xs with
  | nil => exact fun b => pure fun _ _ h => h
  | cons y ys ih =>
    intro b
    rw [List.forIn_cons]
    refine bind (hf y List.mem_cons_self b) fun step => ?_
    cases step with
    | done c => exact pure fun _ _ h => h
    | yield c => exact ih (fun z hz => hf z (List.mem_cons_of_mem y hz)) c

theorem map {x : RenderM α} (hx : Tends P x Q) (f : α → β) :
    Tends P (f <$> x) fun b r => ∃ a, f a = b ∧ Q a r := by
  intro r ha hp
  have hr := hx r ha hp
  simp only [EStateM.run] at hr ⊢
  show match EStateM.map f x r with
    | .ok b r' => r'.Arena ∧ ∃ a, f a = b ∧ Q a r'
    | .error _ r' => r'.Arena
  unfold EStateM.map
  cases hrun : x r with
  | ok a s =>
    rw [hrun] at hr
    exact ⟨hr.1, a, rfl, hr.2⟩
  | error e s =>
    rw [hrun] at hr
    exact hr

/-- A part of a pass that grows the forest and keeps the roots keeps the arena, and what it
returns meets both its forest spec and its spec over the roots. -/
theorem lift {D : Document → Prop} {E : α → Document → Prop} {R : α → Prop}
    {F : List Fiber → Prop} {x : RenderM α} (hx : Forested D x E)
    (hfib : ∀ fs, ⦃fun r => ⌜r.fibers = fs⌝⦄ x ⦃Pass.Outcome fs R⦄) :
    Tends (fun r => D r.document ∧ F r.fibers) x
      fun a r => E a r.document ∧ F r.fibers ∧ R a := by
  intro r ha hp
  have hd := hx r ha.forest hp.1
  have hf := Pass.outcome_run hfib r
  cases hrun : x.run r with
  | ok a r' =>
    rw [hrun] at hd hf
    exact ⟨ha.of_grown hd.1 hf.2, hd.2, hf.2 ▸ hp.2, hf.1⟩
  | error e r' =>
    rw [hrun] at hd hf
    exact ha.of_grown hd hf.2

theorem keeping {D : Document → Prop} {F : List Fiber → Prop} {x : RenderM α}
    (hd : KeepsDocument x) (hfib : ∀ fs, ⦃fun r => ⌜r.fibers = fs⌝⦄ x ⦃Pass.Keeps fs⦄) :
    Tends (fun r => D r.document ∧ F r.fibers) x fun _ r => D r.document ∧ F r.fibers :=
  (lift (R := fun _ => True) (Forested.of_keepsDocument hd) fun fs =>
    Pass.outcome_of_keeps (hfib fs)).mono (fun _ h => h) fun _ _ h => ⟨h.1, h.2.1⟩

/-- What `x` leaves, whether it succeeds or fails, has an arena. -/
theorem finalRenderer {x : RenderM α} (h : Tends P x Q) {r : Renderer} (ha : r.Arena)
    (hp : P r) : (RenderM.finalRenderer (x.run r)).Arena := by
  have hr := h r ha hp
  cases hrun : x.run r with
  | ok a s =>
    rw [hrun] at hr
    exact hr.1
  | error e s =>
    rw [hrun] at hr
    exact hr

end Tends

end RenderM

/-! ## Each part of a call -/

namespace Pass

open Renderer

variable {P : Renderer → Prop}

theorem script_arena (frame : Frame) (s : Script) :
    Tends P (RenderM.script frame s) fun _ _ => True :=
  (Tends.keeping (D := fun _ => True) (F := fun _ => True) (keepsDocument_script frame s)
    fun fs => script_spec fs frame s).mono (fun _ _ => ⟨trivial, trivial⟩) fun _ _ _ => trivial

theorem runDeferred_arena : Tends P runDeferred fun _ _ => True := by
  unfold runDeferred
  refine .get_bind fun r _ _ => ?_
  refine .bind (.modify (Q := fun _ _ => True) fun r' ha _ => ⟨ha.congr rfl rfl, trivial⟩)
    fun _ => ?_
  refine .bind (Tends.forIn (I := fun _ _ => True) (fun d _ _ => ?_) _) fun _ =>
    .pure fun _ _ _ => trivial
  cases d with
  | lifecycle kind cb owner =>
    refine .get_bind fun s _ _ => .bind (script_arena _ _) fun o => ?_
    cases o with
    | error e => exact .throw_bind
    | ok v => exact .pure fun _ _ _ => trivial
  | settled cb owner =>
    refine .get_bind fun s _ _ => .bind (script_arena _ _) fun o => ?_
    cases o with
    | error e => exact .throw_bind
    | ok v => exact .pure fun _ _ _ => trivial

/-- Mounting into a container of the document, which has no root, grafts the program's nodes
under it. -/
theorem mountRoot_arena (c : NodeId) (root : Nat) {program : Program} (hp : program.WellFormed)
    (props : Value) :
    Tends (fun r => c < r.document.nodes.size ∧ ∀ g ∈ r.fibers, g.container ≠ c)
      (mountRoot c root program props) fun _ _ => True := by
  unfold mountRoot
  refine .bind (Tends.modify_aside (D := fun d => c < d.nodes.size)
    (F := fun fs => ∀ g ∈ fs, g.container ≠ c) (by intro; rfl) (by intro; rfl)) fun _ => ?_
  refine .bind ((Tends.lift (F := fun fs => ∀ g ∈ fs, g.container ≠ c)
    (mount_nests _ [root] program { props } { parent := c } (c + 1) (Nat.lt_succ_self c))
    fun fs => mount_sound _ [root] program _ _ fs hp (Nat.lt_succ_self _)).mono
    (fun _ h => h) fun _ _ h => h) fun node => ?_
  refine .modify fun r ha h => ⟨⟨ha.forest, ha.roots.append h.2.2.1 h.2.1, fun f hf => ?_⟩, trivial⟩
  rcases List.mem_append.1 hf with hf | hf
  · exact ha.nested f hf
  · rw [List.mem_singleton.1 hf]
    exact h.1.2.1

/-- Updating a container's root regrows its node. -/
theorem updateRoot_arena (c : NodeId) (props : Value) :
    Tends P (updateRoot c props) fun _ _ => True := by
  unfold updateRoot
  refine .get_bind fun r ha _ => ?_
  split
  · rename_i f hf
    obtain ⟨hmem, hfc⟩ := mem_of_fiber? hf
    -- from here the document only grows and the roots stay those of `r`
    refine .bind ((Tends.modify_aside (D := fun d => r.document.nodes.size ≤ d.nodes.size)
      (F := fun fs => fs = r.fibers) (by intro; rfl) (by intro; rfl)).mono
      (fun r' (h : r' = r) => by subst h; exact ⟨Nat.le_refl _, rfl⟩) fun _ _ h => h) fun _ => ?_
    refine .bind (Tends.lift (F := fun fs => fs = r.fibers)
      (updateNode_nests _ f.node { props } _ (ha.nested f hmem))
      fun fs => updateNode_updated _ f.node _ fs (ha.roots.nodes f hmem) (Nat.lt_succ_self _))
      fun res => ?_
    obtain ⟨node, err⟩ := res
    refine .bind (.modify (Q := fun _ _ => True) fun r' ha' h => ⟨⟨ha'.forest, ?_, ?_⟩, trivial⟩)
      fun _ => ?_
    · rw [h.2.1]
      exact ha.roots.update hmem hfc (fun g => { g with props, node, events := r'.events })
        h.2.2.1 fun _ => rfl
    · intro g hg
      obtain ⟨g', hg', rfl⟩ := List.mem_map.1 hg
      split
      · exact h.1.nested
      · exact ha'.nested g' hg'
    · split
      · exact .throw
      · exact .pure fun _ _ _ => trivial
  · exact .pure fun _ _ _ => trivial

/-- Unmounting a container's root removes its roots from the container and stops it listening;
what growing keeps of the document stays. -/
theorem unmountRoot_arena {D : Document → Prop} (hD : Upward D) (c : NodeId) :
    Tends (fun r => D r.document) (unmountRoot c)
      fun _ r => D r.document ∧ ∀ g ∈ r.fibers, g.container ≠ c := by
  unfold unmountRoot
  refine .get_bind fun r ha hr => ?_
  split
  · rename_i f hf
    refine .bind (.modify (Q := fun _ r' => D r'.document ∧ ∀ g ∈ r'.fibers, g.container ≠ c)
      fun r' ha' (h : r' = r) => ?_) fun _ => ?_
    · subst h
      refine ⟨⟨ha'.forest, ha'.roots.filter _, fun g hg => ha'.nested g (List.mem_of_mem_filter hg)⟩,
        hr, fun g hg => ?_⟩
      simpa using (List.mem_filter.1 hg).2
    refine .bind (Tends.keeping (D := D) (F := fun fs => ∀ g ∈ fs, g.container ≠ c)
      (keepsDocument_unmount _ _) fun fs => unmount_spec fs _ _) fun _ => ?_
    refine .bind ((Tends.lift (F := fun fs => ∀ g ∈ fs, g.container ≠ c) (removeNodes_forested hD c _)
      fun fs => outcome_of_keeps (removeNodes_spec fs c _)).mono (fun _ h => h)
      fun _ r' h => (⟨h.1, h.2.1⟩ : D r'.document ∧ ∀ g ∈ r'.fibers, g.container ≠ c)) fun _ => ?_
    refine .modify fun r' ha' h => ?_
    have hg := r'.events.detachAll_grown ha'.forest c
    exact ⟨ha'.of_grown hg rfl, hD _ _ h.1 hg, h.2⟩
  · refine .pure fun r' _ (h : r' = r) => ?_
    subst h
    exact ⟨hr, fiber?_eq_none.1 (Option.eq_none_iff_forall_ne_some.2 ‹_›)⟩

theorem script_tends {D : Document → Prop} {F : List Fiber → Prop} (frame : Frame) (s : Script) :
    Tends (fun r => D r.document ∧ F r.fibers) (RenderM.script frame s)
      fun _ r => D r.document ∧ F r.fibers :=
  Tends.keeping (keepsDocument_script frame s) fun fs => script_spec fs frame s

theorem modifyInstance_tends {D : Document → Prop} {F : List Fiber → Prop} (id : InstanceId)
    (f : Instance → Instance) :
    Tends (fun r => D r.document ∧ F r.fibers) (RenderM.modifyInstance id f)
      fun _ r => D r.document ∧ F r.fibers :=
  Tends.modify_aside (fun _ => rfl) fun _ => rfl

theorem defer_tends {D : Document → Prop} {F : List Fiber → Prop} (d : Deferred) :
    Tends (fun r => D r.document ∧ F r.fibers) (RenderM.defer d)
      fun _ r => D r.document ∧ F r.fibers :=
  Tends.modify_aside (fun _ => rfl) fun _ => rfl

/-- Applying a queued update regrows the node of the instance at its path in its root, and so
regrows the root. -/
theorem applyUpdate_arena (u : QueuedUpdate) : Tends P (applyUpdate u) fun _ _ => True := by
  unfold applyUpdate
  refine .get_bind fun r ha _ => ?_
  split
  · rename_i c _
    split
    · rename_i inst _
      split
      · exact .pure fun _ _ _ => trivial
      split
      · rename_i f hf
        obtain ⟨hmem, hfc⟩ := mem_of_fiber? hf
        split
        · rename_i path _
          split
          · rename_i node hnode
            have hn : node.Nested r.document.nodes.size := (ha.nested f hmem).get hnode
            have hwf : node.WellFormed := (ha.roots.nodes f hmem).get hnode
            extract_lets jp
            have hjp : ∀ ps, Tends (fun r' => r.document.nodes.size ≤ r'.document.nodes.size ∧
                r'.fibers = r.fibers) (jp ps) fun _ _ => True := by
              intro ps
              refine .bind (modifyInstance_tends (D := fun d => r.document.nodes.size ≤ d.nodes.size)
                (F := fun fs => fs = r.fibers) _ _) fun _ => ?_
              refine .bind (Tends.modify_aside (D := fun d => r.document.nodes.size ≤ d.nodes.size)
                (F := fun fs => fs = r.fibers) (by intro; rfl) (by intro; rfl)) fun _ => ?_
              refine .bind (Tends.lift (F := fun fs => fs = r.fibers)
                (updateNode_nests _ node { owner := some u.target, props := inst.props } _ hn)
                fun fs => updateNode_updated _ node _ fs hwf (Nat.lt_succ_self _)) fun res => ?_
              obtain ⟨node', err⟩ := res
              refine .bind (.modify (Q := fun _ _ => True) fun r' ha' h => ⟨⟨ha'.forest, ?_, ?_⟩, trivial⟩)
                fun _ => ?_
              · rw [h.2.1]
                exact ha.roots.setAt hmem hfc hnode h.2.2 r'.events
              · intro g hg
                obtain ⟨g', hg', rfl⟩ := List.mem_map.1 hg
                split
                · rename_i hgc
                  rw [h.2.1] at hg'
                  obtain rfl := ha.roots.eq_of_container hmem hg' ((beq_iff_eq.1 hgc).trans hfc.symm)
                  exact (h.1.setAt (ha.nested g' hmem) hnode).nested
                · exact ha'.nested g' hg'
              · split
                · exact .throw
                · split
                  · exact (defer_tends (D := fun _ => True) (F := fun _ => True) _).mono
                      (fun _ _ => ⟨trivial, trivial⟩) fun _ _ _ => trivial
                  · exact .pure fun _ _ _ => trivial
            refine Tends.mono (P := fun r' => r.document.nodes.size ≤ r'.document.nodes.size ∧
              r'.fibers = r.fibers) ?_ (fun r' (h : r' = r) => by subst h; exact ⟨Nat.le_refl _, rfl⟩)
              fun _ _ h => h
            split
            · exact .bind (.pure fun _ _ h => h) hjp
            · refine .bind (script_tends (D := fun d => r.document.nodes.size ≤ d.nodes.size)
                (F := fun fs => fs = r.fibers) _ _) fun o => ?_
              split
              · exact .bind (.pure fun _ _ h => h) hjp
              · exact .throw_bind
          · exact .pure fun _ _ _ => trivial
        · exact .pure fun _ _ _ => trivial
      · exact .pure fun _ _ _ => trivial
    · exact .pure fun _ _ _ => trivial
  · exact .pure fun _ _ _ => trivial

theorem drainFor_arena : ∀ n, Tends (fun _ => True) (drainFor n) fun _ _ => True
  | 0 => by
    rw [drainFor]
    exact .pure fun _ _ _ => trivial
  | n + 1 => by
    rw [drainFor]
    refine .get_bind fun r _ _ => ?_
    split
    · exact .pure fun _ _ _ => trivial
    · refine .bind (.modify (Q := fun _ _ => True) fun r' ha _ => ⟨ha.congr rfl rfl, trivial⟩)
        fun _ => .bind (applyUpdate_arena _) fun _ => drainFor_arena n

theorem drain_arena (rounds : Nat) : Tends (fun _ => True) (drain rounds) fun _ _ => True := by
  unfold drain
  refine .get_bind fun r _ _ => .bind (drainFor_arena _).any fun _ => .get_bind fun r' _ _ => ?_
  split
  · exact .throw
  · exact .pure fun _ _ _ => trivial

theorem flushRounds_arena : ∀ left done,
    Tends (fun _ => True) (flushRounds left done) fun _ _ => True
  | 0, done => by
    rw [flushRounds]
    refine .get_bind fun r _ _ => ?_
    split
    · exact .throw
    · exact .pure fun _ _ _ => trivial
  | left + 1, done => by
    rw [flushRounds]
    refine .get_bind fun r _ _ => ?_
    split
    · exact .pure fun _ _ _ => trivial
    · refine .bind ?_ fun _ => flushRounds_arena left (done + 1)
      unfold flushRound
      exact .bind (.modify (Q := fun _ _ => True) fun r' ha _ => ⟨ha.congr rfl rfl, trivial⟩)
        fun _ => .bind (drain_arena _) fun _ => runDeferred_arena

theorem flush_arena : Tends (fun _ => True) flush fun _ _ => True :=
  .get_bind fun _ _ _ => (flushRounds_arena _ 0).any

theorem clearDeferred_tends {D : Document → Prop} {F : List Fiber → Prop} :
    Tends (fun r => D r.document ∧ F r.fibers)
      (modify fun r : Renderer => { r with deferred := [] } : RenderM Unit)
      fun _ r => D r.document ∧ F r.fibers :=
  Tends.modify_aside (fun _ => rfl) fun _ => rfl

/-- Rendering a well-formed program, or nothing, into a container of the arena keeps the arena. -/
theorem render_arena (c : NodeId) {tree : Option (Nat × Program × Value)}
    (hp : ∀ t ∈ tree, t.2.1.WellFormed) :
    Tends (fun r => c < r.document.nodes.size) (Renderer.render tree c) fun _ _ => True := by
  unfold Renderer.render
  extract_lets jp
  have hjp : ∀ u, Tends (fun _ => True) (jp u) fun _ _ => True := fun _ =>
    .bind runDeferred_arena fun _ => flush_arena
  have hup : Upward fun d => c < d.nodes.size := upward_size_le (c + 1)
  refine .bind ((clearDeferred_tends (D := fun d => c < d.nodes.size) (F := fun _ => True)).mono
    (fun _ h => ⟨h, trivial⟩) fun _ _ h => h.1) fun _ => ?_
  cases tree with
  | none =>
    exact .bind ((unmountRoot_arena hup c).mono (fun _ h => h) fun _ _ _ => trivial)
      fun u => (hjp u).any
  | some t =>
    obtain ⟨root, program, props⟩ := t
    have hmount := mountRoot_arena c root (hp _ rfl) props
    refine .get_bind fun r _ hc => ?_
    split
    · split
      · exact .bind (updateRoot_arena c props) fun u => (hjp u).any
      · refine .bind ((unmountRoot_arena hup c).mono (fun r' (h : r' = r) => h ▸ hc) fun _ _ h => h)
          fun _ => .bind (hmount.mono (fun _ h => h) fun _ _ _ => trivial) fun u => (hjp u).any
    · refine .bind (hmount.mono (fun r' (h : r' = r) => ?_) fun _ _ _ => trivial) fun u => (hjp u).any
      subst h
      exact ⟨hc, fiber?_eq_none.1 ‹_›⟩

/-- Delivering an event runs handlers, which are scripts, and then flushes. -/
theorem dispatch_arena (c target : NodeId) (name : String) (detail : Value) :
    Tends P (Renderer.dispatch c target name detail) fun _ _ => True := by
  unfold Renderer.dispatch
  refine .get_bind fun r _ _ => ?_
  split
  · refine .bind (Tends.forIn (I := fun _ _ => True) (fun reg _ _ => ?_) _).any fun _ =>
      .bind flush_arena fun _ => .pure fun _ _ _ => trivial
    refine .get_bind fun s _ _ => .bind (script_arena _ _) fun o => ?_
    cases o with
    | error e => exact .throw_bind
    | ok v => exact .pure fun _ _ _ => trivial
  · exact .throw

end Pass

namespace Call

/-- The container a call renders into, if it renders. -/
def target? : Call → Option NodeId
  | .render _ c => some c
  | _ => none

/-- A call that renders a decoded program, if any, into a node of the arena keeps the arena. -/
theorem run_arena {call : Call} (h : call.Decoded) :
    Tends (fun r => ∀ c ∈ call.target?, c < r.document.nodes.size) call.run fun _ _ => True := by
  cases call with
  | render tree c =>
    refine (Pass.render_arena c fun t ht => h.wellFormed ?_).mono (fun _ hc => hc c rfl)
      fun _ _ h => h
    rw [Option.mem_def] at ht
    subst ht
    rfl
  | dispatch c target name detail =>
    exact ((Pass.dispatch_arena c target name detail).map _).mono (fun _ _ => trivial)
      fun _ _ _ => trivial
  | flush => exact Pass.flush_arena.any

end Call

namespace Renderer

/-- The states a host reaches from `r₀`: it creates containers, and calls the renderer to render
decoded programs into nodes of the arena, deliver events and flush, each call succeeding or
failing. -/
inductive HostReaches (r₀ : Renderer) : Renderer → Prop
  | start : HostReaches r₀ r₀
  | container {r : Renderer} (tag : String) : HostReaches r₀ r →
      HostReaches r₀ { r with document := (r.document.createContainer tag).2 }
  | call {r : Renderer} {c : Call} : HostReaches r₀ r → c.Decoded →
      (∀ n ∈ c.target?, n < r.document.nodes.size) → HostReaches r₀ (r.after c)

/-- A renderer over an empty document that has mounted nothing. -/
theorem Arena.init (config : Config) (procs : Procedures) : (init config default procs).Arena where
  forest := Document.Forest.empty
  roots := RootsWellFormed.nil
  nested _ hf := absurd hf List.not_mem_nil

theorem Arena.createContainer {r : Renderer} (h : r.Arena) (tag : String) :
    ({ r with document := (r.document.createContainer tag).2 } : Renderer).Arena :=
  h.of_grown ⟨h.forest.createContainer tag, by simp [Document.createContainer, Document.alloc]⟩ rfl

/-- Every state a host reaches from an empty document has an arena. -/
theorem HostReaches.arena {config : Config} {procs : Procedures} {r : Renderer}
    (h : (init config default procs).HostReaches r) : r.Arena := by
  induction h with
  | start => exact Arena.init config procs
  | container tag _ ih => exact ih.createContainer tag
  | call _ hc hn ih => exact (Call.run_arena hc).finalRenderer ih hn

/-- The document stays a consistent forest. Any host calls on nodes the document has keep
children and parents in agreement, each child once among its parent's children. And in every
state a host reaches by creating containers and calling the renderer, the parent relation is
well founded, and every walk of the document (its HTML text, its text content, the search by
tag) gives the same answer with any fuel beyond the arena's size as it gives with its own. -/
theorem arena_forest :
    (∀ calls : List HostCall, HostCall.Allocated default calls → ∀ p c : NodeId,
      (c ∈ (HostCall.applyAll default calls).children p ↔
        (HostCall.applyAll default calls).parent? c = some p) ∧
      (c ∈ (HostCall.applyAll default calls).children p →
        ((HostCall.applyAll default calls).children p).count c = 1)) ∧
    (∀ (config : Config) (procs : Procedures) (r : Renderer),
      (init config default procs).HostReaches r →
      WellFounded (fun p c => r.document.parent? c = some p) ∧
      ∀ fuel n, r.document.nodes.size < fuel →
        r.document.htmlWith fuel n = r.document.toHtml n ∧
        r.document.textWith fuel n = r.document.textContent n ∧
        ∀ tag, r.document.byTagWith tag fuel n = r.document.elementsByTag n tag) := by
  refine ⟨fun calls hcalls p c => ?_, fun config procs r hr => ?_⟩
  · have hl := HostCall.linked_applyAll calls Document.Linked.empty hcalls
    exact ⟨hl.mem_children p c, hl.count_eq_one⟩
  · have hf := hr.arena.forest
    exact ⟨hf.wellFounded_parent, fun fuel n hfuel =>
      ⟨hf.htmlWith_eq_toHtml hfuel, hf.textWith_eq_textContent hfuel,
        fun tag => hf.byTagWith_eq_elementsByTag tag hfuel⟩⟩

/-- Rendering a `div`, decoded from two words, into the first container. -/
def renderDiv : Call :=
  .render (some (0, .mk [.openElement .div, .closeElement] 0, .null)) 0

theorem renderDiv_decoded : renderDiv.Decoded := by
  intro p hp
  simp only [renderDiv, Call.program?, Option.mem_def, Option.some.injEq] at hp
  subst hp
  exact ⟨[.op 2, .op 4], rfl⟩

/-- A host that creates a container and appends an element to it, and a host that creates a
container and renders a `div` into it. -/
theorem arena_forest_sample :
    HostCall.Allocated default [.createContainer "div", .createElement "p", .appendChild 0 1] ∧
    (1 ∈ (HostCall.applyAll default
        [.createContainer "div", .createElement "p", .appendChild 0 1]).children 0 ↔
      (HostCall.applyAll default
        [.createContainer "div", .createElement "p", .appendChild 0 1]).parent? 1 = some 0) ∧
    (init {} default []).HostReaches
      ({ init {} default [] with document := ((default : Document).createContainer "div").2 }.after
        renderDiv) ∧
    WellFounded fun p c =>
      ({ init {} default [] with document := ((default : Document).createContainer "div").2 }.after
        renderDiv).document.parent? c = some p := by
  have halloc : HostCall.Allocated default
      [.createContainer "div", .createElement "p", .appendChild 0 1] := by
    simp [HostCall.Allocated, HostCall.nodes, HostCall.apply, Document.createContainer,
      Document.createElement, Document.alloc, Document.record]
  have hreach : (init {} default []).HostReaches
      ({ init {} default [] with document := ((default : Document).createContainer "div").2 }.after
        renderDiv) :=
    .call (.container "div" .start) renderDiv_decoded fun n hn => by
      simp only [renderDiv, Call.target?, Option.mem_def, Option.some.injEq] at hn
      subst hn
      simp [Document.createContainer, Document.alloc]
  exact ⟨halloc, (arena_forest.1 _ halloc 0 1).1, hreach, (arena_forest.2 {} [] _ hreach).1⟩

end Renderer

end Canopy
