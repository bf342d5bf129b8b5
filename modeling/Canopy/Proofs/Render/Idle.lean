import Canopy.Proofs.Render.Synced

/-!
# An update in sync writes nothing

An update pass over a node in sync with its env (`Mounted.Synced`) hands the node back as it
was and leaves the document and the instances alone (`Pass.updateNode_synced_idles`): each
dynamic value finds its slot already holding an equal value and is not written, each ternary's
test keeps its decision, so its branch is updated in place, each loop projects to the keys and
props its items have, so every item is kept and patched in place with nothing mounted, moved or
removed, and each component's instance already has the pass's props. The scripts the pass runs
only add to the log, and the hooks it defers queue nothing.

The runs are followed forwards: `RenderM.Idles r x a` says that from every renderer idle since
`r` (`Renderer.Idle`), `x` gives `a` and leaves the renderer idle since `r`; it is closed under
`bind` and under loops whose steps keep to it, so the proofs follow the pass step by step.
-/

namespace Canopy

namespace Renderer

/-- What a pass that changes nothing on the page leaves of the renderer: what a quiet pass
keeps, with the document and the instances as they were. Only the log, the pass's event tables
and its deferred callbacks may have changed. -/
structure Idle (r r' : Renderer) : Prop where
  keeps : r.Keeps r'
  document : r'.document = r.document
  instances : r'.instances = r.instances

namespace Idle

variable {r s s' : Renderer}

@[refl] theorem refl (r : Renderer) : r.Idle r := ⟨.refl r, rfl, rfl⟩

theorem trans (h₁ : r.Idle s) (h₂ : s.Idle s') : r.Idle s' :=
  ⟨h₁.keeps.trans h₂.keeps, h₂.document.trans h₁.document, h₂.instances.trans h₁.instances⟩

theorem procs (h : r.Idle s) : s.procs = r.procs := h.keeps.procs

theorem config (h : r.Idle s) : s.config = r.config := h.keeps.config

theorem instance? (h : r.Idle s) (id : InstanceId) : s.instance? id = r.instance? id := by
  simp only [Renderer.instance?, h.instances]

theorem frameOf (h : r.Idle s) (env : Env) : s.frameOf env = r.frameOf env := by
  simp only [Renderer.frameOf, h.instance?]

theorem logged (h : r.Idle s) (hl : s.Logged s') : r.Idle s' := by
  obtain ⟨fx, rfl, hq⟩ := hl
  exact h.trans ⟨.of_eq rfl rfl rfl hq rfl, rfl, rfl⟩

/-- Deferring a callback that queues nothing keeps a renderer idle. -/
theorem defer (h : r.Idle s) {d : Deferred} (hd : d.callback.Quiet r.procs) :
    r.Idle { s with deferred := d :: s.deferred } := by
  refine h.trans ⟨⟨rfl, rfl, List.prefix_refl _, rfl, [d], rfl, ?_⟩, rfl, rfl⟩
  intro d' hd'
  rw [List.mem_singleton.1 hd', h.procs]
  exact hd

theorem events (h : r.Idle s) (ev : EventTables) : r.Idle { s with events := ev } :=
  h.trans ⟨.of_eq rfl rfl rfl rfl rfl, rfl, rfl⟩

end Idle

end Renderer

theorem Binding.valueIn_idle {r s : Renderer} (h : r.Idle s) (env : Env) (n : Mounted)
    (b : Binding) : b.valueIn s env n = b.valueIn r env n := by
  cases b <;> simp [Binding.valueIn, h.frameOf, h.procs]

namespace RenderM

variable {α β γ : Type} {r r' : Renderer}

theorem run_attempt_of_ok {x : RenderM α} {a : α} (h : x.run r = .ok a r') :
    x.attempt.run r = .ok (.ok a) r' := by
  change (tryCatch (Except.ok <$> x) fun e => Pure.pure (Except.error e)) r = .ok (.ok a) r'
  simp only [tryCatch, tryCatchThe, MonadExceptOf.tryCatch, EStateM.tryCatch, Functor.map,
    EStateM.map]
  rw [show x r = .ok a r' from h]

/-- From every renderer idle since `r`, `x` gives `a` and leaves the renderer idle since `r`. -/
def Idles (r : Renderer) (x : RenderM α) (a : α) : Prop :=
  ∀ s, r.Idle s → ∃ s', x.run s = .ok a s' ∧ r.Idle s'

namespace Idles

variable {x : RenderM α} {a : α}

theorem pure (a : α) : Idles r (Pure.pure a) a := fun s hs => ⟨s, rfl, hs⟩

theorem pure_of_eq {a b : α} (h : a = b) : Idles r (Pure.pure a) b := h ▸ pure a

theorem bind {f : α → RenderM β} {b : β} (hx : Idles r x a) (hf : Idles r (f a) b) :
    Idles r (x >>= f) b := by
  intro s hs
  obtain ⟨s₁, h₁, hs₁⟩ := hx s hs
  obtain ⟨s₂, h₂, hs₂⟩ := hf s₁ hs₁
  exact ⟨s₂, by rw [run_bind_of_ok h₁]; exact h₂, hs₂⟩

theorem get_bind {f : Renderer → RenderM β} {b : β} (hf : ∀ s, r.Idle s → Idles r (f s) b) :
    Idles r (MonadState.get >>= f) b :=
  fun s hs => hf s hs s hs

theorem modify {f : Renderer → Renderer} (hf : ∀ s, r.Idle s → r.Idle (f s)) :
    Idles r (modify f : RenderM Unit) () :=
  fun s hs => ⟨f s, rfl, hf s hs⟩

theorem attempt (hx : Idles r x a) : Idles r x.attempt (.ok a) := by
  intro s hs
  obtain ⟨s', h, hs'⟩ := hx s hs
  exact ⟨s', run_attempt_of_ok h, hs'⟩

theorem forIn_stay {xs : List γ} {c : β} {f : γ → β → RenderM (ForInStep β)}
    (hf : ∀ y ∈ xs, Idles r (f y c) (.yield c)) : Idles r (forIn xs c f) c := by
  induction xs with
  | nil => exact pure c
  | cons y ys ih =>
    rw [List.forIn_cons]
    exact (hf y (List.mem_cons_self ..)).bind (ih fun z hz => hf z (List.mem_cons_of_mem _ hz))

/-- A loop over `a, a + 1, …, a + n - 1` whose `i`-th step takes the state from `g i` to
`g (i + 1)` ends with `g n`. -/
theorem forIn_range' {f : Nat → β → RenderM (ForInStep β)} :
    ∀ (n a : Nat) (g : Nat → β), (∀ i < n, Idles r (f (a + i) (g i)) (.yield (g (i + 1)))) →
      Idles r (forIn (List.range' a n) (g 0) f) (g n)
  | 0, _, g, _ => pure (g 0)
  | n + 1, a, g, hf => by
    rw [List.range'_succ, List.forIn_cons]
    refine (hf 0 (Nat.succ_pos n)).bind ?_
    refine forIn_range' n (a + 1) (fun i => g (i + 1)) fun i hi => ?_
    have hstep := hf (i + 1) (Nat.succ_lt_succ hi)
    rwa [show a + (i + 1) = a + 1 + i by omega] at hstep

theorem forIn_cons_done {y : γ} {ys : List γ} {c c' : β} {f : γ → β → RenderM (ForInStep β)}
    (hf : Idles r (f y c) (.done c')) : Idles r (forIn (y :: ys) c f) c' := by
  rw [List.forIn_cons]
  exact hf.bind (pure c')

end Idles

end RenderM

/-! ## Nodes -/

/-- Writing back what a slot holds changes nothing. -/
theorem Mounted.setSlot_of_slot? {n : Mounted} {i : Nat} {x : Slot} (h : n.slot? i = some x) :
    n.setSlot i x = n := by
  rw [Mounted.slot?] at h
  have hslots : n.slots.setIfInBounds i x = n.slots := by
    apply Array.ext_getElem?
    intro j
    rw [Array.getElem?_setIfInBounds]
    split
    · subst_vars
      rw [h, if_pos (Array.getElem?_eq_some_iff.1 h).1]
    · rfl
  rw [Mounted.setSlot, hslots, ← Mounted.eq_mk]

/-- A node inside a well-formed node is a node of one of the sub-programs of its instructions. -/
theorem Mounted.Inside.program_mem {m n : Mounted} (hin : m.Inside n) (hn : n.WellFormed) :
    ∃ i ∈ n.program.instructions, m.program ∈ i.programs := by
  cases hin with
  | branch hi hs =>
    obtain ⟨x, hx, d, b, mk, p, hxe, hprog⟩ := hn.holds hi rfl
    rw [hs, Option.some.injEq] at hx
    subst hxe
    cases hx
    exact ⟨_, hi, by rw [hprog]; split <;> simp [Instruction.programs]⟩
  | item hi hs hit =>
    obtain ⟨x, hx, p, items, hxe, -, hprog⟩ := hn.holds hi rfl
    rw [hs, Option.some.injEq] at hx
    subst hxe
    cases hx
    exact ⟨_, hi, by rw [hprog _ hit]; simp [Instruction.programs]⟩
  | component hi hs =>
    obtain ⟨x, hx, o, c, hxe, hprog⟩ := hn.holds hi rfl
    rw [hs, Option.some.injEq] at hx
    subst hxe
    cases hx
    exact ⟨_, hi, by rw [hprog]; simp [Instruction.programs]⟩

namespace Pass

open RenderM

variable {r : Renderer} {env : Env} {n : Mounted} {sub : Subpasses}

/-! ## What a program's functions give -/

theorem resolve_idles {b : Binding} {op : Opcode} {v : Value}
    (hq : ∀ s ∈ b.scripts, s.Quiet r.procs) (hv : b.valueIn r env n = some v) :
    Idles r (resolve b op env n) v := by
  intro s hs
  obtain ⟨s', h, hl⟩ := @resolve_run s env n b op v
    (fun t ht f => by rw [hs.procs]; exact hq t ht f) ((Binding.valueIn_idle hs env n b).trans hv)
  exact ⟨s', h, hs.logged hl⟩

theorem test_idles {t : Script} {d : Bool} (hq : t.Quiet r.procs)
    (ho : Script.outcome r.procs (r.frameOf env) t = .ok (.bool d)) :
    Idles r (Bind.test env t) (.ok d) := by
  intro s hs
  obtain ⟨s', h, hl⟩ := Bind.test_run (r := s) env (s := t) (by rw [hs.procs]; exact hq)
  rw [hs.procs, hs.frameOf, ho] at h
  exact ⟨s', h, hs.logged hl⟩

theorem project_idles {l : LoopSpec Program} {ps : List Projected}
    (hq : ∀ t ∈ l.collection :: l.key :: l.props.toList, t.Quiet r.procs)
    (hp : projection r.procs r.config.duplicateKeys (r.frameOf env) l = .ok ps) :
    Idles r (project env l) ps := by
  intro s hs
  obtain ⟨s', hl, h⟩ := @project_run s env l (fun t ht f => by rw [hs.procs]; exact hq t ht f)
  rw [hs.procs, hs.config, hs.frameOf, hp] at h
  exact ⟨s', h, hs.logged hl⟩

/-! ## Reconciling a loop with its own projection

A loop whose collection projects to the keys and props its items have is reconciled by the
common prefix alone: every item is taken and patched in place, the suffix and the ranges left
are empty, and the items come back as they were. `Tables.patched prev i` are the tables once the
first `i` positions are patched. -/

/-- Marking one more position of a list mapped by position. -/
theorem mapIdx_set_lt {α β : Type} (l : List α) (f g : α → β) {i : Nat} (hi : i < l.length) :
    (l.mapIdx fun j x => if j < i then f x else g x).set i (f l[i]) =
      l.mapIdx fun j x => if j < i + 1 then f x else g x := by
  apply List.ext_getElem?
  intro j
  rw [List.getElem?_set, List.getElem?_mapIdx, List.getElem?_mapIdx]
  by_cases hj : j = i
  · subst hj
    simp [hi]
  · have hlt : j < i ↔ j < i + 1 := by omega
    simp [Ne.symm hj, hlt]

/-- The tables of a reconcile of `prev` with its own projection once its first `i` positions are
patched in place. -/
def Tables.patched (prev : List (LoopItem Mounted)) (i : Nat) : Tables :=
  ⟨(prev.mapIdx fun j it => if j < i then none else some it).toArray,
    (prev.mapIdx fun j it => if j < i then none else some it.projected).toArray,
    (prev.mapIdx fun j it => if j < i then some it else none).toArray⟩

/-- Before any position is patched, the tables are the start of the reconcile. -/
theorem patched_zero (prev : List (LoopItem Mounted)) :
    Tables.patched prev 0 = Tables.start prev (prev.map LoopItem.projected) := by
  simp only [Tables.patched, Tables.start, Nat.not_lt_zero, if_false, List.length_map,
    ← List.toArray_replicate]
  congr 2
  all_goals
    apply List.ext_getElem?
    intro j
    rcases Nat.lt_or_ge j prev.length with hj | hj <;> simp [hj]

/-- Patching position `i` in place takes its previous and projected item and puts the item at
`i` of the next items. -/
theorem patched_succ {prev : List (LoopItem Mounted)} {i : Nat} (hi : i < prev.length) :
    (⟨(Tables.patched prev i).a.setIfInBounds i none,
      (Tables.patched prev i).pending.setIfInBounds i none,
      (Tables.patched prev i).b.setIfInBounds i (some prev[i])⟩ : Tables) =
      Tables.patched prev (i + 1) := by
  simp only [Tables.patched, List.setIfInBounds_toArray]
  rw [mapIdx_set_lt prev (fun _ => none) some hi, mapIdx_set_lt prev (fun _ => none) _ hi,
    mapIdx_set_lt prev some (fun _ => none) hi]

theorem mapM_some {α : Type} : ∀ l : List α, (l.map some).mapM id = some l
  | [] => rfl
  | x :: xs => by simp [mapM_some xs]

theorem keys_projected (prev : List (LoopItem Mounted)) :
    (prev.map LoopItem.projected).map (·.key) = prev.map (·.key) := by
  simp [Function.comp_def, LoopItem.projected]

section Self

variable {l : LoopSpec Program} {prev : List (LoopItem Mounted)}

theorem take_idles {δ : Type} {xs : Array (Option δ)} {i : Nat} {x : δ}
    (h : xs[i]? = some (some x)) : Idles r (take xs i) (x, xs.setIfInBounds i none) := by
  unfold take
  rw [h]
  exact Idles.pure _

theorem patchItem_idles {it : LoopItem Mounted} (hsu : l.shouldUpdate = none)
    (hu : Idles r (sub.update it.node { env with props := it.props }) (it.node, none)) :
    Idles r (patchItem sub l env it it.projected) it := by
  unfold patchItem
  rw [hsu]
  exact (Idles.pure true).bind (hu.bind (Idles.pure it))

theorem patchAt_patched {i : Nat} (hi : i < prev.length) (hsu : l.shouldUpdate = none)
    (hu : Idles r (sub.update prev[i].node { env with props := prev[i].props })
      (prev[i].node, none)) :
    Idles r (patchAt sub l env (Tables.patched prev i) i i) (Tables.patched prev (i + 1)) := by
  have ha : (Tables.patched prev i).a[i]? = some (some prev[i]) := by
    simp [Tables.patched, hi]
  have hp : (Tables.patched prev i).pending[i]? = some (some prev[i].projected) := by
    simp [Tables.patched, hi]
  rw [← patched_succ hi]
  unfold patchAt
  exact (take_idles ha).bind ((take_idles hp).bind ((patchItem_idles hsu hu).bind (Idles.pure _)))


/-- Against its own projection, the common prefix is the whole loop: every item is patched in
place. -/
theorem trimPrefix_patched (hsu : l.shouldUpdate = none)
    (hall : ∀ it ∈ prev,
      Idles r (sub.update it.node { env with props := it.props }) (it.node, none)) :
    Idles r (trimPrefix sub l env (prev.map (·.key)).toArray (prev.map (·.key)).toArray
      prev.length prev.length prev.length (Tables.start prev (prev.map LoopItem.projected)))
      (Tables.patched prev prev.length, prev.length, prev.length) := by
  unfold trimPrefix
  dsimp only
  rw [forIn_range_eq, Nat.sub_zero, ← patched_zero]
  refine (Idles.forIn_range' (g := fun i => (Tables.patched prev i, i, i)) prev.length 0 ?_).bind
    (Idles.pure _)
  intro i hi
  dsimp only
  rw [if_pos (by simp [hi])]
  exact (patchAt_patched hi hsu (hall _ (List.getElem_mem hi))).bind (Idles.pure _)

/-- With both ranges used up, trimming the suffix stops at once. -/
theorem trimSuffix_stop {aKeys bKeys : Array Key} (t : Tables) (i j : Nat) {m : Nat} (hm : 0 < m) :
    Idles r (trimSuffix sub l env aKeys bKeys i j i j m t) (t, i, j) := by
  obtain ⟨m, rfl⟩ := Nat.exists_eq_add_of_lt hm
  unfold trimSuffix
  dsimp only
  rw [forIn_range_eq, Nat.sub_zero, Nat.zero_add, List.range'_succ]
  refine Idles.bind (a := (t, i, j)) (Idles.forIn_cons_done ?_) (Idles.pure _)
  dsimp only
  rw [if_neg (by simp)]
  exact Idles.pure _

theorem insertRange_empty {site : List Nat} {p : NodeId} (t : Tables) (b : Nat) :
    Idles r (insertRange sub site l env p b b t) t := by
  unfold insertRange
  dsimp only
  rw [forIn_range_eq, Nat.sub_self, List.range'_zero, List.forIn_nil]
  exact (Idles.pure t).bind (Idles.pure t)

theorem collect_patched : Idles r (collect (Tables.patched prev prev.length)) prev := by
  have hb : (Tables.patched prev prev.length).b.toList = prev.map some := by
    apply List.ext_getElem?
    intro j
    rcases Nat.lt_or_ge j prev.length with hj | hj <;> simp [Tables.patched, hj]
  unfold collect
  rw [hb, mapM_some]
  exact Idles.pure prev

/-- Reconciling a loop's items with their own projection patches each in place and hands them
back. -/
theorem reconcile_self {site : List Nat} {p : NodeId} (hsu : l.shouldUpdate = none)
    (hne : prev ≠ [])
    (hall : ∀ it ∈ prev,
      Idles r (sub.update it.node { env with props := it.props }) (it.node, none)) :
    Idles r (reconcile sub site l env p prev (prev.map LoopItem.projected)) prev := by
  unfold reconcile
  dsimp only
  rw [keys_projected, List.length_map]
  refine (trimPrefix_patched hsu hall).bind ?_
  refine (trimSuffix_stop _ _ _ (List.length_pos_of_ne_nil hne)).bind ?_
  rw [if_pos (beq_self_eq_true _)]
  exact (insertRange_empty _ _).bind collect_patched

theorem reconcileAll_self {site : List Nat} {p : NodeId} (hsu : l.shouldUpdate = none)
    (hall : ∀ it ∈ prev,
      Idles r (sub.update it.node { env with props := it.props }) (it.node, none)) :
    Idles r (reconcileAll sub site l env p prev (prev.map LoopItem.projected)) prev := by
  cases prev with
  | nil => exact Idles.pure []
  | cons it rest => exact reconcile_self hsu (List.cons_ne_nil _ _) hall

end Self

/-! ## The ops of an update -/

theorem refreshLeaf_idles {value : RenderM Value} {write : NodeId → String → RenderM Unit}
    {i : Nat} {h : NodeId} {v w : Value} (hv : Idles r value w)
    (hslot : n.slot? i = some (.leaf h v)) (hvw : (v == w) = true) :
    Idles r (refreshLeaf n i value write) (n, none) := by
  unfold refreshLeaf
  refine hv.attempt.bind ?_
  dsimp only
  rw [hslot]
  dsimp only
  rw [if_pos hvw]
  exact Idles.pure _

theorem updateTernary_idles {k : Nat} {t : TernarySpec Program} {d : Bool} {b : Mounted}
    {m : Option NodeId} {p : NodeId} (hq : t.test.Quiet r.procs)
    (ho : Script.outcome r.procs (r.frameOf env) t.test = .ok (.bool d))
    (hslot : n.slot? t.slot = some (.ternary d b m p)) (hb : Idles r (sub.update b env) (b, none)) :
    Idles r (updateTernary sub n k t env) (n, none) := by
  unfold updateTernary
  refine (test_idles hq ho).bind ?_
  dsimp only
  rw [hslot]
  dsimp only
  refine Idles.get_bind fun s _ => ?_
  rw [if_pos (by simp)]
  exact hb.bind (Idles.pure_of_eq (by rw [Mounted.setSlot_of_slot? hslot]))

theorem updateLoop_idles {k : Nat} {l : LoopSpec Program} {p : NodeId}
    {items : List (LoopItem Mounted)} (hslot : n.slot? l.slot = some (.loop p items))
    (hsu : l.shouldUpdate = none)
    (hq : ∀ t ∈ l.collection :: l.key :: l.props.toList, t.Quiet r.procs)
    (hproj : projection r.procs r.config.duplicateKeys (r.frameOf env) l =
      .ok (items.map LoopItem.projected))
    (hall : ∀ it ∈ items,
      Idles r (sub.update it.node { env with props := it.props }) (it.node, none)) :
    Idles r (updateLoop sub n k l env) (n, none) := by
  unfold updateLoop
  rw [hslot]
  dsimp only
  refine (project_idles hq hproj).attempt.bind ?_
  refine (reconcileAll_self hsu hall).attempt.bind ?_
  exact Idles.pure_of_eq (by rw [Mounted.setSlot_of_slot? hslot])

theorem updateComponent_idles {i : Nat} {id : InstanceId} {m : Mounted} {inst : Instance}
    (hslot : n.slot? i = some (.component id m)) (hinst : r.instance? id = some inst)
    (hprops : (inst.props == env.props) = true)
    (hm : Idles r (sub.update m { owner := some id, props := inst.props }) (m, none)) :
    Idles r (updateComponent sub n i env) (n, none) := by
  unfold updateComponent
  rw [hslot]
  dsimp only
  refine Idles.get_bind fun s hs => ?_
  rw [hs.instance?, hinst]
  dsimp only
  rw [if_pos hprops]
  exact (Idles.pure inst.props).bind
    (hm.bind (Idles.pure_of_eq (by rw [Mounted.setSlot_of_slot? hslot])))


/-- Each update op of an instruction of a node in sync is idle, given that updating the nodes
inside it, in sync with their own envs, is. -/
theorem updateOp_idles
    (hsub : ∀ m e, m.Inside n → m.Synced r e → Idles r (sub.update m e) (m, none))
    (hq : n.program.Quiet r.procs) (hu : n.program.Ungated) (hs : n.Synced r env)
    {instr : Instruction} (hi : instr ∈ n.program.instructions) {op : UpdateOp}
    (hop : op ∈ instr.updateOps) (k : Nat) : Idles r (updateOp sub n k op env) (n, none) := by
  have hset := hs.settled hi
  have hquiet := hq.passScripts hi
  cases instr with
  | dynamicProperty prop b s | dynamicAttribute name b s | dynamicText b s
  | dynamicTextNode b s =>
    rw [Instruction.updateOps, List.mem_singleton] at hop
    subst hop
    obtain ⟨h, v, w, hslot, hv, hvw⟩ := hset
    dsimp only [updateOp]
    exact refreshLeaf_idles (resolve_idles hquiet hv) hslot hvw
  | ternary t =>
    rw [Instruction.updateOps, List.mem_singleton] at hop
    subst hop
    obtain ⟨d, b, m, p, hslot, ho⟩ := hset
    exact updateTernary_idles (hquiet _ (List.mem_singleton_self _)) ho hslot
      (hsub b env (.branch hi hslot) (hs.branch hi hslot))
  | loop l =>
    rw [Instruction.updateOps, List.mem_singleton] at hop
    subst hop
    obtain ⟨p, items, hslot, hproj⟩ := hset
    -- the projection's scripts are among the loop's
    have hsc : (l.collection :: l.key :: l.props.toList).Sublist
        (l.collection :: l.key :: (l.props.toList ++ l.shouldUpdate.toList)) :=
      ((List.sublist_append_left _ _).cons_cons _).cons_cons _
    exact updateLoop_idles hslot (hu.shouldUpdate hi) (fun t ht => hquiet t (hsc.subset ht)) hproj
      fun it hit => hsub _ _ (.item hi hslot hit) (hs.item hi hslot hit)
  | component c =>
    rw [Instruction.updateOps, List.mem_singleton] at hop
    subst hop
    obtain ⟨id, m, inst, hslot, hinst, hprops⟩ := hset
    exact updateComponent_idles hslot hinst hprops
      (hsub m _ (.component hi hslot) (hs.component hi hslot hinst))
  | didUpdate cb =>
    rw [Instruction.updateOps, List.mem_singleton] at hop
    subst hop
    exact (Idles.modify fun s hs' => hs'.defer (hquiet cb (List.mem_singleton_self _))).bind
      (Idles.pure _)
  | event name h s refresh =>
    cases refresh with
    | false => simp [Instruction.updateOps] at hop
    | true =>
      rw [Instruction.updateOps, if_pos rfl, List.mem_singleton] at hop
      subst hop
      obtain ⟨e, hslot⟩ := hset rfl
      dsimp only [updateOp]
      rw [hslot]
      exact (Idles.modify fun s hs' => hs'.events _).bind (Idles.pure _)
  | _ => simp [Instruction.updateOps] at hop

/-- An update pass over a well-formed node in sync with its env, whose program is quiet and
ungated, hands the node back unchanged and without error, and leaves the renderer idle. -/
theorem updateNode_synced_idles : ∀ (fuel : Nat) {n : Mounted} {env : Env}, n.WellFormed →
    n.program.Quiet r.procs → n.program.Ungated → n.Synced r env →
    Idles r (updateNode fuel n env) (n, none)
  | 0, n, _, _, _, _, _ => Idles.pure (n, none)
  | fuel + 1, n, env, hwf, hq, hu, hs => by
    -- the nodes inside are well formed, quiet and ungated, and updating them is idle by induction
    have hsub : ∀ m e, m.Inside n → m.Synced r e → Idles r (updateNode fuel m e) (m, none) := by
      intro m e hin hm
      obtain ⟨i, hi, hmem⟩ := hin.program_mem hwf
      exact updateNode_synced_idles fuel (hin.wellFormed hwf).1 (hq.of_mem_programs hi hmem)
        (hu.of_mem_programs hi hmem) hm
    rw [updateNode.eq_2]
    refine Idles.get_bind fun s _ => ?_
    split
    · exact Idles.pure _
    refine (Idles.forIn_stay ?_).bind (Idles.pure _)
    rintro ⟨instr, k⟩ hmem
    refine (Idles.forIn_stay ?_).bind (Idles.pure _)
    intro op hop
    have hi : instr ∈ n.program.instructions :=
      List.mem_of_getElem? (List.mk_mem_zipIdx_iff_getElem?.1 hmem)
    exact (updateOp_idles hsub hq hu hs hi hop k).bind (Idles.pure _)

end Pass

end Canopy
