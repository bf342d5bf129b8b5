import Mathlib
import Canopy.Proofs.Render.Runs
import Canopy.Proofs.Render.WellFormed

/-!
# What unmounting releases

Unmounting a node follows its program's plan: each event binding is released, and each ternary,
loop and component unmounts what it holds, a component first being retired (marked unmounted
and taken out of the registry). `Mounted.Registers n name e` says that `n`, or a node it holds,
bound the event `name` on the element `e`; `Mounted.Owns n id` that a component of `n`, or of a
node it holds, is the instance `id`.

With fuel above its program's nesting depth, unmounting a well-formed node releases every
registration it made and retires every instance it owns (`unmount_releases`). Nothing an unmount
does brings a registration or an instance back (`KeepsReleased`), so what one part of the
unmount released stays released while the rest runs.
-/

namespace Canopy

/-- A node one step inside another: the branch of one of its ternaries, an item of one of its
loops, or the node of one of its components. -/
inductive Mounted.Inside : Mounted → Mounted → Prop
  | branch {n : Mounted} {t : TernarySpec Program} {d : Bool} {b : Mounted} {m : Option NodeId}
      {p : NodeId} : .ternary t ∈ n.program.instructions →
      n.slot? t.slot = some (.ternary d b m p) → Mounted.Inside b n
  | item {n : Mounted} {l : LoopSpec Program} {p : NodeId} {items : List (LoopItem Mounted)}
      {it : LoopItem Mounted} : .loop l ∈ n.program.instructions →
      n.slot? l.slot = some (.loop p items) → it ∈ items → Mounted.Inside it.node n
  | component {n : Mounted} {c : ComponentSpec Program} {id : InstanceId} {m : Mounted} :
      .component c ∈ n.program.instructions → n.slot? c.slot = some (.component id m) →
      Mounted.Inside m n

/-- The node, or a node it holds, bound the event `name` on the element `e`. -/
inductive Mounted.Registers : Mounted → String → NodeId → Prop
  | event {n : Mounted} {name : String} {h : Script} {s : Nat} {refresh : Bool} {e : NodeId} :
      .event name h s refresh ∈ n.program.instructions → n.slot? s = some (.event e) →
      Mounted.Registers n name e
  | inside {m n : Mounted} {name : String} {e : NodeId} : Mounted.Inside m n →
      Mounted.Registers m name e → Mounted.Registers n name e

/-- A component of the node, or of a node it holds, is the instance `id`. -/
inductive Mounted.Owns : Mounted → InstanceId → Prop
  | component {n : Mounted} {c : ComponentSpec Program} {id : InstanceId} {m : Mounted} :
      .component c ∈ n.program.instructions → n.slot? c.slot = some (.component id m) →
      Mounted.Owns n id
  | inside {m n : Mounted} {id : InstanceId} : Mounted.Inside m n → Mounted.Owns m id →
      Mounted.Owns n id

namespace Renderer

/-- An instance is retired: marked unmounted, if it exists, and out of the registry. -/
def Retired (r : Renderer) (id : InstanceId) : Prop :=
  (∀ i, r.instance? id = some i → i.mounted = false) ∧ ∀ c, (id, c) ∉ r.registry

/-- Everything of a node is released: none of its registrations is left in the pass's event
tables, and every instance it owns is retired. -/
def Released (r : Renderer) (n : Mounted) : Prop :=
  (∀ name e, n.Registers name e → r.events.lookup name e = none) ∧ ∀ id, n.Owns id → r.Retired id

/-- The plan of the program of `n`, and of every node inside it, is installed: what the mounts
that built them left. -/
def PlannedFor (r : Renderer) (n : Mounted) : Prop :=
  ∀ m, Relation.ReflTransGen Mounted.Inside m n →
    r.planAt? m.site = some (Plan.ofInstructions m.program.instructions)

/-- From `r` to `r'` nothing released comes back: a registration that is gone stays gone and a
retired instance stays retired; the installed plans stay. -/
structure KeepsReleased (r r' : Renderer) : Prop where
  events : ∀ name e, r.events.lookup name e = none → r'.events.lookup name e = none
  retired : ∀ id, r.Retired id → r'.Retired id
  plans : r'.plans = r.plans

end Renderer

/-! ## Event tables -/

namespace EventTables

variable {t : EventTables} {name name' : String} {e e' : NodeId}

theorem lookup_cons_ite {α β : Type} [BEq α] [LawfulBEq α] [DecidableEq α] (a k : α) (b : β) (es : List (α × β)) :
    ((k, b) :: es).lookup a = if a = k then some b else es.lookup a := by
  simp only [List.lookup]
  split <;> simp_all

theorem table_setTable (t : EventTables) (name name' : String)
    (rows : List (NodeId × Registration)) :
    (t.setTable name rows).table name' =
      if name' = name then (t.table name').map fun _ => rows else t.table name' := by
  obtain ⟨tables⟩ := t
  simp only [setTable, table]
  induction tables with
  | nil => simp
  | cons entry tables ih =>
    obtain ⟨n, rs⟩ := entry
    by_cases hn : n = name
    · subst hn
      by_cases hn' : name' = n <;> simp [lookup_cons_ite, hn', ih]
    · by_cases hn' : name' = n
      · subst hn'
        simp [hn]
      · simp [lookup_cons_ite, hn, hn', ih]

theorem lookup_filter_self (rows : List (NodeId × Registration)) :
    (rows.filter (·.1 != e)).lookup e = none := by
  induction rows with
  | nil => rfl
  | cons row rows ih =>
    obtain ⟨x, reg⟩ := row
    by_cases h : x = e
    · simp [h, ih]
    · simp [h, lookup_cons_ite, Ne.symm h, ih]

theorem lookup_filter_of_none {rows : List (NodeId × Registration)} (q : NodeId × Registration → Bool)
    (h : rows.lookup e = none) : (rows.filter q).lookup e = none := by
  induction rows with
  | nil => rfl
  | cons row rows ih =>
    obtain ⟨x, reg⟩ := row
    rw [lookup_cons_ite] at h
    by_cases he : e = x
    · simp [he] at h
    · rw [if_neg he] at h
      by_cases hq : q (x, reg) = true
      · simp [hq, lookup_cons_ite, he, ih h]
      · simp [hq, ih h]

theorem lookup_release_self : (t.release name e).lookup name e = none := by
  unfold release
  split
  · rename_i rows hrows
    simp [lookup, table_setTable, hrows, lookup_filter_self]
  · rename_i hnone
    simp [lookup, hnone]

/-- Releasing a registration brings none back. -/
theorem lookup_release_of_none (h : t.lookup name' e' = none) :
    (t.release name e).lookup name' e' = none := by
  unfold release
  split
  · rename_i rows hrows
    simp only [lookup, table_setTable]
    split
    · rename_i hn
      subst hn
      simp only [lookup, hrows, Option.bind_some] at h
      simp only [hrows, Option.map_some, Option.bind_some]
      exact lookup_filter_of_none _ h
    · exact h
  · exact h

end EventTables

namespace Renderer

namespace KeepsReleased

variable {r r' r'' : Renderer}

@[refl] theorem refl (r : Renderer) : KeepsReleased r r :=
  ⟨fun _ _ h => h, fun _ h => h, rfl⟩

theorem trans (h₁ : KeepsReleased r r') (h₂ : KeepsReleased r' r'') : KeepsReleased r r'' :=
  ⟨fun name e h => h₂.events name e (h₁.events name e h), fun id h => h₂.retired id (h₁.retired id h),
    h₂.plans.trans h₁.plans⟩

end KeepsReleased

namespace PlannedFor

variable {r s : Renderer} {m n : Mounted}

theorem inside (h : r.PlannedFor n) (hin : m.Inside n) : r.PlannedFor m :=
  fun m' hm' => h m' (hm'.tail hin)

theorem of_plans (h : r.PlannedFor n) (e : s.plans = r.plans) : s.PlannedFor n := by
  intro m' hm'
  rw [← h m' hm']
  simp only [planAt?, e]

theorem of_keeps (h : r.PlannedFor n) (hk : KeepsReleased r s) : s.PlannedFor n :=
  h.of_plans hk.plans

end PlannedFor

/-- What is released stays released. -/
theorem Released.mono {r r' : Renderer} {n : Mounted} (h : r.Released n)
    (hk : KeepsReleased r r') : r'.Released n :=
  ⟨fun name e hreg => hk.events name e (h.1 name e hreg), fun id hown => hk.retired id (h.2 id hown)⟩

end Renderer

/-! ## The nodes inside a well-formed node -/

namespace Mounted

/-- A node inside a well-formed node is well formed, and its program nests less deep. -/
theorem Inside.wellFormed {m n : Mounted} (hin : m.Inside n) (hn : n.WellFormed) :
    m.WellFormed ∧ m.program.depth < n.program.depth := by
  cases hin with
  | branch hi hs =>
    obtain ⟨x, hx, d, b, mk, p, hxe, hprog⟩ := hn.holds hi rfl
    rw [hs, Option.some.injEq] at hx
    subst hxe
    cases hx
    refine ⟨hn.nodes_of_slot hs _ (by simp [Slot.nodes]), ?_⟩
    rw [hprog]
    exact Program.depth_lt_of_mem_programs hi (by split <;> simp [Instruction.programs])
  | item hi hs hit =>
    obtain ⟨x, hx, p, items, hxe, -, hprog⟩ := hn.holds hi rfl
    rw [hs, Option.some.injEq] at hx
    subst hxe
    cases hx
    refine ⟨hn.nodes_of_slot hs _ (List.mem_map_of_mem hit), ?_⟩
    rw [hprog _ hit]
    exact Program.depth_lt_of_mem_programs hi (by simp [Instruction.programs])
  | component hi hs =>
    obtain ⟨x, hx, o, c, hxe, hprog⟩ := hn.holds hi rfl
    rw [hs, Option.some.injEq] at hx
    subst hxe
    cases hx
    refine ⟨hn.nodes_of_slot hs _ (by simp [Slot.nodes]), ?_⟩
    rw [hprog]
    exact Program.depth_lt_of_mem_programs hi (by simp [Instruction.programs])

end Mounted

/-! ## Unmounting -/

namespace Renderer

/-- An unmount op of a node has done its work: the registration it releases is gone, and what
the node's ternary, loop or component held is released, the component's instance retired. -/
def Cleared (r : Renderer) (n : Mounted) : UnmountOp → Prop
  | .releaseEvent name s => ∀ e, n.slot? s = some (.event e) → r.events.lookup name e = none
  | .ternary s => ∀ d b m p, n.slot? s = some (.ternary d b m p) → r.Released b
  | .loop s => ∀ p items, n.slot? s = some (.loop p items) → ∀ it ∈ items, r.Released it.node
  | .component s => ∀ id m, n.slot? s = some (.component id m) → r.Retired id ∧ r.Released m

theorem Cleared.mono {r r' : Renderer} {n : Mounted} {op : UnmountOp} (h : r.Cleared n op)
    (hk : KeepsReleased r r') : r'.Cleared n op := by
  cases op with
  | releaseEvent name s => exact fun e hs => hk.events name e (h e hs)
  | ternary s => exact fun d b m p hs => (h d b m p hs).mono hk
  | loop s => exact fun p items hs it hit => (h p items hs it hit).mono hk
  | component s =>
    exact fun id m hs => ⟨hk.retired id (h id m hs).1, (h id m hs).2.mono hk⟩

/-- Once every unmount op of a node has done its work, every node inside it is released. -/
theorem released_of_inside {r : Renderer} {n m : Mounted}
    (hall : ∀ op ∈ (Plan.ofInstructions n.program.instructions).unmount, r.Cleared n op)
    (hin : m.Inside n) : r.Released m := by
  have hplan : ∀ {i : Instruction} {op : UnmountOp}, i ∈ n.program.instructions →
      op ∈ i.unmountOps → r.Cleared n op := fun hi hop =>
    hall _ (List.mem_flatMap.2 ⟨_, hi, hop⟩)
  cases hin with
  | branch hi hs => exact hplan hi (List.mem_singleton_self _) _ _ _ _ hs
  | item hi hs hit => exact hplan hi (List.mem_singleton_self _) _ _ hs _ hit
  | component hi hs => exact (hplan hi (List.mem_singleton_self _) _ _ hs).2

/-- Once every unmount op of a node has done its work, the node is released. -/
theorem released_of_cleared {r : Renderer} {n : Mounted}
    (hall : ∀ op ∈ (Plan.ofInstructions n.program.instructions).unmount, r.Cleared n op) :
    r.Released n := by
  have hplan : ∀ {i : Instruction} {op : UnmountOp}, i ∈ n.program.instructions →
      op ∈ i.unmountOps → r.Cleared n op := fun hi hop =>
    hall _ (List.mem_flatMap.2 ⟨_, hi, hop⟩)
  refine ⟨fun name e hreg => ?_, fun id hown => ?_⟩
  · cases hreg with
    | event hi hs => exact hplan hi (List.mem_singleton_self _) _ hs
    | inside hin hreg => exact (released_of_inside hall hin).1 name e hreg
  · cases hown with
    | component hi hs => exact (hplan hi (List.mem_singleton_self _) _ _ hs).1
    | inside hin hown => exact (released_of_inside hall hin).2 id hown

end Renderer

namespace Pass

open RenderM Renderer

variable {r r' : Renderer}

theorem release_run {name : String} {e : NodeId} {u : Unit} (h : (release name e).run r = .ok u r') :
    KeepsReleased r r' ∧ r'.events.lookup name e = none := by
  cases h
  exact ⟨⟨fun _ _ hl => EventTables.lookup_release_of_none hl, fun _ hid => hid, rfl⟩,
    EventTables.lookup_release_self⟩

/-- Retiring an instance retires it and brings nothing back. -/
theorem retire_run {id : InstanceId} {u : Unit} (h : (retire id).run r = .ok u r') :
    KeepsReleased r r' ∧ r'.Retired id := by
  unfold retire at h
  obtain ⟨u₁, r₁, h₁, h₂⟩ := run_bind_ok h
  cases h₁
  cases h₂
  -- the instance at the retired position is marked unmounted, every other one is kept
  have hinst : ∀ id' i, (r.instances.modify (id.raw - 1)
      (fun i => { i with mounted := false }))[id'.raw - 1]? = some i →
      i.mounted = false ∨ r.instance? id' = some i := by
    intro id' i hi
    rw [Array.getElem?_modify] at hi
    split at hi
    · obtain ⟨i₀, -, rfl⟩ := Option.map_eq_some_iff.1 hi
      exact .inl rfl
    · exact .inr hi
  refine ⟨⟨fun _ _ hl => hl, fun id' hid => ⟨fun i hi => ?_, fun c hc => ?_⟩, rfl⟩, fun i hi => ?_,
    fun c hc => ?_⟩
  · rcases hinst id' i hi with hm | hi'
    · exact hm
    · exact hid.1 i hi'
  · exact hid.2 c (List.mem_filter.1 hc).1
  · change (r.instances.modify (id.raw - 1) (fun i => { i with mounted := false }))[id.raw - 1]? =
      some i at hi
    rw [Array.getElem?_modify, if_pos rfl] at hi
    obtain ⟨i₀, -, rfl⟩ := Option.map_eq_some_iff.1 hi
    rfl
  · simpa using (List.mem_filter.1 hc).2

/-- A loop over nodes, each handed to a part that brings nothing back, brings nothing back. -/
theorem forIn_keepsReleased {sub : Mounted → RenderM Unit}
    (hsub : ∀ m r r' u, (sub m).run r = .ok u r' → KeepsReleased r r') {items : List (LoopItem Mounted)}
    {u : PUnit} (h : (forIn items PUnit.unit fun (it : LoopItem Mounted) _ => do
      sub it.node; pure (ForInStep.yield PUnit.unit)).run r = .ok u r') :
    KeepsReleased r r' := by
  refine run_forIn_inv (fun _ s => KeepsReleased r s) ?_ (KeepsReleased.refl r) h
  intro it _ c s step s' hk hrun
  obtain ⟨v, s₁, h₁, h₂⟩ := run_bind_ok hrun
  obtain ⟨rfl, rfl⟩ := run_pure_ok h₂
  exact hk.trans (hsub _ _ _ _ h₁)

/-- An unmount op brings nothing back when the unmount it hands nested nodes to does not. -/
theorem unmountOp_keeps {sub : Mounted → RenderM Unit}
    (hsub : ∀ m r r' u, (sub m).run r = .ok u r' → KeepsReleased r r') (n : Mounted)
    (op : UnmountOp) {u : Unit} (h : (unmountOp sub n op).run r = .ok u r') : KeepsReleased r r' := by
  cases op with
  | releaseEvent name s =>
    simp only [unmountOp] at h
    split at h
    · exact (release_run h).1
    · obtain ⟨-, rfl⟩ := run_pure_ok h
      exact .refl _
  | ternary s =>
    simp only [unmountOp] at h
    split at h
    · exact hsub _ _ _ _ h
    · obtain ⟨-, rfl⟩ := run_pure_ok h
      exact .refl _
  | loop s =>
    simp only [unmountOp] at h
    split at h
    · obtain ⟨v, r₁, h₁, h₂⟩ := run_bind_ok h
      obtain ⟨-, rfl⟩ := run_pure_ok h₂
      exact forIn_keepsReleased hsub h₁
    · obtain ⟨-, rfl⟩ := run_pure_ok h
      exact .refl _
  | component s =>
    simp only [unmountOp] at h
    split at h
    · obtain ⟨v, r₁, h₁, h₂⟩ := run_bind_ok h
      exact (retire_run h₁).1.trans (hsub _ _ _ _ h₂)
    · obtain ⟨-, rfl⟩ := run_pure_ok h
      exact .refl _

/-- Unmounting brings nothing back: no registration, no mounted instance. -/
theorem unmount_keeps : ∀ (fuel : Nat) (n : Mounted) {r r' : Renderer} {u : Unit},
    (unmount fuel n).run r = .ok u r' → KeepsReleased r r'
  | 0, _, _, _, _, h => by
    obtain ⟨-, rfl⟩ := run_pure_ok h
    exact .refl _
  | fuel + 1, n, r, r', u, h => by
    rw [unmount.eq_2, run_get_bind] at h
    split at h
    · obtain ⟨-, rfl⟩ := run_pure_ok h
      exact .refl _
    obtain ⟨v, r₁, h₁, h₂⟩ := run_bind_ok h
    obtain ⟨-, rfl⟩ := run_pure_ok h₂
    refine run_forIn_inv (fun _ s => KeepsReleased r s) ?_ (.refl r) h₁
    intro op _ c s step s' hk hrun
    obtain ⟨w, s₁, h₃, h₄⟩ := run_bind_ok hrun
    obtain ⟨rfl, rfl⟩ := run_pure_ok h₄
    exact hk.trans (unmountOp_keeps (fun m _ _ _ hm => unmount_keeps fuel m hm) n op h₃)

/-- An unmount op of an instruction of the node does its work, when the unmount it hands nested
nodes to releases them and brings nothing back. -/
theorem unmountOp_cleared {sub : Mounted → RenderM Unit} {n : Mounted}
    (hsub : ∀ m r r' u, m.Inside n → r.PlannedFor m → (sub m).run r = .ok u r' → r'.Released m)
    (hkeep : ∀ m r r' u, (sub m).run r = .ok u r' → KeepsReleased r r') {i : Instruction}
    {op : UnmountOp} (hi : i ∈ n.program.instructions) (hop : op ∈ i.unmountOps) {u : Unit}
    (hplans : r.PlannedFor n) (h : (unmountOp sub n op).run r = .ok u r') : r'.Cleared n op := by
  cases i <;> simp only [Instruction.unmountOps, List.mem_singleton, List.not_mem_nil] at hop <;>
    subst hop <;> simp only [unmountOp] at h
  case ternary t =>
    intro d b m p hs
    rw [hs] at h
    exact hsub _ _ _ _ (.branch hi hs) (hplans.inside (.branch hi hs)) h
  case loop l =>
    intro p items hs it hit
    rw [hs] at h
    obtain ⟨v, r₁, h₁, h₂⟩ := run_bind_ok h
    obtain ⟨-, rfl⟩ := run_pure_ok h₂
    -- each item is released in turn, and stays released while the others are
    have hloop := run_forIn_ok (fun rest _ s => ∃ done, items = done ++ rest ∧
        KeepsReleased r s ∧ ∀ it ∈ done, s.Released it.node) ?_ ?_ ⟨[], rfl, .refl r, by simp⟩ h₁
    · obtain ⟨done, hdone, -, hall⟩ := hloop
      rw [List.append_nil] at hdone
      exact hall it (hdone ▸ hit)
    · intro y ys c s c' s' hinv hrun
      obtain ⟨done, hd, hk, hall⟩ := hinv
      obtain ⟨w, s₁, h₃, h₄⟩ := run_bind_ok hrun
      obtain ⟨-, rfl⟩ := run_pure_ok h₄
      have hy : y.node.Inside n := .item hi hs (by rw [hd]; simp)
      refine ⟨done ++ [y], by simp [hd], hk.trans (hkeep _ _ _ _ h₃), fun it' hit' => ?_⟩
      rcases List.mem_append.1 hit' with h' | h'
      · exact (hall it' h').mono (hkeep _ _ _ _ h₃)
      · rw [List.mem_singleton.1 h']
        exact hsub _ _ _ _ hy ((hplans.inside hy).of_keeps hk) h₃
    · intro y ys c s c' s' _ hrun
      obtain ⟨w, s₁, h₃, h₄⟩ := run_bind_ok hrun
      cases (run_pure_ok h₄).1
  case component c =>
    intro id m hs
    rw [hs] at h
    obtain ⟨v, r₁, h₁, h₂⟩ := run_bind_ok h
    have hretire := retire_run h₁
    exact ⟨(hkeep _ _ _ _ h₂).retired id hretire.2,
      hsub _ _ _ _ (.component hi hs) ((hplans.inside (.component hi hs)).of_keeps hretire.1) h₂⟩
  case event name handler s refresh =>
    intro e hs
    rw [hs] at h
    exact (release_run h).2

/-- With fuel above its program's nesting depth, unmounting a well-formed node whose plans are
installed releases every registration it made and retires every instance it owns. -/
theorem unmount_releases : ∀ (fuel : Nat) {n : Mounted} {r r' : Renderer} {u : Unit},
    n.WellFormed → n.program.depth < fuel → r.PlannedFor n → (unmount fuel n).run r = .ok u r' →
      r'.Released n
  | 0, _, _, _, _, _, hd, _, _ => absurd hd (Nat.not_lt_zero _)
  | fuel + 1, n, r, r', u, hn, hd, hplans, h => by
    rw [unmount.eq_2, run_get_bind] at h
    rw [hplans n .refl] at h
    obtain ⟨v, r₁, h₁, h₂⟩ := run_bind_ok h
    obtain ⟨-, rfl⟩ := run_pure_ok h₂
    -- the nodes inside nest less deep, so the unmount with the fuel left releases them
    have hsub : ∀ m s s' w, m.Inside n → s.PlannedFor m → (unmount fuel m).run s = .ok w s' →
        s'.Released m :=
      fun m s s' w hin hpm hm =>
        have hm' := hin.wellFormed hn
        unmount_releases fuel hm'.1 (by omega) hpm hm
    have hkeep : ∀ m s s' w, (unmount fuel m).run s = .ok w s' → KeepsReleased s s' :=
      fun m _ _ _ hm => unmount_keeps fuel m hm
    -- every op run so far has done its work, and keeps it done
    have hloop := run_forIn_ok (fun rest _ s => ∃ done,
        (Plan.ofInstructions n.program.instructions).unmount = done ++ rest ∧
        KeepsReleased r s ∧ ∀ op ∈ done, s.Cleared n op) ?_ ?_ ⟨[], rfl, .refl r, by simp⟩ h₁
    · obtain ⟨done, hdone, -, hall⟩ := hloop
      rw [List.append_nil] at hdone
      exact released_of_cleared fun op hop => hall op (hdone ▸ hop)
    · intro op ops c s c' s' hinv hrun
      obtain ⟨done, hd, hk, hall⟩ := hinv
      obtain ⟨w, s₁, h₃, h₄⟩ := run_bind_ok hrun
      obtain ⟨-, rfl⟩ := run_pure_ok h₄
      have hop : op ∈ (Plan.ofInstructions n.program.instructions).unmount := by rw [hd]; simp
      obtain ⟨i, hi, hopi⟩ := List.mem_flatMap.1 hop
      have hkop := unmountOp_keeps hkeep n op h₃
      refine ⟨done ++ [op], by simp [hd], hk.trans hkop, fun op' hop' => ?_⟩
      rcases List.mem_append.1 hop' with h' | h'
      · exact (hall op' h').mono hkop
      · rw [List.mem_singleton.1 h']
        exact unmountOp_cleared hsub hkeep hi hopi (hplans.of_keeps hk) h₃
    · intro op ops c s c' s' _ hrun
      obtain ⟨w, s₁, h₃, h₄⟩ := run_bind_ok hrun
      cases (run_pure_ok h₄).1

end Pass

end Canopy
