import Canopy.Proofs.Render.Placing
import Canopy.Proofs.Render.Unmounting

/-!
# A ternary that changes branch keeps its place

A ternary's slot stands for its branch's roots, or for an empty text node marking the place of a
branch without roots; these stand together among the children of the parent the slot records.
When the test's result differs from the stored decision and the renderer re-branches, the update
takes the node after the last of them as the anchor, unmounts the old branch, removes its roots
and mounts the other branch before the anchor. So the new branch's roots, or a new marker, stand
exactly where the old ones stood, between the same children (`updateTernary_rebranch_in_place`).
When the result is the stored one, or the renderer does not re-branch, the live branch is
updated and the ternary itself places or removes nothing.
-/

namespace Canopy

namespace Pass

open Document RenderM Renderer

variable {r r' : Renderer}

/-- A loop that changes the document through one function per element changes it by the fold. -/
theorem run_forIn_doc {γ : Type} {xs : List γ} (g : Document → γ → Document) {u : PUnit}
    (h : (forIn xs PUnit.unit fun x _ => do
      RenderM.doc (g · x); pure (ForInStep.yield PUnit.unit)).run r = .ok u r') :
    r' = { r with document := xs.foldl g r.document } := by
  induction xs generalizing r with
  | nil =>
    obtain ⟨-, rfl⟩ := run_pure_ok h
    rfl
  | cons x xs ih =>
    rw [List.forIn_cons] at h
    obtain ⟨step, r₁, h₁, h₂⟩ := run_bind_ok h
    obtain ⟨v, r₂, h₃, h₄⟩ := run_bind_ok h₁
    obtain ⟨rfl, rfl⟩ := run_pure_ok h₄
    rw [run_doc_ok h₃] at h₂
    exact ih h₂

theorem removeNodes_run {parent : NodeId} {xs : List NodeId} {u : Unit}
    (h : (removeNodes parent xs).run r = .ok u r') :
    r' = { r with document := xs.foldl (fun d x => d.removeChild parent x) r.document } := by
  unfold removeNodes at h
  obtain ⟨v, r₁, h₁, h₂⟩ := run_bind_ok h
  obtain ⟨-, rfl⟩ := run_pure_ok h₂
  exact run_forIn_doc (fun d x => d.removeChild parent x) h₁

/-- Removing a run of children that stand together closes the gap between the children before
and after them, and leaves the removed nodes without a parent. -/
theorem removeNodes_closes_gap {parent : NodeId} {before xs after : List NodeId}
    (hc : r.document.children parent = before ++ xs ++ after)
    (hnd : (r.document.children parent).Nodup)
    (hpar : ∀ x ∈ xs, r.document.parent? x = some parent) {u : Unit}
    (h : (removeNodes parent xs).run r = .ok u r') :
    r'.document.children parent = before ++ after ∧ (∀ x ∈ xs, r'.document.parent? x = none) ∧
      r'.document.nodes.size = r.document.nodes.size := by
  rw [removeNodes_run h]
  obtain ⟨hc', hgone, -, -, hsize⟩ := foldl_removeChild hc hnd hpar
  exact ⟨hc', hgone, hsize⟩

/-- The node after the last of a run of children that stand together is the first child after
the run. -/
theorem nextSibling?_getLast? {d : Document} {parent : NodeId} {before xs after : List NodeId}
    (hc : d.children parent = before ++ xs ++ after) (hnd : (d.children parent).Nodup)
    (hne : xs ≠ []) (hpar : ∀ x ∈ xs, d.parent? x = some parent) :
    xs.getLast?.bind d.nextSibling? = after.head? := by
  obtain ⟨init, last, rfl⟩ := List.eq_nil_or_concat' xs |>.resolve_left hne
  have hc' : d.children parent = (before ++ init) ++ last :: after := by
    rw [hc]
    simp
  rw [List.getLast?_concat, Option.bind_some]
  exact nextSibling?_eq (hpar last (by simp)) hc' hnd

/-- What a successful update of a ternary did: it ran the test, and either updated the live
branch in place, or unmounted the old branch, removed its roots and mounted the other branch
before the node that followed them. -/
theorem updateTernary_ok {sub : Subpasses} {node node' : Mounted} {k : Nat}
    {spec : TernarySpec Program} {env : Env} {d : Bool} {branch : Mounted}
    {marker : Option NodeId} {parent : NodeId}
    (hslot : node.slot? spec.slot = some (.ternary d branch marker parent))
    (h : (updateTernary sub node k spec env).run r = .ok (node', none) r') :
    ∃ decision r₁, (Bind.test env spec.test).run r = .ok (.ok decision) r₁ ∧
      (((decision = d ∨ r₁.config.rebranchTernaries = false) ∧
        ∃ branch', (sub.update branch env).run r₁ = .ok (branch', none) r' ∧
          node' = node.setSlot spec.slot (.ternary d branch' marker parent)) ∨
      (decision ≠ d ∧ r₁.config.rebranchTernaries = true ∧
        ∃ r₂ r₃ branch' marker',
          (sub.unmount branch).run r₁ = .ok () r₂ ∧
          (removeNodes parent (Slot.ternary d branch marker parent).roots).run r₂ = .ok () r₃ ∧
          (mountBranch sub.mount (node.site ++ [k, if decision then 0 else 1])
            (if decision then spec.consequent else spec.alternate) env
            ⟨parent, (Slot.ternary d branch marker parent).roots.getLast?.bind
              r₁.document.nextSibling?⟩).run r₃ = .ok (branch', marker') r' ∧
          node' = node.setSlot spec.slot (.ternary decision branch' marker' parent))) := by
  unfold updateTernary at h
  obtain ⟨x, r₁, h₁, h₂⟩ := run_bind_ok h
  cases x with
  | error f =>
    obtain ⟨hres, -⟩ := run_pure_ok h₂
    simp at hres
  | ok decision =>
    refine ⟨decision, r₁, h₁, ?_⟩
    simp only [hslot] at h₂
    obtain ⟨r₀, r₂, hget, h₃⟩ := run_bind_ok h₂
    cases hget
    split at h₃
    · -- the live branch is updated in place
      rename_i hsame
      obtain ⟨⟨branch', err⟩, r₃, h₄, h₅⟩ := run_bind_ok h₃
      obtain ⟨hres, rfl⟩ := run_pure_ok h₅
      simp only [Prod.mk.injEq] at hres
      obtain ⟨rfl, rfl⟩ := hres
      refine .inl ⟨?_, branch', h₄, rfl⟩
      simpa [Bool.or_eq_true, beq_iff_eq] using hsame
    · -- the other branch is mounted where the old one stood
      rename_i hother
      simp only [Bool.or_eq_true, beq_iff_eq, Bool.not_eq_eq_eq_not, Bool.not_true, not_or] at hother
      obtain ⟨r₀, r₃, hget, h₄⟩ := run_bind_ok h₃
      cases hget
      obtain ⟨u, r₄, h₅, h₆⟩ := run_bind_ok h₄
      obtain ⟨u', r₅, h₇, h₈⟩ := run_bind_ok h₆
      obtain ⟨res, r₆, h₉, h₁₀⟩ := run_bind_ok h₈
      cases res with
      | ok bm =>
        obtain ⟨branch', marker'⟩ := bm
        obtain ⟨hres, rfl⟩ := run_pure_ok h₁₀
        simp only [Prod.mk.injEq, and_true] at hres
        cases u'
        refine .inr ⟨hother.1, by simpa using hother.2, r₄, r₅, branch', marker', h₅, ?_,
          run_attempt_ok h₉, hres⟩
        exact h₇
      | error e =>
        obtain ⟨hres, -⟩ := run_pure_ok h₁₀
        simp at hres

theorem plans_script {frame : Frame} {sc : Script} {o : Except ScriptError Value} {r₁ : Renderer}
    (h : (RenderM.script frame sc).run r = .ok o r₁) : r₁.plans = r.plans := by
  revert h
  simp only [RenderM.script, EStateM.run]
  split <;> intro h <;> cases h <;> rfl

theorem plans_test {env : Env} {sc : Script} {x : Except BindingFailure Bool} {r₁ : Renderer}
    (h : (Bind.test env sc).run r = .ok x r₁) : r₁.plans = r.plans := by
  unfold Bind.test at h
  rw [run_get_bind] at h
  obtain ⟨o, r₀, h₀, h₁⟩ := run_bind_ok h
  obtain ⟨-, rfl⟩ := run_pure_ok h₁
  exact plans_script h₀

/-- A ternary updated by a pass of fuel `fuel + 1`, whose slot's roots stand together among the
children of the parent it records, either updates its live branch in place, touching the
document only through that update, or, when the test's result changed and the renderer
re-branches, unmounts and releases the old branch, detaches its roots and mounts the other
branch with the pass's env so that its roots, or an empty text marker, stand exactly where the
old roots stood. -/
theorem updateTernary_rebranch_in_place {fuel : Nat} {node node' : Mounted} {k : Nat}
    {spec : TernarySpec Program} {env : Env} {d : Bool} {branch : Mounted}
    {marker : Option NodeId} {parent : NodeId} {before after : List NodeId}
    (hwf : node.WellFormed) (hdepth : node.program.depth ≤ fuel)
    (hi : .ternary spec ∈ node.program.instructions)
    (hslot : node.slot? spec.slot = some (.ternary d branch marker parent))
    (hplace : r.document.children parent =
      before ++ (Slot.ternary d branch marker parent).roots ++ after)
    (hne : (Slot.ternary d branch marker parent).roots ≠ [])
    (hnd : (r.document.children parent).Nodup)
    (hlinked : ∀ x ∈ r.document.children parent, r.document.parent? x = some parent)
    (hplans : r.PlannedFor branch)
    (h : (updateTernary ⟨fun s p e t => mount fuel s p e t, fun n e => updateNode fuel n e,
      unmount fuel⟩ node k spec env).run r = .ok (node', none) r') :
    ∃ decision r₁, (Bind.test env spec.test).run r = .ok (.ok decision) r₁ ∧
      r₁.document = r.document ∧
      (((decision = d ∨ r₁.config.rebranchTernaries = false) ∧
        ∃ branch', (updateNode fuel branch env).run r₁ = .ok (branch', none) r' ∧
          node' = node.setSlot spec.slot (.ternary d branch' marker parent)) ∨
      (decision ≠ d ∧ r₁.config.rebranchTernaries = true ∧
        ∃ r₂ r₃ r₄ branch' marker',
          (unmount fuel branch).run r₁ = .ok () r₂ ∧ r₂.Released branch ∧
          (mount fuel (node.site ++ [k, if decision then 0 else 1])
            (if decision then spec.consequent else spec.alternate) env
            ⟨parent, after.head?⟩).run r₃ = .ok branch' r₄ ∧
          node' = node.setSlot spec.slot (.ternary decision branch' marker' parent) ∧
          r'.document.children parent =
            before ++ (Slot.ternary decision branch' marker' parent).roots ++ after ∧
          (Slot.ternary decision branch' marker' parent).roots ≠ [] ∧
          (∀ x ∈ (Slot.ternary decision branch' marker' parent).roots,
            r.document.nodes.size ≤ x) ∧
          (∀ m ∈ marker', branch'.roots = [] ∧
            (r'.document.get? m).map NodeData.kind = some (.text "")) ∧
          ∀ x ∈ (Slot.ternary d branch marker parent).roots,
            r'.document.parent? x = none ∧ x ∉ r'.document.children parent)) := by
  obtain ⟨decision, r₁, h₁, hcase⟩ := updateTernary_ok hslot h
  have hd₁ : r₁.document = r.document := (Bind.keepsDocument_test env spec.test).ok h₁
  refine ⟨decision, r₁, h₁, hd₁, ?_⟩
  rcases hcase with ⟨hsame, branch', hupd, rfl⟩ |
    ⟨hdiff, hre, r₂, r₃, branch', marker', hun, hrm, hmb, rfl⟩
  · exact .inl ⟨hsame, branch', hupd, rfl⟩
  -- the old roots stand together, so the anchor read before removing them is `after.head?`
  have hold : ∀ x ∈ (Slot.ternary d branch marker parent).roots,
      x ∈ r.document.children parent := fun x hx => by
    rw [hplace]
    exact List.mem_append_left _ (List.mem_append_right _ hx)
  have hpar := fun x hx => hlinked x (hold x hx)
  rw [hd₁, nextSibling?_getLast? hplace hnd hne hpar] at hmb
  -- unmounting releases the old branch and keeps the document
  obtain ⟨hbwf, hbdepth⟩ := (Mounted.Inside.branch hi hslot).wellFormed hwf
  have hrel := unmount_releases fuel hbwf (Nat.lt_of_lt_of_le hbdepth hdepth)
    (hplans.of_plans (plans_test h₁)) hun
  have hd₂ : r₂.document = r.document := ((keepsDocument_unmount fuel branch).ok hun).trans hd₁
  -- removing the old roots closes the gap between `before` and `after`
  rw [← hd₂] at hplace hnd hpar
  obtain ⟨hc₃, hgone, hsize₃⟩ := removeNodes_closes_gap hplace hnd hpar hrm
  rw [hd₂] at hplace hnd hsize₃
  have hlt : ∀ x ∈ r.document.children parent, x < r₃.document.nodes.size :=
    fun x hx => hsize₃ ▸ lt_size_of_parent? (hlinked x hx)
  have hP : parent < r₃.document.nodes.size := by
    obtain ⟨x, hx⟩ := List.exists_mem_of_ne_nil _ hne
    exact hsize₃ ▸ Document.lt_size_of_mem_children (hold x hx)
  have ha : ∀ b ∈ after.head?, b < r₃.document.nodes.size := fun b hb => by
    refine hlt b ?_
    rw [hplace]
    exact List.mem_append_right _ (List.mem_of_mem_head? hb)
  -- the other branch is grafted before `after.head?`, so it fills the gap
  have hq : (if decision then spec.consequent else spec.alternate).WellFormed :=
    hwf.program.of_mem_programs hi (by split <;> simp [Instruction.programs])
  obtain ⟨r₄, hmount, hg, hne', hmark⟩ := mountBranch_places (mount_places fuel) hq hP ha hmb decision
  have hnd' : (before ++ (Slot.ternary d branch marker parent).roots ++ after).Nodup := hplace ▸ hnd
  have hc' : r'.document.children parent =
      before ++ (Slot.ternary decision branch' marker' parent).roots ++ after := by
    rw [hg.target, hc₃]
    exact spliceBefore_head? (hnd'.sublist ((List.sublist_append_left _ _).append (.refl _)))
  refine .inr ⟨hdiff, hre, r₂, r₃, r₄, branch', marker', hun, hrel, hmount, rfl, hc', hne',
    fun x hx => hsize₃ ▸ hg.new x hx, hmark, fun x hx => ⟨?_, ?_⟩⟩
  · rw [hg.parent_old x (hlt x (hold x hx))]
    exact hgone x hx
  · -- an old root is in neither `before` nor `after`, and it is older than every new root
    have hxb : x ∉ before := fun hb =>
      (List.nodup_append.1 (List.nodup_append.1 hnd').1).2.2 x hb x hx rfl
    have hxa : x ∉ after := fun ha =>
      (List.nodup_append.1 hnd').2.2 x (List.mem_append_right _ hx) x ha rfl
    have hxn : x ∉ (Slot.ternary decision branch' marker' parent).roots := fun hn =>
      Nat.lt_irrefl _ (Nat.lt_of_lt_of_le (hlt x (hold x hx)) (hg.new x hn))
    rw [hc']
    simp [hxb, hxa, hxn]

end Pass

end Canopy
