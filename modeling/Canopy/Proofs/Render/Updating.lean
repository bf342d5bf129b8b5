import Mathlib
import Canopy.Proofs.Render.Mounting
import Canopy.Proofs.Render.Reconciled

/-!
# The update pass keeps nodes well formed

An update pass over a well-formed node finds, at each update op, the kind of slot the op's
instruction filled at mount: a value for a dynamic value, a branch for a ternary, items for a
loop, a node for a component, an element for an event binding. So it never reports a broken
invariant, and what it writes into a slot is what the instruction may hold there. The node it
hands back is a well-formed node of the same program, whether the pass got through or stopped
at the failure of a function, a callback or a projection.

The argument is by depth (`updateNode_updated`): an update hands the branches, items and
component nodes inside a node to an update of less depth, which is sound by induction, and the
mount and unmount it hands work to are sound by `mount_sound` and `unmount_spec`.

A queued state update updates a component's node deep inside a root and puts it back at its
path; the node at the end of a path is well formed, and putting back a well-formed node of its
program keeps the root well formed (`Mounted.WellFormed.setAt`).
-/

open Std.Do

set_option mvcgen.warning false

namespace Canopy

namespace Mounted.WellFormed

variable {n : Mounted}

theorem source (h : n.WellFormed) {i : Instruction} (hi : i ∈ n.program.instructions) {s : Nat}
    (hs : s ∈ i.source?) : ∃ e v, n.slot? s = some (.leaf e v) := by
  obtain ⟨pre, suf, he⟩ := List.append_of_mem hi
  obtain ⟨j, hj, hjs⟩ :=
    Layout.exists_of_mem_values_pushAll ((h.program.admissible he).source s hs)
  exact (h.fills j (he ▸ List.mem_append_left _ hj)).leaf hjs

/-- Replacing what a slot holds by what every instruction of that slot may hold in its place,
made of well-formed nodes, keeps a node well formed. -/
theorem replaceSlot (h : n.WellFormed) {s : Nat} {x y : Slot} (hs : n.slot? s = some x)
    (hy : ∀ i ∈ n.program.instructions, i.slot? = some s → i.Holds x → i.Holds y)
    (hnodes : ∀ m ∈ y.nodes, m.WellFormed) : (n.setSlot s y).WellFormed := by
  have hlt : s < n.slots.size := (Array.getElem?_eq_some_iff.1 hs).1
  apply intro
  · exact h.program
  · simpa using h.size
  · intro j hj
    rw [program_setSlot] at hj
    rw [slots_setSlot]
    by_cases hjs : j.slot? = some s
    · -- the instruction of the slot held `x` there
      obtain ⟨x', hx', hholds⟩ := h.fills j hj s hjs
      have hxx : x' = x := Option.some.inj (hx'.symm.trans hs)
      exact Instruction.fills_setIfInBounds_self hjs hlt (hy j hj hjs (hxx ▸ hholds))
    · exact (h.fills j hj).setIfInBounds hjs y
  · rw [slots_setSlot]
    exact Slot.nodes_setIfInBounds h.nodes hnodes s

/-- The node one step inside a well-formed node is well formed. -/
theorem child (h : n.WellFormed) {step : Step} {c : Mounted} (hc : n.child? step = some c) :
    c.WellFormed := by
  cases step with
  | branch s =>
    simp only [child?] at hc
    split at hc
    · cases hc
      exact h.nodes_of_slot ‹_› _ (by simp [Slot.nodes])
    · cases hc
  | item s i =>
    simp only [child?] at hc
    split at hc
    · obtain ⟨it, hit, rfl⟩ := Option.map_eq_some_iff.1 hc
      exact h.nodes_of_slot ‹_› _ (List.mem_map_of_mem (List.mem_of_getElem? hit))
    · cases hc
  | component s =>
    simp only [child?] at hc
    split at hc
    · cases hc
      exact h.nodes_of_slot ‹_› _ (by simp [Slot.nodes])
    · cases hc

/-- The node at the end of a path inside a well-formed node is well formed. -/
theorem get {path : List Step} : ∀ {n c : Mounted}, n.WellFormed → n.get? path = some c →
    c.WellFormed := by
  induction path with
  | nil =>
    intro n c h hc
    exact Option.some.inj hc ▸ h
  | cons step rest ih =>
    intro n c h hc
    obtain ⟨m, hm, hmc⟩ := Option.bind_eq_some_iff.1 hc
    exact ih (h.child hm) hmc

/-- Replacing the node one step inside a well-formed node by a well-formed node of its program
keeps the node well formed: every slot still holds what its instruction may hold. -/
theorem setChild (h : n.WellFormed) {step : Step} {c c' : Mounted} (hc : n.child? step = some c)
    (hc' : c'.WellFormed) (hp : c'.program = c.program) : (n.setChild step c').WellFormed := by
  cases step with
  | branch s =>
    simp only [child?] at hc
    split at hc
    · rename_i d m p hslot
      cases hc
      simp only [Mounted.setChild, hslot]
      refine h.replaceSlot hslot (fun i _ _ hx => ?_) (by simpa [Slot.nodes] using hc')
      cases i <;> simp_all [Instruction.Holds]
    · cases hc
  | item s j =>
    simp only [child?] at hc
    split at hc
    · rename_i p items hslot
      obtain ⟨it, hit, rfl⟩ := Option.map_eq_some_iff.1 hc
      have hj : j < items.length := (List.getElem?_eq_some_iff.1 hit).1
      have hmodify : items.modify j (fun it => { it with node := c' }) =
          items.set j { it with node := c' } := by
        simp [List.modify_eq_set_getElem?, hit]
      have hkeys : (items.set j { it with node := c' }).map (·.key) = items.map (·.key) := by
        have hj' : j < (items.map (·.key)).length := by simpa using hj
        have hkey : (items.map (·.key))[j] = it.key := by
          simp [(List.getElem?_eq_some_iff.1 hit).2]
        rw [List.map_set, ← hkey, List.set_getElem_self]
      simp only [Mounted.setChild, hslot, hmodify]
      refine h.replaceSlot hslot (fun i _ _ hx => ?_) fun m hm => ?_
      · cases i with
        | loop l =>
          obtain ⟨p', items', heq, hnodup, hprog⟩ := hx
          cases heq
          refine ⟨p, _, rfl, hkeys ▸ hnodup, fun it' hit' => ?_⟩
          rcases List.mem_or_eq_of_mem_set hit' with hit' | rfl
          · exact hprog it' hit'
          · exact hp.trans (hprog it (List.mem_of_getElem? hit))
        | _ => simp_all [Instruction.Holds]
      · simp only [Slot.nodes, List.mem_map] at hm
        obtain ⟨it', hit', rfl⟩ := hm
        rcases List.mem_or_eq_of_mem_set hit' with hit' | rfl
        · exact h.nodes_of_slot hslot _ (List.mem_map_of_mem hit')
        · exact hc'
    · cases hc
  | component s =>
    simp only [child?] at hc
    split at hc
    · rename_i o m hslot
      cases hc
      simp only [Mounted.setChild, hslot]
      refine h.replaceSlot hslot (fun i _ _ hx => ?_) (by simpa [Slot.nodes] using hc')
      cases i <;> simp_all [Instruction.Holds]
    · cases hc

end Mounted.WellFormed

@[simp] theorem Mounted.program_setChild (n : Mounted) (step : Step) (c : Mounted) :
    (n.setChild step c).program = n.program := by
  cases step <;> simp only [Mounted.setChild] <;> split <;> rfl

/-- Replacing the node at the end of a path inside a well-formed node by a well-formed node of
its program keeps the node well formed, and of its program. -/
theorem Mounted.WellFormed.setAt {path : List Step} : ∀ {n c c' : Mounted}, n.WellFormed →
    n.get? path = some c → c'.WellFormed → c'.program = c.program →
    (n.setAt path c').WellFormed ∧ (n.setAt path c').program = n.program := by
  induction path with
  | nil =>
    intro n c c' h hc hc' hp
    cases hc
    exact ⟨hc', hp⟩
  | cons step rest ih =>
    intro n c c' h hc hc' hp
    obtain ⟨m, hm, hmc⟩ := Option.bind_eq_some_iff.1 hc
    obtain ⟨hwf, hprog⟩ := ih (h.child hm) hmc hc' hp
    simp only [Mounted.setAt, hm]
    exact ⟨h.setChild hm hwf hprog, Mounted.program_setChild _ _ _⟩

namespace Pass

section Update

variable {sub : Subpasses} {d : Nat} (hsub : Subpasses.Sound sub d) (fs : List Fiber)
  {node : Mounted} (hn : node.WellFormed) (hd : node.program.depth ≤ d)

include hn in
/-- Refreshing the value of a dynamic value's slot writes a value there, or keeps the node when
the value cannot be computed. -/
theorem refreshLeaf_updated {i : Instruction} (hi : i ∈ node.program.instructions) {s : Nat}
    (hs : i.valueSlot? = some s) {value : RenderM Value} {write : NodeId → String → RenderM Unit}
    (hvalue : ⦃fun r => ⌜r.fibers = fs⌝⦄ value ⦃Keeps fs⦄)
    (hwrite : ∀ h t, ⦃fun r => ⌜r.fibers = fs⌝⦄ write h t ⦃Keeps fs⦄) :
    ⦃fun r => ⌜r.fibers = fs⌝⦄ refreshLeaf node s value write ⦃Outcome fs (Updated node)⦄ := by
  obtain ⟨e, v, hslot⟩ := (hn.fills i hi).leaf hs
  have hattempt := attempt_spec fs (outcome_of_keeps hvalue)
  -- the slot holds a value, so each value written there is one the instruction may hold
  have hleaf : ∀ h w, Updated node (node.setSlot s (.leaf h w), none) := fun h w =>
    Updated.setSlot hn hi (Instruction.slot?_of_valueSlot? hs)
      ((Instruction.holds_iff_of_valueSlot? hs _).2 ⟨h, w, rfl⟩) (by simp [Slot.nodes]) (by simp)
  simp only [refreshLeaf, show node.slot? s = some (.leaf e v) from hslot]
  mvcgen [hattempt, hwrite]
  case vc2 => exact ⟨Updated.keep hn (by simpa using ‹_ ∧ _›.1), ‹_ ∧ _›.2⟩
  case vc3 => exact ⟨Updated.keep hn (by simp), ‹_ ∧ _›.2⟩
  case vc4 => exact ‹_ ∧ _›.2
  case vc5 => exact ⟨hleaf _ _, ‹_›⟩

include hsub hn hd in
/-- A ternary updates its branch in place while its test keeps its result, and otherwise mounts
the other branch in its place: either way its slot holds a branch of one of its programs. -/
theorem updateTernary_updated {t : TernarySpec Program}
    (hi : Instruction.ternary t ∈ node.program.instructions) (k : Nat) (env : Env) :
    ⦃fun r => ⌜r.fibers = fs⌝⦄ updateTernary sub node k t env ⦃Outcome fs (Updated node)⦄ := by
  obtain ⟨x, hslot, dec, b, m, p, rfl, hb⟩ := hn.holds hi rfl
  -- both programs are well formed and nest less deeply than the node
  have hq : ∀ c : Bool, (if c then t.consequent else t.alternate).WellFormed ∧
      (if c then t.consequent else t.alternate).depth < d := fun c => by
    have hmem : (if c then t.consequent else t.alternate) ∈ (Instruction.ternary t).programs := by
      cases c <;> simp [Instruction.programs]
    exact ⟨hn.program.of_mem_programs hi hmem,
      lt_of_lt_of_le (Program.depth_lt_of_mem_programs hi hmem) hd⟩
  have hbwf : b.WellFormed := hn.nodes_of_slot hslot b (by simp [Slot.nodes])
  have hupdate := hsub.update b env fs hbwf (hb ▸ (hq dec).2)
  have hunmount := hsub.unmount b fs
  have hbranch := fun c site pos =>
    attempt_spec fs (mountBranch_spec hsub.mount fs site env (hq c).1 (hq c).2 pos)
  -- a well-formed branch of one of the programs is what the slot may hold
  have hset : ∀ c (b' : Mounted) m' p' err, b'.WellFormed →
      b'.program = (if c then t.consequent else t.alternate) →
      (∀ e ∈ err, e.isDefensive = false) →
      Updated node (node.setSlot t.slot (.ternary c b' m' p'), err) :=
    fun c b' m' p' err hwf hprog herr =>
      Updated.setSlot hn hi rfl ⟨c, b', m', p', rfl, hprog⟩ (by simpa [Slot.nodes] using hwf) herr
  simp only [updateTernary, show node.slot? t.slot = some _ from hslot]
  mvcgen [Bind.test, script_spec, hupdate, hunmount, removeNodes_spec, hbranch]
  case vc3 =>
    obtain ⟨⟨hwf, hprog, herr⟩, hfs⟩ := ‹Updated b _ ∧ _›
    exact ⟨hset dec _ m p _ hwf (hprog.trans hb) herr, hfs⟩
  case vc6 =>
    obtain ⟨⟨hwf, hprog⟩, hfs⟩ := ‹(_ ∧ _) ∧ _›
    exact ⟨hset _ _ _ p none hwf hprog (by simp), hfs⟩
  -- a test or mount that fails leaves the node as it was
  case vc1 => exact ⟨Updated.keep hn (by simp), by simp_all⟩
  case vc7 => exact ⟨Updated.keep hn (by simpa using ‹_ ∧ _›.1), ‹_ ∧ _›.2⟩
  all_goals simp_all

include hsub hn hd in
/-- A loop reconciles its items with the projected collection: its slot then holds items of its
template with distinct keys, none at all after a failed reconcile, and the items it held after a
failed projection. -/
theorem updateLoop_updated {l : LoopSpec Program}
    (hi : Instruction.loop l ∈ node.program.instructions) (k : Nat) (env : Env) :
    ⦃fun r => ⌜r.fibers = fs⌝⦄ updateLoop sub node k l env ⦃Outcome fs (Updated node)⦄ := by
  obtain ⟨x, hslot, p, items, rfl, hkeys, hprog⟩ := hn.holds hi rfl
  have hmem : l.template ∈ (Instruction.loop l).programs := List.mem_singleton_self _
  have hT := hn.program.of_mem_programs hi hmem
  have hTd := lt_of_lt_of_le (Program.depth_lt_of_mem_programs hi hmem) hd
  have hitems : ∀ it ∈ items, it.node.WellFormed ∧ it.node.program = l.template := fun it hit =>
    ⟨hn.nodes_of_slot hslot _ (List.mem_map_of_mem hit), hprog it hit⟩
  have hset : ∀ items' err, ItemsFit l.template items' → (∀ e ∈ err, e.isDefensive = false) →
      Updated node (node.setSlot l.slot (.loop p items'), err) := fun items' err hfit herr =>
    Updated.setSlot hn hi rfl ⟨p, items', rfl, hfit.1, fun it hit => (hfit.2 it hit).2⟩
      (by simpa [Slot.nodes] using fun it hit => (hfit.2 it hit).1) herr
  have hproject := attempt_spec fs (project_spec fs env l)
  simp only [updateLoop, show node.slot? l.slot = some _ from hslot]
  mvcgen [hproject]
  case vc2 => exact ⟨Updated.keep hn (by simpa using ‹_ ∧ _›.1), ‹_ ∧ _›.2⟩
  case vc3 =>
    -- the projected keys are distinct, so the reconcile hands back items that fit the loop
    rename_i next _ _ hnext
    have hreconcile := attempt_spec fs
      (reconcileAll_fits hsub fs env hitems hT hTd (node.site ++ [k, 0]) p hkeys hnext.1)
    have hfs := hnext.2
    mvcgen [hreconcile]
    case vc2 => exact ⟨hset _ none ‹_ ∧ _›.1 (by simp), ‹_ ∧ _›.2⟩
    -- a failed reconcile leaves the loop without items
    case vc3 => exact ⟨hset [] _ (ItemsFit.nil _) (by simpa using ‹_ ∧ _›.1), ‹_ ∧ _›.2⟩

include hsub hn hd in
/-- A component's node is updated with the props of the pass, and its slot holds it after. -/
theorem updateComponent_updated {c : ComponentSpec Program}
    (hi : Instruction.component c ∈ node.program.instructions) (env : Env) :
    ⦃fun r => ⌜r.fibers = fs⌝⦄ updateComponent sub node c.slot env ⦃Outcome fs (Updated node)⦄ := by
  obtain ⟨x, hslot, id, m, rfl, hprog⟩ := hn.holds hi rfl
  have hmem : c.body ∈ (Instruction.component c).programs := List.mem_singleton_self _
  have hupdate := fun env => hsub.update m env fs (hn.nodes_of_slot hslot m (by simp [Slot.nodes]))
    (hprog ▸ lt_of_lt_of_le (Program.depth_lt_of_mem_programs hi hmem) hd)
  have hset : ∀ res, Updated m res →
      Updated node (node.setSlot c.slot (.component id res.1), res.2) := fun res hres =>
    Updated.setSlot hn hi rfl ⟨id, res.1, rfl, hres.2.1.trans hprog⟩
      (by simpa [Slot.nodes] using hres.1) hres.2.2
  simp only [updateComponent, show node.slot? c.slot = some _ from hslot]
  mvcgen [hupdate, RenderM.modifyInstance]
  all_goals exact ⟨hset _ ‹_ ∧ _›.1, ‹_ ∧ _›.2⟩

include hsub hn hd in
/-- Each update op of an instruction of a well-formed node finds its slot as the mount filled it,
and hands back a well-formed node of the same program. -/
theorem updateOp_updated {instr : Instruction} (hi : instr ∈ node.program.instructions)
    {op : UpdateOp} (hop : op ∈ instr.updateOps) (k : Nat) (env : Env) :
    ⦃fun r => ⌜r.fibers = fs⌝⦄ updateOp sub node k op env ⦃Outcome fs (Updated node)⦄ := by
  -- a dynamic value reads only slots that hold values, and writes only into the document
  have hresolve := fun b code (hb : ∀ s ∈ b.sibling?, s ∈ instr.source?) =>
    resolve_spec fs b code env node fun s hs => hn.source hi (hb s hs)
  have hdoc := fun (f : Document → Document) => show ⦃fun r => ⌜r.fibers = fs⌝⦄ RenderM.doc f
    ⦃Keeps fs⦄ by mvcgen [RenderM.doc]
  cases instr with
  | dynamicProperty prop b s =>
    rw [Instruction.updateOps, List.mem_singleton] at hop
    subst hop
    dsimp only [updateOp]
    exact refreshLeaf_updated fs hn hi rfl (hresolve b _ fun _ h => h)
      fun h t => writeProperty_spec fs h prop t
  | dynamicAttribute name b s =>
    rw [Instruction.updateOps, List.mem_singleton] at hop
    subst hop
    dsimp only [updateOp]
    exact refreshLeaf_updated fs hn hi rfl (hresolve b _ fun _ h => h) fun h t => hdoc _
  | dynamicText b s =>
    rw [Instruction.updateOps, List.mem_singleton] at hop
    subst hop
    dsimp only [updateOp]
    exact refreshLeaf_updated fs hn hi rfl (hresolve b _ fun _ h => h) fun h t => hdoc _
  | dynamicTextNode b s =>
    rw [Instruction.updateOps, List.mem_singleton] at hop
    subst hop
    dsimp only [updateOp]
    exact refreshLeaf_updated fs hn hi rfl (hresolve b _ fun _ h => h) fun h t => hdoc _
  | ternary t =>
    rw [Instruction.updateOps, List.mem_singleton] at hop
    subst hop
    exact updateTernary_updated hsub fs hn hd hi k env
  | loop l =>
    rw [Instruction.updateOps, List.mem_singleton] at hop
    subst hop
    exact updateLoop_updated hsub fs hn hd hi k env
  | component c =>
    rw [Instruction.updateOps, List.mem_singleton] at hop
    subst hop
    exact updateComponent_updated hsub fs hn hd hi env
  | didUpdate cb =>
    rw [Instruction.updateOps, List.mem_singleton] at hop
    subst hop
    mvcgen [updateOp, RenderM.defer]
    exact ⟨Updated.keep hn (by simp), ‹_›⟩
  | event name handler s refresh =>
    -- only a refreshing binding has an update op, and its slot holds an element
    cases refresh with
    | false => simp [Instruction.updateOps] at hop
    | true =>
      rw [Instruction.updateOps, if_pos rfl, List.mem_singleton] at hop
      subst hop
      obtain ⟨x, hslot, e, rfl⟩ := hn.holds hi rfl
      simp only [updateOp, show node.slot? s = some _ from hslot]
      mvcgen
      exact ⟨Updated.keep hn (by simp), ‹_›⟩
  | _ => simp [Instruction.updateOps] at hop

end Update

theorem Updated.of_program {m n : Mounted} {res : Mounted × Option RenderError} (h : Updated m res)
    (hp : m.program = n.program) : Updated n res :=
  ⟨h.1, h.2.1.trans hp, h.2.2⟩

/-- An update of a well-formed node nesting less deeply than its fuel finds every slot as the
mount filled it: it hands back a well-formed node of the same program, and the error it stops at,
if any, is no broken invariant. -/
theorem updateNode_updated : ∀ (fuel : Nat) (n : Mounted) (env : Env) (fs : List Fiber),
    n.WellFormed → n.program.depth < fuel →
    ⦃fun r => ⌜r.fibers = fs⌝⦄ updateNode fuel n env ⦃Outcome fs (Updated n)⦄
  | 0, _, _, _, _, hd => absurd hd (Nat.not_lt_zero _)
  | fuel + 1, n, env, fs, hn, hd => by
    -- the passes it hands nested work to are sound below its fuel, by induction
    have hsub : Subpasses.Sound ⟨fun s p e t => mount fuel s p e t, fun n e => updateNode fuel n e,
        unmount fuel⟩ fuel :=
      ⟨mount_sound fuel, updateNode_updated fuel, fun n fs => unmount_spec fs fuel n⟩
    rw [updateNode.eq_2]
    mvcgen invariants
    · post⟨fun q r => ⌜q.2.2.WellFormed ∧ q.2.2.program = n.program ∧
          (∀ res ∈ q.2.1, Updated n res) ∧ r.fibers = fs⌝,
        fun e r => ⌜e.isDefensive = false ∧ r.fibers = fs⌝⟩
    · post⟨fun q r => ⌜q.2.2.WellFormed ∧ q.2.2.program = n.program ∧
          (∀ res ∈ q.2.1, Updated n res) ∧ r.fibers = fs⌝,
        fun e r => ⌜e.isDefensive = false ∧ r.fibers = fs⌝⟩
    case vc2.step =>
      rename_i _ ic _ hsplit _ _ _ _ op _ hops b _ hinv
      have hi : ic.1 ∈ n.program.instructions :=
        List.fst_mem_of_mem_zipIdx (show ic ∈ n.program.instructions.zipIdx by simp [hsplit])
      have hop : op ∈ ic.1.updateOps := by simp [hops]
      obtain ⟨hwf, hprog, -, hfs⟩ := hinv
      have hstep := updateOp_updated hsub fs hwf (hprog ▸ Nat.le_of_lt_succ hd) (hprog ▸ hi) hop
        ic.2 env
      mvcgen [hstep]
      case vc2 =>
        -- the op stopped at an error: the pass hands back the node as the op left it
        obtain ⟨hup, hfs'⟩ := ‹Updated b.2 _ ∧ _›
        have hup' := hup.of_program hprog
        refine ⟨hup'.1, hup'.2.1, ?_, hfs'⟩
        simp only [Option.mem_def, Option.some.injEq, forall_eq']
        exact ⟨hup'.1, hup'.2.1, ‹_ = some _› ▸ hup'.2.2⟩
      case vc3 =>
        obtain ⟨hup, hfs'⟩ := ‹Updated b.2 _ ∧ _›
        exact ⟨hup.1, hup.2.1.trans hprog, by simp, hfs'⟩
    all_goals simp_all +zetaDelta [Updated]

end Pass

end Canopy
