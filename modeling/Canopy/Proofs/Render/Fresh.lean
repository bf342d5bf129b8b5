import Canopy.Proofs.Render.Synced
import Canopy.Proofs.Render.Flat

/-!
# A mount leaves its node in sync

A mount of a well-formed program whose scripts queue nothing builds a node in sync with the env
it was mounted with (`Pass.mount_synced`): each dynamic value is written to its slot as its
binding gives it, each ternary holds the decision its test gave and a branch mounted in sync,
each loop the items of its projection, each mounted in sync under its own props, and each
component a new instance with the env's props and a node mounted in sync under it. The pass
keeps the renderer (`Renderer.Keeps`): it only adds instances, and the did-mount hooks it
defers queue nothing.

The mount reads its instructions from the left. What holds after a prefix `pre`
(`Pass.MountsInSync`) is that each instruction of `pre` is in sync (`Instruction.InSync`) and
reads only slots laid down by `pre`; a later instruction writes a slot not laid down yet, so it
leaves the earlier ones in sync.
-/

namespace Canopy

/-- What a slot holds in sync with an env: a branch in sync under the env, loop items each in sync
under their own props, the node of a component in sync under its instance and the instance's
props. -/
def Slot.Synced (r : Renderer) (env : Env) : Slot → Prop
  | .ternary _ b _ _ => b.Synced r env
  | .loop _ items => ∀ it ∈ items, it.node.Synced r { env with props := it.props }
  | .component id m => ∃ inst, r.instance? id = some inst ∧
      m.Synced r { owner := some id, props := inst.props }
  | _ => True

/-- An instruction of a node is in sync with an env: its slot shows what the env computes, and
what the slot holds is in sync. -/
def Instruction.InSync (r : Renderer) (env : Env) (n : Mounted) (i : Instruction) : Prop :=
  i.Settled r env n ∧ ∀ s ∈ i.slot?, ∀ x, n.slot? s = some x → x.Synced r env

/-- The slots whose contents an instruction's sync depends on: its own, and the one its value is
read from. -/
def Instruction.reads (i : Instruction) : List Nat := i.slot?.toList ++ i.source?.toList

/-- A node whose instructions are all in sync is in sync. -/
theorem Mounted.synced_of_inSync {r : Renderer} {env : Env} {n : Mounted}
    (h : ∀ i ∈ n.program.instructions, i.InSync r env n) : n.Synced r env := by
  refine .mk (fun i hi => (h i hi).1) ?_ ?_ ?_
  · intro t d b m p hi hs
    exact (h _ hi).2 t.slot rfl _ hs
  · intro l p items hi hs it hit
    exact (h _ hi).2 l.slot rfl _ hs it hit
  · intro c id m inst hi hs hinst
    obtain ⟨inst', hinst', hm⟩ := (h _ hi).2 c.slot rfl _ hs
    rw [hinst] at hinst'
    cases hinst'
    exact hm

section Transport

variable {r r' : Renderer} {env : Env} {n n' : Mounted}

theorem Slot.Synced.keeps {x : Slot} (hx : x.Synced r env) (h : r.Keeps r')
    (hown : ∀ id ∈ env.owner, (r.instance? id).isSome) : x.Synced r' env := by
  cases x with
  | ternary d b m p => exact Mounted.Synced.keeps hx h hown
  | loop p items => exact fun it hit => (hx it hit).keeps h hown
  | component id m =>
    obtain ⟨inst, hinst, hm⟩ := hx
    refine ⟨inst, h.instance? hinst, hm.keeps h ?_⟩
    intro id' hid'
    simp only [Option.mem_def, Option.some.injEq] at hid'
    rw [← hid', hinst]
    rfl
  | _ => trivial

theorem Instruction.InSync.keeps {i : Instruction} (hi : i.InSync r env n) (h : r.Keeps r')
    (hown : ∀ id ∈ env.owner, (r.instance? id).isSome) : i.InSync r' env n :=
  ⟨hi.1.keeps h hown, fun s hs x hx => (hi.2 s hs x hx).keeps h hown⟩

theorem Binding.valueIn_of_sibling {b : Binding}
    (hn : ∀ t ∈ b.sibling?, n'.slot? t = n.slot? t) : b.valueIn r env n' = b.valueIn r env n := by
  cases b with
  | sibling t => simp only [Binding.valueIn, hn t rfl]
  | _ => rfl

/-- What an instruction's slot shows depends on the node only through the slots it reads. -/
theorem Instruction.Settled.of_reads {i : Instruction} (hi : i.Settled r env n)
    (hn : ∀ t ∈ i.reads, n'.slot? t = n.slot? t) : i.Settled r env n' := by
  have hslot : ∀ s ∈ i.slot?, n'.slot? s = n.slot? s := fun s hs =>
    hn s (List.mem_append_left _ (Option.mem_toList.2 hs))
  have hsource : ∀ t ∈ i.source?, n'.slot? t = n.slot? t := fun t ht =>
    hn t (List.mem_append_right _ (Option.mem_toList.2 ht))
  cases i <;> simp only [Instruction.Settled] at hi ⊢
  case dynamicProperty | dynamicAttribute | dynamicText | dynamicTextNode =>
    obtain ⟨h, v, w, hs, hv, hvw⟩ := hi
    exact ⟨h, v, w, (hslot _ rfl).trans hs, (Binding.valueIn_of_sibling hsource).trans hv, hvw⟩
  case ternary t =>
    obtain ⟨d, b, m, p, hs, ho⟩ := hi
    exact ⟨d, b, m, p, (hslot _ rfl).trans hs, ho⟩
  case loop l =>
    obtain ⟨p, items, hs, hp⟩ := hi
    exact ⟨p, items, (hslot _ rfl).trans hs, hp⟩
  case component c =>
    obtain ⟨id, m, inst, hs, hinst, hprops⟩ := hi
    exact ⟨id, m, inst, (hslot _ rfl).trans hs, hinst, hprops⟩
  case event name h s refresh =>
    intro hr
    obtain ⟨e, hs⟩ := hi hr
    exact ⟨e, (hslot _ rfl).trans hs⟩

theorem Instruction.InSync.of_reads {i : Instruction} (hi : i.InSync r env n)
    (hn : ∀ t ∈ i.reads, n'.slot? t = n.slot? t) : i.InSync r env n' := by
  refine ⟨hi.1.of_reads hn, fun s hs x hx => hi.2 s hs x ?_⟩
  rw [← hn s (List.mem_append_left _ (Option.mem_toList.2 hs)), hx]

end Transport

theorem Layout.mem_slots_of_mem_values {is : List Instruction} {t : Nat}
    (ht : t ∈ (({} : Layout).pushAll is).values) : t ∈ (({} : Layout).pushAll is).slots := by
  obtain ⟨i, hi, hv⟩ := Layout.exists_of_mem_values_pushAll ht
  exact Layout.mem_slots_pushAll hi (Instruction.slot?_of_valueSlot? hv) {}

/-- An instance of the renderer is still there. -/
theorem Renderer.Keeps.owner {r r' : Renderer} (h : r.Keeps r') {env : Env}
    (hown : ∀ id ∈ env.owner, (r.instance? id).isSome) :
    ∀ id ∈ env.owner, (r'.instance? id).isSome := fun id hid => by
  obtain ⟨inst, hinst⟩ := Option.isSome_iff_exists.1 (hown id hid)
  rw [h.instance? hinst]
  rfl

/-- Creating an instance keeps the renderer. -/
theorem Renderer.Keeps.push (r : Renderer) (inst : Instance) :
    r.Keeps { r with instances := r.instances.push inst } :=
  ⟨rfl, rfl, by simp, rfl, [], rfl, fun _ hd => absurd hd List.not_mem_nil⟩

theorem Renderer.instance?_push (r : Renderer) (inst : Instance) :
    ({ r with instances := r.instances.push inst } : Renderer).instance? ⟨r.instances.size + 1⟩ =
      some inst := by
  simp [Renderer.instance?]

theorem Renderer.owner_of_instance? {r : Renderer} {id : InstanceId} {inst : Instance}
    (h : r.instance? id = some inst) : ∀ id' ∈ some id, (r.instance? id').isSome := by
  intro id' hid'
  simp only [Option.mem_def, Option.some.injEq] at hid'
  rw [← hid', h]
  rfl

theorem Renderer.Keeps.of_document (r : Renderer) (d : Document) :
    r.Keeps { r with document := d } :=
  .of_eq rfl rfl rfl rfl rfl

theorem Renderer.Logged.keeps {r r' : Renderer} (h : r.Logged r') : r.Keeps r' := by
  obtain ⟨fx, rfl, hq⟩ := h
  exact .of_eq rfl rfl rfl hq rfl

namespace Mounted

theorem slot?_setSlot_self {n : Mounted} {s : Nat} (hs : s < n.slots.size) (x : Slot) :
    (n.setSlot s x).slot? s = some x := by
  rw [slot?_setSlot, if_pos ⟨rfl, hs⟩]

theorem slot?_setSlot_ne {n : Mounted} {s t : Nat} (h : t ≠ s) (x : Slot) :
    (n.setSlot s x).slot? t = n.slot? t := by
  rw [slot?_setSlot, if_neg fun h' => h h'.1.symm]

end Mounted

theorem Instruction.inSync_of_slot?_none {r : Renderer} {i : Instruction} (hs : i.slot? = none)
    {env : Env} {n : Mounted} : i.InSync r env n := by
  refine ⟨?_, fun s hs' => by simp [hs] at hs'⟩
  cases i <;> simp_all [Instruction.slot?, Instruction.Settled]

/-- An instruction whose slot is written with what it shows, and holds in sync, is in sync. -/
theorem Instruction.inSync_setSlot {r : Renderer} {i : Instruction} {env : Env} {node : Mounted} {s : Nat}
    {x : Slot} (hi : i.slot? = some s) (hlt : s < node.slots.size)
    (hset : i.Settled r env (node.setSlot s x)) (hx : x.Synced r env) :
    i.InSync r env (node.setSlot s x) := by
  refine ⟨hset, fun s' hs' x' hx' => ?_⟩
  rw [hi, Option.mem_def, Option.some.injEq] at hs'
  subst hs'
  rw [Mounted.slot?_setSlot_self hlt] at hx'
  cases hx'
  exact hx

namespace Pass

/-- What a mount started in `r₀` has built in sync after the instructions `pre` of `p`: the
renderer is kept, the node is one of `p` with a slot per slot index, each instruction read is in
sync, and reads only slots laid down by the instructions read. -/
structure MountsInSync (r₀ : Renderer) (p : Program) (env : Env) (pre : List Instruction)
    (node : Mounted) (r : Renderer) : Prop where
  keeps : r₀.Keeps r
  program : node.program = p
  size : node.slots.size = p.slotCount
  inSync : ∀ i ∈ pre, i.InSync r env node
  reads : ∀ i ∈ pre, ∀ t ∈ i.reads, t ∈ (({} : Layout).pushAll pre).slots

namespace MountsInSync

variable {r₀ r r' : Renderer} {p : Program} {env : Env} {pre : List Instruction}
  {node node' : Mounted} {i : Instruction}

/-- Nothing is read yet. -/
theorem start (r₀ : Renderer) (site : List Nat) (p : Program) (env : Env) :
    MountsInSync r₀ p env [] (Mounted.fresh site p) r₀ :=
  ⟨.refl r₀, rfl, Array.size_replicate, fun _ hi => absurd hi List.not_mem_nil,
    fun _ hi => absurd hi List.not_mem_nil⟩

/-- An admissible instruction mounted in sync, which leaves the other slots as they are, keeps
the instructions before it in sync. -/
theorem extend (h : MountsInSync r₀ p env pre node r)
    (hown : ∀ id ∈ env.owner, (r₀.instance? id).isSome)
    (hadm : Layout.Admissible p.slotCount (({} : Layout).pushAll pre) i) (hk : r.Keeps r')
    (hprog : node'.program = node.program) (hsize : node'.slots.size = node.slots.size)
    (hslots : ∀ t, t ∉ i.slot? → node'.slot? t = node.slot? t) (hi : i.InSync r' env node') :
    MountsInSync r₀ p env (pre ++ [i]) node' r' := by
  have hown' := h.keeps.owner hown
  have hlaid : (({} : Layout).pushAll (pre ++ [i])).slots =
      i.slot?.toList ++ (({} : Layout).pushAll pre).slots := by
    rw [Layout.pushAll_append, Layout.pushAll_singleton]
    rfl
  refine ⟨h.keeps.trans hk, hprog.trans h.program, hsize.trans h.size, ?_, ?_⟩
  · intro j hj
    rcases List.mem_append.1 hj with hj | hj
    · -- an earlier instruction reads only slots laid down, which the new one does not write
      refine ((h.inSync j hj).keeps hk hown').of_reads fun t ht => hslots t fun hti => ?_
      exact hadm.slot_new t hti (h.reads j hj t ht)
    · rw [List.mem_singleton.1 hj]
      exact hi
  · intro j hj t ht
    rw [hlaid]
    rcases List.mem_append.1 hj with hj | hj
    · exact List.mem_append_right _ (h.reads j hj t ht)
    · rw [List.mem_singleton.1 hj] at ht
      rcases List.mem_append.1 ht with ht | ht
      · exact List.mem_append_left _ ht
      · exact List.mem_append_right _
          (Layout.mem_slots_of_mem_values (hadm.source t (Option.mem_toList.1 ht)))

end MountsInSync

open RenderM

variable {r r' : Renderer}

theorem place_keeps {stack : List (Option NodeId)} {node n : Mounted} {target : Target}
    {c : NodeId} (h : (place stack node target c).run r = .ok n r') :
    n.program = node.program ∧ n.slots = node.slots ∧ r.Keeps r' := by
  unfold place at h
  split at h
  all_goals
    obtain ⟨u, r₁, h₁, h₂⟩ := run_bind_ok h
    rw [run_doc_ok h₁] at h₂
    obtain ⟨rfl, rfl⟩ := run_pure_ok h₂
    exact ⟨rfl, rfl, .of_eq rfl rfl rfl rfl rfl⟩

theorem doc_keeps {f : Document → Document} {u : Unit} (h : (RenderM.doc f).run r = .ok u r') :
    r.Keeps r' := by
  rw [run_doc_ok h]
  exact .of_document _ _

theorem writeProperty_keeps {e : NodeId} {p : Property} {t : String} {u : Unit}
    (h : (writeProperty e p t).run r = .ok u r') : r.Keeps r' := by
  cases p <;> simp only [writeProperty] at h <;> exact doc_keeps h

theorem register_keeps {name : String} {e : NodeId} {reg : Registration} {u : Unit}
    (h : (register name e reg).run r = .ok u r') : r.Keeps r' := by
  cases h
  exact .of_eq rfl rfl rfl rfl rfl

theorem orBinding_ok {α : Type} {op : Opcode} {x : Except BindingFailure α} {a : α}
    (h : (orBinding op x).run r = .ok a r') : x = .ok a ∧ r' = r := by
  cases x with
  | ok b =>
    obtain ⟨rfl, rfl⟩ := run_pure_ok h
    exact ⟨rfl, rfl⟩
  | error f => cases h

/-- A test whose script queues nothing and that gave a bool ran to that bool. -/
theorem test_ok {s : Script} {d : Bool} (hq : s.Quiet r.procs) {env : Env}
    (h : (Bind.test env s).run r = .ok (.ok d) r') :
    Script.outcome r.procs (r.frameOf env) s = .ok (.bool d) ∧ r.Logged r' := by
  obtain ⟨r₂, h₃, hl⟩ := Bind.test_run (r := r) env hq
  rw [h₃, EStateM.Result.ok.injEq] at h
  obtain ⟨hx, rfl⟩ := h
  refine ⟨?_, hl⟩
  split at hx
  · cases hx
    assumption
  · cases hx
  · cases hx

theorem defer_keeps {d : Deferred} {u : Unit} (h : (RenderM.defer d).run r = .ok u r')
    (hd : d.callback.Quiet r.procs) : r.Keeps r' := by
  cases h
  exact ⟨rfl, rfl, List.prefix_refl _, rfl, [d], rfl, fun d' hd' => by
    rw [List.mem_singleton.1 hd']; exact hd⟩

theorem addRootIf_eq (c : Bool) (n : Mounted) (ref : RootRef) :
    (if c = true then n.addRoot ref else n).program = n.program ∧
      (if c = true then n.addRoot ref else n).slots = n.slots := by
  split <;> exact ⟨rfl, rfl⟩

/-- A mount function that builds every well-formed program whose scripts queue nothing in sync
with the env it mounts with, from a renderer that has the env's owner, and keeps the renderer. -/
def MountFn.Syncs (f : MountFn) (procs : Procedures) : Prop :=
  ∀ site q env target r n r', q.WellFormed → q.Quiet procs → r.procs = procs →
    (∀ id ∈ env.owner, (r.instance? id).isSome) → (f site q env target).run r = .ok n r' →
    n.Synced r' env ∧ r.Keeps r'

section Sub

variable {sub : MountFn} {procs : Procedures} (hsub : sub.Syncs procs) {site : List Nat}
  {env : Env} {q : Program} (hwf : q.WellFormed) (hq : q.Quiet procs)
include hsub hwf hq

/-- A branch mounts in sync, and its marker, if it needs one, changes the document only. -/
theorem mountBranch_synced {pos : Target} {bm : Mounted × Option NodeId}
    (hp : r.procs = procs) (hown : ∀ id ∈ env.owner, (r.instance? id).isSome)
    (h : (mountBranch sub site q env pos).run r = .ok bm r') : bm.1.Synced r' env ∧ r.Keeps r' := by
  unfold mountBranch at h
  obtain ⟨branch, r₁, h₁, h₂⟩ := run_bind_ok h
  obtain ⟨hs, hk⟩ := hsub site q env pos r branch r₁ hwf hq hp hown h₁
  have hown₁ : ∀ id ∈ env.owner, (r₁.instance? id).isSome := fun id hid => by
    obtain ⟨inst, hinst⟩ := Option.isSome_iff_exists.1 (hown id hid)
    rw [hk.instance? hinst]
    rfl
  split at h₂
  · obtain ⟨rfl, rfl⟩ := run_pure_ok h₂
    exact ⟨hs, hk⟩
  · obtain ⟨m, r₂, h₃, h₄⟩ := run_bind_ok h₂
    obtain ⟨rfl, rfl⟩ := run_docWith_ok h₃
    obtain ⟨u, r₃, h₅, h₆⟩ := run_bind_ok h₄
    rw [run_doc_ok h₅] at h₆
    obtain ⟨rfl, rfl⟩ := run_pure_ok h₆
    exact ⟨hs.keeps (.of_eq rfl rfl rfl rfl rfl) hown₁, hk.trans (.of_eq rfl rfl rfl rfl rfl)⟩

/-- Items mounted one after another have the keys and props of their projection, and each is in
sync under its own props. -/
theorem mapM_mountItem_synced {l : LoopSpec Program} (hT : l.template = q) {parent : NodeId}
    (ps : List Projected) {items : List (LoopItem Mounted)} (hp : r.procs = procs)
    (hown : ∀ id ∈ env.owner, (r.instance? id).isSome)
    (h : (ps.mapM fun p => mountItem sub site l env parent p none).run r = .ok items r') :
    items.map LoopItem.projected = ps ∧
      (∀ it ∈ items, it.node.Synced r' { env with props := it.props }) ∧ r.Keeps r' := by
  induction ps generalizing r items with
  | nil =>
    rw [List.mapM_nil] at h
    obtain ⟨rfl, rfl⟩ := run_pure_ok h
    exact ⟨rfl, fun _ h => absurd h List.not_mem_nil, .refl _⟩
  | cons p ps ih =>
    rw [List.mapM_cons] at h
    obtain ⟨it, r₁, h₁, h₂⟩ := run_bind_ok h
    obtain ⟨its, r₂, h₃, h₄⟩ := run_bind_ok h₂
    obtain ⟨rfl, rfl⟩ := run_pure_ok h₄
    unfold mountItem at h₁
    obtain ⟨node, r₃, h₅, h₆⟩ := run_bind_ok h₁
    obtain ⟨rfl, rfl⟩ := run_pure_ok h₆
    rw [hT] at h₅
    obtain ⟨hs, hk⟩ := hsub site q { env with props := p.props } _ r node _ hwf hq hp hown h₅
    have hown₁ := hk.owner hown
    obtain ⟨hps, hits, hk'⟩ := ih (hk.procs.trans hp) hown₁ h₃
    refine ⟨by rw [List.map_cons, hps]; rfl, ?_, hk.trans hk'⟩
    intro it' hit'
    rcases List.mem_cons.1 hit' with rfl | hit'
    · exact hs.keeps hk' hown₁
    · exact hits it' hit'

/-- A loop mounts the items of its projection, each in sync under its own props. -/
theorem mountLoop_synced {l : LoopSpec Program} (hT : l.template = q)
    (hql : ∀ s ∈ l.collection :: l.key :: l.props.toList, s.Quiet procs) {parent : NodeId}
    {items : List (LoopItem Mounted)} (hp : r.procs = procs)
    (hown : ∀ id ∈ env.owner, (r.instance? id).isSome)
    (h : (mountLoop sub site l env parent).run r = .ok items r') :
    projection r.procs r.config.duplicateKeys (r.frameOf env) l =
      .ok (items.map LoopItem.projected) ∧
      (∀ it ∈ items, it.node.Synced r' { env with props := it.props }) ∧ r.Keeps r' := by
  unfold mountLoop at h
  obtain ⟨ps, r₁, h₁, h₂⟩ := run_bind_ok h
  obtain ⟨r₂, hl, hproj⟩ := @project_run r env l fun s hs f => by rw [hp]; exact hql s hs f
  rw [hproj] at h₁
  cases hX : projection r.procs r.config.duplicateKeys (r.frameOf env) l with
  | error e =>
    rw [hX] at h₁
    cases h₁
  | ok ps' =>
    rw [hX] at h₁
    cases h₁
    have hk₁ := hl.keeps
    obtain ⟨hps, hits, hk⟩ := mapM_mountItem_synced hsub hwf hq hT ps (hk₁.procs.trans hp)
      (hk₁.owner hown) h₂
    exact ⟨by rw [hps], hits, hk₁.trans hk⟩

/-- A component mounts a new instance with the env's props, and its node in sync under it. -/
theorem mountComponent_synced {c : ComponentSpec Program} (hc : c.body = q)
    (hf : c.factory.Quiet procs) {pos : Target} {slot : Slot} (hp : r.procs = procs)
    (h : (mountComponent sub site c env pos).run r = .ok slot r') :
    ∃ id m inst, slot = .component id m ∧ r'.instance? id = some inst ∧ inst.props = env.props ∧
      m.Synced r' { owner := some id, props := inst.props } ∧ r.Keeps r' := by
  unfold mountComponent at h
  dsimp only at h
  obtain ⟨x, r₁, h₁, h₂⟩ := run_bind_ok h
  have hl : r.Logged r₁ := by
    obtain ⟨r₀, hs, hl⟩ := script_logged (r := r) { props := env.props } (s := c.factory)
      (by rw [hp]; exact hf)
    unfold Bind.factory at h₁
    obtain ⟨v, r₃, h₃, h₄⟩ := run_bind_ok h₁
    rw [hs] at h₃
    cases h₃
    obtain ⟨-, rfl⟩ := run_pure_ok h₄
    exact hl
  obtain ⟨st, r₂, h₅, h₆⟩ := run_bind_ok h₂
  obtain ⟨-, hr₂⟩ := orBinding_ok h₅
  rw [hr₂] at h₆
  obtain ⟨rr, r₃, h₇, h₈⟩ := run_bind_ok h₆
  cases h₇
  obtain ⟨u, r₄, h₉, h₁₀⟩ := run_bind_ok h₈
  cases h₉
  obtain ⟨m, r₅, h₁₁, h₁₂⟩ := run_bind_ok h₁₀
  obtain ⟨u', r₆, h₁₃, h₁₄⟩ := run_bind_ok h₁₂
  cases h₁₃
  obtain ⟨rfl, rfl⟩ := run_pure_ok h₁₄
  have hinst := Renderer.instance?_push r₁ ⟨⟨r₁.instances.size + 1⟩, env.props, st, true⟩
  have hk₁ := hl.keeps.trans (Renderer.Keeps.push r₁ ⟨⟨r₁.instances.size + 1⟩, env.props, st, true⟩)
  rw [hc] at h₁₁
  obtain ⟨hms, hk₂⟩ := hsub site q _ pos _ m r₅ hwf hq (hk₁.procs.trans hp)
    (Renderer.owner_of_instance? hinst) h₁₁
  refine ⟨_, m, _, rfl, (hk₂.instance? hinst : _), rfl,
    hms.keeps (.of_eq rfl rfl rfl rfl rfl) (hk₂.owner (Renderer.owner_of_instance? hinst)),
    hk₁.trans (hk₂.trans (.of_eq rfl rfl rfl rfl rfl))⟩

end Sub

/-- A value written to its slot as its binding gives it equals what the binding gives after. -/
theorem leaf_settled {env : Env} {node : Mounted} {b : Binding} {s e : Nat} {v : Value}
    (hv : b.valueIn r env node = some v) (hk : r.Keeps r')
    (hown : ∀ id ∈ env.owner, (r.instance? id).isSome) (hlt : s < node.slots.size)
    (hsib : ∀ t ∈ b.sibling?, t ≠ s) :
    ∃ h v' w, (node.setSlot s (.leaf e v)).slot? s = some (.leaf h v') ∧
      b.valueIn r' env (node.setSlot s (.leaf e v)) = some w ∧ (v' == w) = true := by
  refine ⟨e, v, v, Mounted.slot?_setSlot_self hlt _, ?_, beq_self_eq_true v⟩
  rw [Binding.valueIn_of_sibling fun t ht => Mounted.slot?_setSlot_ne (hsib t ht) _,
    Binding.valueIn_keeps hk hown]
  exact hv

theorem slot?_addRootIf (c : Bool) (n : Mounted) (ref : RootRef) (t : Nat) :
    (if c = true then n.addRoot ref else n).slot? t = n.slot? t := by
  split <;> rfl

theorem MountsInSync.extend_plain {r₀ : Renderer} {p : Program} {env : Env}
    {pre : List Instruction} {node node' : Mounted} {i : Instruction}
    (h : MountsInSync r₀ p env pre node r) (hown : ∀ id ∈ env.owner, (r₀.instance? id).isSome)
    (hadm : Layout.Admissible p.slotCount (({} : Layout).pushAll pre) i) (hk : r.Keeps r')
    (hprog : node'.program = node.program) (hslots : node'.slots = node.slots)
    (hs : i.slot? = none) : MountsInSync r₀ p env (pre ++ [i]) node' r' :=
  h.extend hown hadm hk hprog (by rw [hslots]) (fun t _ => by simp only [Mounted.slot?, hslots])
    (Instruction.inSync_of_slot?_none hs)

/-- Mounting an instruction of a well-formed quiet program where it stands keeps what a mount
has built in sync. -/
theorem mountInstr_inSync {sub : MountFn} {r₀ : Renderer} (hsub : sub.Syncs r₀.procs)
    {p : Program} (hp : p.WellFormed) (hq : p.Quiet r₀.procs) {env : Env}
    (hown : ∀ id ∈ env.owner, (r₀.instance? id).isSome) {pre suf : List Instruction}
    {instr : Instruction} (he : p.instructions = pre ++ instr :: suf) {site : List Nat}
    {target : Target} {node node' : Mounted} {stack stack' : List (Option NodeId)} {k : Nat}
    (hinv : MountsInSync r₀ p env pre node r)
    (h : (mountInstr sub site env target node stack instr k).run r = .ok (node', stack') r') :
    MountsInSync r₀ p env (pre ++ [instr]) node' r' := by
  have hadm := hp.admissible he
  have hmem : instr ∈ p.instructions := by simp [he]
  have hprocs : r.procs = r₀.procs := hinv.keeps.procs
  have hquiet : ∀ s ∈ instr.passScripts, s.Quiet r.procs := by
    rw [hprocs]
    exact hq.passScripts hmem
  have hsubq : ∀ q ∈ instr.programs, q.WellFormed ∧ q.Quiet r₀.procs := fun q hq' =>
    ⟨hp.of_mem_programs hmem hq', hq.of_mem_programs hmem hq'⟩
  have hown' := hinv.keeps.owner hown
  -- the slot an instruction writes is below the slot count and not the one its value is read from
  have hlt : ∀ s ∈ instr.slot?, s < node.slots.size := fun s hs => by
    rw [hinv.size]
    exact hadm.slot_lt s hs
  have hsrc : ∀ s ∈ instr.slot?, ∀ t ∈ instr.source?, t ≠ s := fun s hs t ht hts =>
    hadm.slot_new s hs (hts ▸ Layout.mem_slots_of_mem_values (hadm.source t ht))
  have hother : ∀ {n : Mounted} {s : Nat} {x : Slot}, instr.slot? = some s →
      ∀ t, t ∉ instr.slot? → (n.setSlot s x).slot? t = n.slot? t := fun hs t ht =>
    Mounted.slot?_setSlot_ne (by rintro rfl; exact ht hs) _
  cases instr with
  | openElement tag =>
    obtain ⟨rfl, rfl, rfl⟩ := mountInstr_openElement_ok h
    exact hinv.extend_plain hown hadm (.of_eq rfl rfl rfl rfl rfl) rfl rfl rfl
  | closeElement =>
    obtain ⟨e, rest, rfl, h₁, rfl⟩ := mountInstr_closeElement_ok h
    obtain ⟨hprog, hslots, hk⟩ := place_keeps h₁
    exact hinv.extend_plain hown hadm hk hprog hslots rfl
  | openFragment =>
    obtain ⟨rfl, rfl, rfl⟩ := mountInstr_openFragment_ok h
    exact hinv.extend_plain hown hadm (.refl _) rfl rfl rfl
  | closeFragment =>
    obtain ⟨rfl, rfl, rfl⟩ := mountInstr_closeFragment_ok h
    exact hinv.extend_plain hown hadm (.refl _) rfl rfl rfl
  | staticProperty prop v =>
    obtain ⟨e, rest, -, h₁, rfl, rfl⟩ := mountInstr_staticProperty_ok h
    exact hinv.extend_plain hown hadm (writeProperty_keeps h₁) rfl rfl rfl
  | staticAttribute name v =>
    obtain ⟨e, rest, -, h₁, rfl, rfl⟩ := mountInstr_staticAttribute_ok h
    exact hinv.extend_plain hown hadm (doc_keeps h₁) rfl rfl rfl
  | staticText v =>
    obtain ⟨e, rest, -, h₁, rfl, rfl⟩ := mountInstr_staticText_ok h
    exact hinv.extend_plain hown hadm (doc_keeps h₁) rfl rfl rfl
  | staticTextNode v =>
    obtain ⟨h₁, rfl⟩ := mountInstr_staticTextNode_ok h
    obtain ⟨hprog, hslots, hk⟩ := place_keeps h₁
    exact hinv.extend_plain hown hadm ((Renderer.Keeps.of_document _ _).trans hk) hprog hslots rfl
  | dynamicProperty prop b s =>
    obtain ⟨e, rest, v, r₁, -, h₁, -, h₂, rfl, rfl⟩ := mountInstr_dynamicProperty_ok h
    obtain ⟨hv, hl⟩ := resolve_ok hquiet h₁
    have hk := hl.keeps.trans (writeProperty_keeps h₂)
    exact hinv.extend hown hadm hk rfl (by simp) (hother rfl)
      (Instruction.inSync_setSlot rfl (hlt s rfl)
        (leaf_settled hv hk hown' (hlt s rfl) fun t ht => hsrc s rfl t ht) trivial)
  | dynamicAttribute name b s =>
    obtain ⟨e, rest, v, r₁, -, h₁, -, h₂, rfl, rfl⟩ := mountInstr_dynamicAttribute_ok h
    obtain ⟨hv, hl⟩ := resolve_ok hquiet h₁
    have hk := hl.keeps.trans (doc_keeps h₂)
    exact hinv.extend hown hadm hk rfl (by simp) (hother rfl)
      (Instruction.inSync_setSlot rfl (hlt s rfl)
        (leaf_settled hv hk hown' (hlt s rfl) fun t ht => hsrc s rfl t ht) trivial)
  | dynamicText b s =>
    obtain ⟨e, rest, v, r₁, -, h₁, -, h₂, rfl, rfl⟩ := mountInstr_dynamicText_ok h
    obtain ⟨hv, hl⟩ := resolve_ok hquiet h₁
    have hk := hl.keeps.trans (doc_keeps h₂)
    exact hinv.extend hown hadm hk rfl (by simp) (hother rfl)
      (Instruction.inSync_setSlot rfl (hlt s rfl)
        (leaf_settled hv hk hown' (hlt s rfl) fun t ht => hsrc s rfl t ht) trivial)
  | dynamicTextNode b s =>
    obtain ⟨v, r₁, n, h₁, -, h₂, rfl, rfl⟩ := mountInstr_dynamicTextNode_ok h
    obtain ⟨hv, hl⟩ := resolve_ok hquiet h₁
    obtain ⟨hprog, hslots, hk₂⟩ := place_keeps h₂
    have hk := hl.keeps.trans ((Renderer.Keeps.of_document _ _).trans hk₂)
    have hlt' : s < n.slots.size := hslots ▸ hlt s rfl
    have hsame : ∀ t, n.slot? t = node.slot? t := fun t => by simp only [Mounted.slot?, hslots]
    have hv' : b.valueIn r env n = some v :=
      (Binding.valueIn_of_sibling fun t _ => hsame t).trans hv
    refine hinv.extend hown hadm hk hprog (by simp [hslots]) (fun t ht => ?_)
      (Instruction.inSync_setSlot rfl hlt'
        (leaf_settled hv' hk hown' hlt' fun t ht => hsrc s rfl t ht) trivial)
    rw [hother rfl t ht, hsame]
  | ternary t =>
    obtain ⟨x, r₁, d, r₂, b, m, h₁, h₃, h₅, rfl, hs⟩ := mountInstr_ternary_ok h
    subst stack'
    obtain ⟨rfl, rfl⟩ := orBinding_ok h₃
    obtain ⟨ho, hl⟩ := test_ok (hquiet _ (List.mem_singleton_self _)) h₁
    rcases hpos : position stack target with ⟨pos, atRoot⟩
    rw [hpos] at h₅
    dsimp only at h₅ ⊢
    have hq' := hsubq (if d then t.consequent else t.alternate)
      (by cases d <;> simp [Instruction.programs])
    obtain ⟨hbs, hk₃⟩ := mountBranch_synced hsub hq'.1 hq'.2 (hl.procs.trans hprocs)
      (hl.keeps.owner hown') h₅
    have hk := hl.keeps.trans hk₃
    have hset : (Instruction.ternary t).InSync r' env
        (node.setSlot t.slot (.ternary d b m pos.parent)) := by
      refine Instruction.inSync_setSlot rfl (hlt _ rfl)
        ⟨d, b, m, pos.parent, Mounted.slot?_setSlot_self (hlt _ rfl) _, ?_⟩ hbs
      rw [hk.procs, hk.frameOf hown']
      exact ho
    obtain ⟨hprog, hslots⟩ := addRootIf_eq atRoot (node.setSlot t.slot
      (.ternary d b m pos.parent)) (.slot t.slot)
    exact hinv.extend hown hadm hk hprog (by rw [hslots]; simp)
      (fun t' ht' => by rw [slot?_addRootIf, hother rfl t' ht'])
      (hset.of_reads fun t' _ => slot?_addRootIf _ _ _ t')
  | loop l =>
    obtain ⟨parent, items, -, h₃, rfl, rfl⟩ := mountInstr_loop_ok h
    have hq' := hsubq l.template (by simp [Instruction.programs])
    -- the projection's scripts are among the loop's
    have hsc : (l.collection :: l.key :: l.props.toList).Sublist
        (l.collection :: l.key :: (l.props.toList ++ l.shouldUpdate.toList)) :=
      ((List.sublist_append_left _ _).cons_cons _).cons_cons _
    obtain ⟨hproj, hits, hk⟩ := mountLoop_synced hsub hq'.1 hq'.2 rfl
      (fun s hs => hq.passScripts hmem s (hsc.subset hs)) hprocs hown' h₃
    refine hinv.extend hown hadm hk rfl (by simp) (hother rfl)
      (Instruction.inSync_setSlot rfl (hlt _ rfl)
        ⟨_, items, Mounted.slot?_setSlot_self (hlt _ rfl) _, ?_⟩ hits)
    rw [hk.procs, hk.config, hk.frameOf hown']
    exact hproj
  | component c =>
    obtain ⟨slot, h₁, rfl, hs⟩ := mountInstr_component_ok h
    subst stack'
    rcases hpos : position stack target with ⟨pos, atRoot⟩
    rw [hpos] at h₁
    dsimp only at h₁ ⊢
    have hq' := hsubq c.body (by simp [Instruction.programs])
    obtain ⟨id, m, inst, rfl, hinst, hprops, hms, hk⟩ := mountComponent_synced hsub hq'.1 hq'.2
      rfl (hq.passScripts hmem c.factory (List.mem_singleton_self _)) hprocs h₁
    have hset : (Instruction.component c).InSync r' env
        (node.setSlot c.slot (.component id m)) :=
      Instruction.inSync_setSlot rfl (hlt _ rfl) ⟨id, m, inst,
        Mounted.slot?_setSlot_self (hlt _ rfl) _, hinst, by rw [hprops]; exact beq_self_eq_true _⟩
        ⟨inst, hinst, hms⟩
    obtain ⟨hprog, hslots⟩ := addRootIf_eq atRoot (node.setSlot c.slot (.component id m))
      (.slot c.slot)
    exact hinv.extend hown hadm hk hprog (by rw [hslots]; simp)
      (fun t' ht' => by rw [slot?_addRootIf, hother rfl t' ht'])
      (hset.of_reads fun t' _ => slot?_addRootIf _ _ _ t')
  | didMount cb =>
    obtain ⟨h₁, rfl, rfl⟩ := mountInstr_didMount_ok h
    exact hinv.extend_plain hown hadm (defer_keeps h₁ (hquiet cb (List.mem_singleton_self _)))
      rfl rfl rfl
  | didUpdate cb =>
    obtain ⟨rfl, rfl, rfl⟩ := mountInstr_didUpdate_ok h
    exact hinv.extend_plain hown hadm (.refl _) rfl rfl rfl
  | event name handler s refresh =>
    obtain ⟨e, rest, -, h₁, rfl, rfl⟩ := mountInstr_event_ok h
    exact hinv.extend hown hadm (register_keeps h₁) rfl (by simp) (hother rfl)
      (Instruction.inSync_setSlot rfl (hlt _ rfl)
        (fun _ => ⟨e, Mounted.slot?_setSlot_self (hlt _ rfl) _⟩) trivial)

theorem installPlan_keeps {site : List Nat} {plan : Option Plan} {u : Unit}
    (h : (RenderM.installPlan site plan).run r = .ok u r') : r.Keeps r' := by
  cases plan with
  | none =>
    obtain ⟨-, rfl⟩ := run_pure_ok h
    exact .refl _
  | some p =>
    cases h
    dsimp only
    split
    · exact .refl _
    · exact .of_eq rfl rfl rfl rfl rfl

/-- A mount leaves every well-formed program whose scripts queue nothing in sync with the env it
mounts with, and keeps the renderer. -/
theorem mount_syncs (procs : Procedures) : ∀ fuel, (mount fuel).Syncs procs
  | 0 => fun _ _ _ _ _ _ _ _ _ _ _ h => by cases h
  | fuel + 1 => by
    intro site q env target r n r' hwf hq hp hown h
    have ih : MountFn.Syncs (fun s p e t => mount fuel s p e t) r.procs :=
      hp ▸ mount_syncs procs fuel
    rw [mount_succ, run_get_bind] at h
    obtain ⟨acc, r₁, h₁, h₂⟩ := run_bind_ok h
    obtain ⟨u, r₂, h₃, h₄⟩ := run_bind_ok h₂
    obtain ⟨rfl, rfl⟩ := run_pure_ok h₄
    have hloop := run_forIn_ok (fun rest (acc : Mounted × List (Option NodeId)) s =>
        ∃ pre, q.instructions = pre ++ rest.map Prod.fst ∧ MountsInSync r q env pre acc.1 s)
      ?_ ?_ ⟨[], by simp [List.zipIdx_map_fst], MountsInSync.start r site q env⟩ h₁
    · obtain ⟨pre, hpre, hinv⟩ := hloop
      rw [List.map_nil, List.append_nil] at hpre
      have hk := installPlan_keeps h₃
      refine ⟨Mounted.synced_of_inSync fun i hi => ?_, hinv.keeps.trans hk⟩
      rw [hinv.program, hpre] at hi
      exact (hinv.inSync i hi).keeps hk (hinv.keeps.owner hown)
    · rintro ⟨instr, k⟩ rest ⟨node₀, stack₀⟩ s ⟨node₁, stack₁⟩ s' ⟨pre, hpre, hinv⟩ hrun
      obtain ⟨res, s₁, hm, hy⟩ := run_bind_ok hrun
      obtain ⟨hres, rfl⟩ := run_pure_ok hy
      cases hres
      refine ⟨pre ++ [instr], by simpa using hpre, ?_⟩
      exact mountInstr_inSync ih hwf (hp ▸ hq) hown (by simpa using hpre) hinv hm
    · rintro ⟨instr, k⟩ rest _ s _ s' _ hrun
      obtain ⟨res, s₁, hm, hy⟩ := run_bind_ok hrun
      cases (run_pure_ok hy).1

end Pass

end Canopy
