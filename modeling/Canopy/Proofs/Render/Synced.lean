import Canopy.Proofs.Render.Bindings
import Canopy.Proofs.Render.Unmounting

/-!
# Trees in sync with their env

An update writes a dynamic value only when it differs from the value in its slot, keeps a
ternary's branch while the test keeps its result, patches the items of a loop whose keys stay,
and hands a component's node the props its instance has. So a node that already shows what its
env computes is left as it is by an update with that env. `Mounted.Synced r env n` says that
`n` shows what `env` computes in `r`: every value slot holds a value equal to its binding's,
every ternary holds the decision its test gives, every loop holds the items its collection
projects to (keys and props, in order), every component's instance has props equal to the
env's, and so on in every node a slot holds.

What a binding, a test or a projection computes depends on the renderer only through the
procedures, the options and the instances (through the owner's state). A pass whose scripts
queue nothing keeps these, at most adding instances (`Renderer.Keeps`), and a tree in sync
stays in sync across it (`Mounted.Synced.keeps`).

Two conditions on a program are what this needs: no script its passes run queues a state
update (`Program.Quiet`), and none of its loops has a should-update function
(`Program.Ungated`), which lets an item take new props without its node being updated.
-/

namespace Canopy

namespace Value

mutual
theorem beq_self : ∀ v : Value, v.beq v = true
  | .null => rfl
  | .bool b => by simp [beq]
  | .int n => by simp [beq]
  | .float x => by simp [beq, sameDouble]
  | .str s => by simp [beq]
  | .arr xs => by
    rw [beq]
    exact beqItems_self xs
  | .obj fs => by
    rw [beq]
    exact beqFields_self fs

theorem beqItems_self : ∀ xs : List Value, beqItems xs xs = true
  | [] => rfl
  | x :: xs => by rw [beqItems, beq_self x, beqItems_self xs]; rfl

theorem beqFields_self : ∀ fs : List (String × Value), beqFields fs fs = true
  | [] => rfl
  | (k, x) :: fs => by rw [beqFields, beq_self x, beqFields_self fs]; simp
end

/-- Every value equals itself; doubles are compared by bits, up to the sign of zero. -/
instance : ReflBEq Value := ⟨fun {v} => beq_self v⟩

end Value

/-! ## Quiet and ungated programs -/

/-- The scripts a pass runs for an instruction: bindings, tests, a loop's functions, a
component's factory and lifecycle hooks. Event handlers run only when an event is delivered. -/
def Instruction.passScripts : Instruction → List Script
  | .dynamicProperty _ b _ | .dynamicAttribute _ b _ | .dynamicText b _
  | .dynamicTextNode b _ => b.scripts
  | .ternary t => [t.test]
  | .loop l => l.collection :: l.key :: (l.props.toList ++ l.shouldUpdate.toList)
  | .component c => [c.factory]
  | .didMount cb | .didUpdate cb => [cb]
  | _ => []

/-- A script that queues no state update, in whatever frame it runs. -/
def Script.Quiet (procs : Procedures) (s : Script) : Prop :=
  ∀ frame, Script.queued procs frame s = []

/-- A program none of whose passes queues a state update: no script a pass runs for it or for
its sub-programs queues one. -/
inductive Program.Quiet (procs : Procedures) : Program → Prop
  | mk {is : List Instruction} {n : Nat} :
      (∀ i ∈ is, ∀ s ∈ i.passScripts, s.Quiet procs) →
      (∀ i ∈ is, ∀ q ∈ i.programs, Program.Quiet procs q) → Program.Quiet procs (.mk is n)

/-- A program whose loops, and those of its sub-programs, have no should-update function, so
that a kept item is always patched. -/
inductive Program.Ungated : Program → Prop
  | mk {is : List Instruction} {n : Nat} : (∀ l, .loop l ∈ is → l.shouldUpdate = none) →
      (∀ i ∈ is, ∀ q ∈ i.programs, Program.Ungated q) → Program.Ungated (.mk is n)

namespace Program

variable {procs : Procedures} {p q : Program} {i : Instruction}

theorem Quiet.passScripts (h : p.Quiet procs) (hi : i ∈ p.instructions) :
    ∀ s ∈ i.passScripts, s.Quiet procs := by
  cases h with
  | mk hs _ => exact hs i hi

theorem Quiet.of_mem_programs (h : p.Quiet procs) (hi : i ∈ p.instructions)
    (hq : q ∈ i.programs) : q.Quiet procs := by
  cases h with
  | mk _ hsub => exact hsub i hi q hq

theorem Ungated.shouldUpdate (h : p.Ungated) {l : LoopSpec Program}
    (hl : .loop l ∈ p.instructions) : l.shouldUpdate = none := by
  cases h with
  | mk hs _ => exact hs l hl

theorem Ungated.of_mem_programs (h : p.Ungated) (hi : i ∈ p.instructions)
    (hq : q ∈ i.programs) : q.Ungated := by
  cases h with
  | mk _ hsub => exact hsub i hi q hq

end Program

/-- The script a deferred callback runs. -/
def Deferred.callback : Deferred → Script
  | .lifecycle _ cb _ => cb
  | .settled cb _ => cb

/-! ## What a quiet pass keeps -/

namespace Renderer

/-- What a pass over a quiet program leaves of the renderer: the procedures and options, every
instance as it was (new ones may follow), and the update queue; the callbacks it defers, in
front of the ones deferred before, queue nothing. -/
structure Keeps (r r' : Renderer) : Prop where
  procs : r'.procs = r.procs
  config : r'.config = r.config
  instances : r.instances.toList <+: r'.instances.toList
  queue : r'.effects.queue = r.effects.queue
  deferred : ∃ ds, r'.deferred = ds ++ r.deferred ∧ ∀ d ∈ ds, d.callback.Quiet r.procs

namespace Keeps

variable {r r' r'' : Renderer}

@[refl] theorem refl (r : Renderer) : r.Keeps r :=
  ⟨rfl, rfl, List.prefix_refl _, rfl, [], rfl, fun _ hd => absurd hd List.not_mem_nil⟩

theorem trans (h₁ : r.Keeps r') (h₂ : r'.Keeps r'') : r.Keeps r'' := by
  obtain ⟨ds₁, hd₁, hq₁⟩ := h₁.deferred
  obtain ⟨ds₂, hd₂, hq₂⟩ := h₂.deferred
  refine ⟨h₂.procs.trans h₁.procs, h₂.config.trans h₁.config, h₁.instances.trans h₂.instances,
    h₂.queue.trans h₁.queue, ds₂ ++ ds₁, by rw [hd₂, hd₁, List.append_assoc], ?_⟩
  intro d hd
  rcases List.mem_append.1 hd with hd | hd
  · exact h₁.procs ▸ hq₂ d hd
  · exact hq₁ d hd

/-- A change that keeps the procedures, options, instances, effects and deferred callbacks. -/
theorem of_eq (hp : r'.procs = r.procs) (hc : r'.config = r.config)
    (hi : r'.instances = r.instances) (hq : r'.effects.queue = r.effects.queue)
    (hd : r'.deferred = r.deferred) : r.Keeps r' :=
  ⟨hp, hc, hi ▸ List.prefix_refl _, hq, [], hd, fun _ hd => absurd hd List.not_mem_nil⟩

/-- An instance the renderer has is still there, as it was. -/
theorem instance? (h : r.Keeps r') {id : InstanceId} {i : Instance}
    (hi : r.instance? id = some i) : r'.instance? id = some i := by
  obtain ⟨t, ht⟩ := h.instances
  have hl : r.instances.toList[id.raw - 1]? = some i := by
    rw [Array.getElem?_toList]
    exact hi
  have hl' : r'.instances.toList[id.raw - 1]? = some i := by
    rw [← ht, List.getElem?_append_left (List.getElem?_eq_some_iff.1 hl).1]
    exact hl
  rw [Array.getElem?_toList] at hl'
  exact hl'

theorem frameOf (h : r.Keeps r') {env : Env} (hown : ∀ id ∈ env.owner, (r.instance? id).isSome) :
    r'.frameOf env = r.frameOf env := by
  unfold Renderer.frameOf
  cases ho : env.owner with
  | none => rfl
  | some id =>
    obtain ⟨i, hi⟩ := Option.isSome_iff_exists.1 (hown id ho)
    simp [hi, h.instance? hi]

end Keeps

end Renderer

/-! ## In sync -/

/-- The projection of a loop item: its key and props. -/
def LoopItem.projected (it : LoopItem Mounted) : Projected := ⟨it.key, it.props⟩

/-- What an instruction's slot holds in a node that shows what an env computes: a value equal
to the binding's, the decision the test gives, the items the loop projects to, an instance with
props equal to the env's, an element for a refreshing event binding. -/
def Instruction.Settled (r : Renderer) (env : Env) (n : Mounted) : Instruction → Prop
  | .dynamicProperty _ b s | .dynamicAttribute _ b s | .dynamicText b s
  | .dynamicTextNode b s =>
    ∃ h v w, n.slot? s = some (.leaf h v) ∧ b.valueIn r env n = some w ∧ (v == w) = true
  | .ternary t => ∃ d b m p, n.slot? t.slot = some (.ternary d b m p) ∧
    Script.outcome r.procs (r.frameOf env) t.test = .ok (.bool d)
  | .loop l => ∃ p items, n.slot? l.slot = some (.loop p items) ∧
    Pass.projection r.procs r.config.duplicateKeys (r.frameOf env) l =
      .ok (items.map LoopItem.projected)
  | .component c => ∃ id m inst, n.slot? c.slot = some (.component id m) ∧
    r.instance? id = some inst ∧ (inst.props == env.props) = true
  | .event _ _ s refresh => refresh = true → ∃ e, n.slot? s = some (.event e)
  | _ => True

/-- A node that shows what an env computes in a renderer, and so does every node it holds:
a branch under the env, a loop item under the env with the item's props, a component's node
under its instance with the instance's props. -/
inductive Mounted.Synced (r : Renderer) : Env → Mounted → Prop
  | mk {env : Env} {n : Mounted} :
      (∀ i ∈ n.program.instructions, i.Settled r env n) →
      (∀ t d b m p, .ternary t ∈ n.program.instructions →
        n.slot? t.slot = some (.ternary d b m p) → Mounted.Synced r env b) →
      (∀ l p items, .loop l ∈ n.program.instructions → n.slot? l.slot = some (.loop p items) →
        ∀ it ∈ items, Mounted.Synced r { env with props := it.props } it.node) →
      (∀ c id m inst, .component c ∈ n.program.instructions →
        n.slot? c.slot = some (.component id m) → r.instance? id = some inst →
        Mounted.Synced r { owner := some id, props := inst.props } m) →
      Mounted.Synced r env n

namespace Mounted.Synced

variable {r r' : Renderer} {env : Env} {n : Mounted}

theorem settled (h : n.Synced r env) {i : Instruction} (hi : i ∈ n.program.instructions) :
    i.Settled r env n := by
  cases h with
  | mk hs _ _ _ => exact hs i hi

theorem branch (h : n.Synced r env) {t : TernarySpec Program} {d : Bool} {b : Mounted}
    {m : Option NodeId} {p : NodeId} (hi : .ternary t ∈ n.program.instructions)
    (hs : n.slot? t.slot = some (.ternary d b m p)) : b.Synced r env := by
  cases h with
  | mk _ hb _ _ => exact hb t d b m p hi hs

theorem item (h : n.Synced r env) {l : LoopSpec Program} {p : NodeId}
    {items : List (LoopItem Mounted)} (hi : .loop l ∈ n.program.instructions)
    (hs : n.slot? l.slot = some (.loop p items)) {it : LoopItem Mounted} (hit : it ∈ items) :
    it.node.Synced r { env with props := it.props } := by
  cases h with
  | mk _ _ hl _ => exact hl l p items hi hs it hit

theorem component (h : n.Synced r env) {c : ComponentSpec Program} {id : InstanceId}
    {m : Mounted} {inst : Instance} (hi : .component c ∈ n.program.instructions)
    (hs : n.slot? c.slot = some (.component id m)) (hinst : r.instance? id = some inst) :
    m.Synced r { owner := some id, props := inst.props } := by
  cases h with
  | mk _ _ _ hc => exact hc c id m inst hi hs hinst

end Mounted.Synced

/-! ## Keeping in sync -/

section Keeping

variable {r r' : Renderer} {env : Env} {n : Mounted}

theorem Binding.valueIn_keeps (h : r.Keeps r') (hown : ∀ id ∈ env.owner, (r.instance? id).isSome)
    (b : Binding) : b.valueIn r' env n = b.valueIn r env n := by
  cases b <;> simp [Binding.valueIn, h.frameOf hown, h.procs]

/-- What an instruction's slot shows stays shown while the renderer is kept. -/
theorem Instruction.Settled.keeps (h : r.Keeps r')
    (hown : ∀ id ∈ env.owner, (r.instance? id).isSome) {i : Instruction}
    (hs : i.Settled r env n) : i.Settled r' env n := by
  cases i <;> simp only [Instruction.Settled] at hs ⊢
  case dynamicProperty | dynamicAttribute | dynamicText | dynamicTextNode =>
    rwa [Binding.valueIn_keeps h hown]
  case ternary => rwa [h.frameOf hown, h.procs]
  case loop => rwa [h.frameOf hown, h.procs, h.config]
  case component =>
    obtain ⟨id, m, inst, hslot, hinst, hprops⟩ := hs
    exact ⟨id, m, inst, hslot, h.instance? hinst, hprops⟩
  all_goals exact hs

/-- A tree in sync stays in sync while the renderer is kept, its env's owner being there. -/
theorem Mounted.Synced.keeps (hs : n.Synced r env) (h : r.Keeps r')
    (hown : ∀ id ∈ env.owner, (r.instance? id).isSome) : n.Synced r' env := by
  induction hs with
  | @mk env n hset _ _ _ ihb ihl ihc =>
    refine .mk (fun i hi => (hset i hi).keeps h hown) ?_ ?_ ?_
    · exact fun t d b m p hi hslot => ihb t d b m p hi hslot hown
    · exact fun l p items hi hslot it hit => ihl l p items hi hslot it hit hown
    · -- the instance is there in `r` already, with the same props
      intro c id m inst hi hslot hinst
      obtain ⟨id', m', inst', hslot', hinst', -⟩ := (hset _ hi : Instruction.Settled r env n (.component c))
      rw [hslot] at hslot'
      cases hslot'
      obtain rfl : inst' = inst := Option.some.inj ((h.instance? hinst').symm.trans hinst)
      exact ihc c id m inst' hi hslot hinst' (by simp [hinst'])

end Keeping

end Canopy
