import Canopy.Proofs.Render.Fresh
import Canopy.Proofs.Render.Idle
import Canopy.Proofs.Render.Mounting
import Canopy.Render.Root
import Canopy.Proofs.Render.Sessions
import Canopy.Program.Builder

/-!
# Rendering the same tree twice

The update op of a dynamic value writes it only when it differs from the value its slot holds,
and then leaves the new value in the slot (`Pass.updateOp_leaf_run`). A mount leaves its node in
sync with its props (`Pass.mount_syncs`), and an update of a node in sync writes nothing
(`Pass.updateNode_synced_idles`). So once a program has been rendered into a container that had
no root, rendering it again with the same props leaves the document, and with it the log, as it
was (`Renderer.render_again_keeps_document`), whether the second render succeeds or one of its
did-update hooks fails. This needs three things: no update is queued at the start, no script
the passes run queues one, and no loop of the program has a should-update function.

The last condition cannot be dropped. An item whose should-update function turns down its new
props still takes them, while its node keeps showing the old ones; a later render with the same
props lets the patch through, and the node's stale value is written then.
-/

namespace Canopy

/-! ## What a tree in sync reads of the renderer -/

section Congr

variable {r r' : Renderer} (hp : r'.procs = r.procs) (hc : r'.config = r.config)
  (hi : r'.instances = r.instances)
include hp hi

theorem Binding.valueIn_congr (env : Env) (n : Mounted) (b : Binding) :
    b.valueIn r' env n = b.valueIn r env n := by
  cases b <;> simp [Binding.valueIn, Renderer.frameOf, Renderer.instance?, hp, hi]

include hc in
theorem Instruction.Settled.congr {env : Env} {n : Mounted} {i : Instruction}
    (hs : i.Settled r env n) : i.Settled r' env n := by
  have hframe : r'.frameOf env = r.frameOf env := by
    simp [Renderer.frameOf, Renderer.instance?, hi]
  cases i <;> simp only [Instruction.Settled] at hs ⊢
  case dynamicProperty | dynamicAttribute | dynamicText | dynamicTextNode =>
    rwa [Binding.valueIn_congr hp hi]
  case ternary => rwa [hframe, hp]
  case loop => rwa [hframe, hp, hc]
  case component => simpa only [Renderer.instance?, hi] using hs
  all_goals exact hs

include hc in
/-- A tree in sync needs of the renderer only its procedures, options and instances: the
document, the roots, the log and the deferred callbacks may change under it. -/
theorem Mounted.Synced.congr {env : Env} {n : Mounted} (hs : n.Synced r env) :
    n.Synced r' env := by
  have hinst : ∀ id, r'.instance? id = r.instance? id := fun id => by
    simp only [Renderer.instance?, hi]
  induction hs with
  | mk hset _ _ _ ihb ihl ihc =>
    refine .mk (fun i hmem => (hset i hmem).congr hp hc hi) ihb ihl ?_
    intro c id m inst hmem hslot hinst'
    exact ihc c id m inst hmem hslot (by rwa [← hinst])

end Congr

/-! ## The write of a dynamic value -/

/-- The binding of a dynamic value's update op, and the change its write records for a handle
and a text: the class, the `id` attribute or the style for a property, the named attribute, or
the text content. -/
def UpdateOp.leafWrite? : UpdateOp → Option (Binding × (NodeId → String → DocOp))
  | .property .className b _ => some (b, .setClassName)
  | .property .id b _ => some (b, fun h t => .setAttribute h "id" t)
  | .property .style b _ => some (b, .setStyle)
  | .attribute n b _ => some (b, fun h t => .setAttribute h n t)
  | .text _ b _ => some (b, .setTextContent)
  | _ => none

namespace Pass

open RenderM

/-- A leaf refreshed through a write to the document: the node and the renderer are those after
the value when it equals the one in the slot, and otherwise the slot takes it and the document
the write. -/
theorem refreshLeaf_run_doc {node : Mounted} {s : Nat} {h : NodeId} {last v : Value}
    {value : RenderM Value} {write : NodeId → String → RenderM Unit}
    {f : NodeId → String → Document → Document} {r r₁ : Renderer}
    (hw : ∀ h t, write h t = RenderM.doc (f h t)) (hslot : node.slot? s = some (.leaf h last))
    (hv : value.run r = .ok v r₁) :
    (refreshLeaf node s value write).run r =
      if (last == v) = true then .ok (node, none) r₁
      else .ok (node.setSlot s (.leaf h v), none)
        { r₁ with document := f h v.contentText r₁.document } := by
  unfold refreshLeaf
  rw [run_bind_of_ok (RenderM.run_attempt_of_ok hv)]
  simp only [hslot]
  split
  · rfl
  · rw [EStateM.run_bind, hw]
    rfl

/-- The update op of a dynamic value whose slot holds a value writes the recomputed value only
when it differs from the one held, logging one write on the slot's handle, and then the slot
holds it; when they are equal the document stays as it is. -/
theorem updateOp_leaf_run {sub : Subpasses} {node : Mounted} {k : Nat} {op : UpdateOp}
    {env : Env} {r r₁ : Renderer} {b : Binding} {write : NodeId → String → DocOp} {s : Nat}
    {h : NodeId} {last v : Value} (hop : op.leafWrite? = some (b, write))
    (hs : op.slot? = some s) (hslot : node.slot? s = some (.leaf h last))
    (hv : (resolve b op.opcode env node).run r = .ok v r₁) :
    ∃ r', (updateOp sub node k op env).run r =
        .ok (if (last == v) = true then node else node.setSlot s (.leaf h v), none) r' ∧
      if (last == v) = true then r'.document = r.document
      else r'.document.log = r.document.log.push (write h v.contentText) := by
  have hdoc : r₁.document = r.document := (keepsDocument_resolve b op.opcode env node).ok hv
  -- each op refreshes its slot through a write that changes the document and logs one change
  have hleaf : ∀ (wr : NodeId → String → RenderM Unit) (f : NodeId → String → Document → Document),
      (∀ h t, wr h t = RenderM.doc (f h t)) →
      (∀ d h t, (f h t d).log = d.log.push (write h t)) →
      updateOp sub node k op env = refreshLeaf node s (resolve b op.opcode env node) wr →
      ∃ r', (updateOp sub node k op env).run r =
          .ok (if (last == v) = true then node else node.setSlot s (.leaf h v), none) r' ∧
        if (last == v) = true then r'.document = r.document
        else r'.document.log = r.document.log.push (write h v.contentText) := by
    intro wr f hw hlog hop'
    rw [hop', refreshLeaf_run_doc hw hslot hv]
    by_cases hc : (last == v) = true
    · simp only [hc, if_true]
      exact ⟨r₁, rfl, hdoc⟩
    · simp only [hc, if_false, Bool.false_eq_true]
      exact ⟨_, rfl, by rw [hlog, hdoc]⟩
  rcases op with ⟨p, b', s'⟩ | ⟨n, b', s'⟩ | ⟨code, b', s'⟩ | _ | _ | _ | _ | _
  · simp only [UpdateOp.slot?, Option.some.injEq] at hs
    subst hs
    cases p <;> simp only [UpdateOp.leafWrite?, Option.some.injEq, Prod.mk.injEq] at hop <;>
      obtain ⟨rfl, rfl⟩ := hop
    · exact hleaf _ (fun h t d => d.setClassName h t) (fun _ _ => rfl) (fun _ _ _ => rfl) rfl
    · exact hleaf _ (fun h t d => d.setAttribute h "id" t) (fun _ _ => rfl) (fun _ _ _ => rfl) rfl
    · exact hleaf _ (fun h t d => d.setStyle h t) (fun _ _ => rfl) (fun _ _ _ => rfl) rfl
  · simp only [UpdateOp.slot?, Option.some.injEq] at hs
    subst hs
    simp only [UpdateOp.leafWrite?, Option.some.injEq, Prod.mk.injEq] at hop
    obtain ⟨rfl, rfl⟩ := hop
    exact hleaf _ (fun h t d => d.setAttribute h n t) (fun _ _ => rfl) (fun _ _ _ => rfl) rfl
  · simp only [UpdateOp.slot?, Option.some.injEq] at hs
    subst hs
    simp only [UpdateOp.leafWrite?, Option.some.injEq, Prod.mk.injEq] at hop
    obtain ⟨rfl, rfl⟩ := hop
    exact hleaf _ (fun h t d => d.setTextContent h t) (fun _ _ => rfl)
      (fun d h t => Document.log_setTextContent d h t) rfl
  all_goals simp [UpdateOp.leafWrite?] at hop

/-! ## Deferred callbacks, the flush and the mount -/

theorem run_get_ok {r r' a : Renderer} (h : (get : RenderM Renderer).run r = .ok a r') :
    a = r ∧ r' = r := by
  cases h
  exact ⟨rfl, rfl⟩

/-- Deferred callbacks only run scripts: the document stays as it is. -/
theorem keepsDocument_runDeferred : KeepsDocument runDeferred := by
  refine .bind .get fun r => .bind (.modify fun _ => rfl) fun _ => ?_
  refine .bind (KeepsDocument.forIn (fun d _ => ?_) _) fun _ => .pure _
  cases d with
  | lifecycle kind cb owner =>
    refine .bind .get fun s => .bind (keepsDocument_script _ _) fun o => ?_
    cases o with
    | error e => exact .bind (.throw _) fun _ => .pure _
    | ok v => exact .pure _
  | settled cb owner =>
    refine .bind .get fun s => .bind (keepsDocument_script _ _) fun o => ?_
    cases o with
    | error e => exact .bind (.throw _) fun _ => .pure _
    | ok v => exact .pure _

/-- Deferred callbacks that queue nothing only add to the log. -/
theorem runDeferred_logged {r r' : Renderer} {u : Unit}
    (hq : ∀ d ∈ r.deferred, d.callback.Quiet r.procs) (h : runDeferred.run r = .ok u r') :
    ({ r with deferred := [] } : Renderer).Logged r' := by
  obtain ⟨r₁, r₂, h₁, h₂⟩ := run_bind_ok h
  obtain ⟨hr₁, hr₂⟩ := run_get_ok h₁
  rw [hr₁, hr₂] at h₂
  obtain ⟨u₁, r₃, h₃, h₄⟩ := run_bind_ok h₂
  cases h₃
  obtain ⟨u₂, r₄, h₄, h₅⟩ := run_bind_ok h₄
  obtain ⟨-, rfl⟩ := run_pure_ok h₅
  refine run_forIn_inv (fun _ s => ({ r with deferred := [] } : Renderer).Logged s) ?_
    (.refl _) h₄
  intro d hd c s step s' hs hrun
  have hquiet : ∀ f, Script.queued s.procs f d.callback = [] := by
    rw [hs.procs]
    exact hq d hd
  -- the two kinds of callback differ only in the frame and the error they report
  cases d <;> simp only [Deferred.callback] at hquiet <;>
  · obtain ⟨fr, s₁, h₅, h₆⟩ := run_bind_ok hrun
    obtain ⟨hfr, hs₁⟩ := run_get_ok h₅
    rw [hfr, hs₁] at h₆
    obtain ⟨o, s₂, h₇, h₈⟩ := run_bind_ok h₆
    obtain ⟨s₃, h₉, hl⟩ := script_logged _ hquiet
    rw [h₉] at h₇
    cases h₇
    split at h₈
    · cases h₈
    · obtain ⟨rfl, rfl⟩ := run_pure_ok h₈
      exact hs.trans hl

/-- With no update queued, a flush returns at once. -/
theorem flush_of_isEmpty {r : Renderer} (h : r.effects.queue.isEmpty = true) :
    flush.run r = .ok () r := by
  -- whatever number of rounds is left, the first check finds the queue empty
  have hrounds : ∀ left done, (flushRounds left done).run r = .ok () r := by
    intro left done
    cases left <;>
      simp [flushRounds, EStateM.run, bind, EStateM.bind, get, getThe, MonadStateOf.get,
        EStateM.get, h, pure, EStateM.pure]
  exact hrounds _ 0

theorem mount_ok_wellFormed {fuel : Nat} {site : List Nat} {q : Program} {env : Env}
    {target : Target} {r r' : Renderer} {n : Mounted} (hq : q.WellFormed) (hd : q.depth < fuel)
    (h : (mount fuel site q env target).run r = .ok n r') :
    (n.WellFormed ∧ n.program = q) ∧ r'.fibers = r.fibers := by
  have hrun := RenderM.triple_iff_run.1 (mount_sound fuel site q env target r.fibers hq hd) r rfl
  rw [h] at hrun
  exact hrun

end Pass

/-! ## Rendering twice -/

namespace Renderer

open RenderM Pass

/-- A render into a container with no root, with no update queued and a program whose passes
queue none, leaves the container a root of the program's number whose node is well formed and
in sync with the props, and nothing queued. -/
theorem render_fresh_synced {r₀ r₁ : Renderer} {c root : Nat} {P : Program} {p : Value}
    (hwf : P.WellFormed) (hq : P.Quiet r₀.procs) (hfresh : r₀.fiber? c = none)
    (hidle : r₀.effects.queue.isEmpty = true)
    (h : (render (some (root, P, p)) c).run r₀ = .ok () r₁) :
    ∃ f, r₁.fiber? c = some f ∧ f.root = root ∧ f.node.WellFormed ∧ f.node.program = P ∧
      f.node.Synced r₁ { props := p } ∧ r₁.procs = r₀.procs ∧
      r₁.effects.queue.isEmpty = true := by
  simp only [render] at h
  rw [run_bind_of_ok (show (modify fun r => { r with deferred := [] } : RenderM Unit).run r₀ =
    .ok () { r₀ with deferred := [] } from rfl)] at h
  rw [run_bind_of_ok (show (get : RenderM Renderer).run { r₀ with deferred := [] } =
    .ok { r₀ with deferred := [] } { r₀ with deferred := [] } from rfl)] at h
  have hf' : ({ r₀ with deferred := [] } : Renderer).fiber? c = none := hfresh
  simp only [hf'] at h
  obtain ⟨u, t₁, hm, h₄⟩ := run_bind_ok h
  obtain ⟨u', t₂, hd, hfl⟩ := run_bind_ok h₄
  simp only [mountRoot] at hm
  obtain ⟨u₁, t₀, hm₀, hm₁⟩ := run_bind_ok hm
  cases hm₀
  obtain ⟨n, t₀', hmount, hm₂⟩ := run_bind_ok hm₁
  cases hm₂
  obtain ⟨hsync, hk⟩ := mount_syncs r₀.procs _ _ _ _ _ _ _ _ hwf hq (by rfl)
    (by intro id hid; cases hid) hmount
  obtain ⟨⟨hnwf, hprog⟩, hfib⟩ := mount_ok_wellFormed hwf (Nat.lt_succ_self _) hmount
  -- the did-mount hooks the mount deferred queue nothing
  obtain ⟨ds, hds, hquiet⟩ := hk.deferred
  have hl := runDeferred_logged (by
    intro d hd'
    dsimp only at hd'
    rw [hds, List.append_nil] at hd'
    exact hk.procs ▸ hquiet d hd') hd
  have hqueue : t₂.effects.queue.isEmpty = true := by
    rw [hl.queue]
    dsimp only
    rw [hk.queue]
    exact hidle
  rw [flush_of_isEmpty hqueue] at hfl
  cases hfl
  refine ⟨⟨c, root, p, n, t₀'.events⟩, ?_, rfl, hnwf, hprog,
    Mounted.Synced.congr (r := t₀') hl.procs hl.config hl.instances hsync,
    hl.procs.trans hk.procs, hqueue⟩
  obtain ⟨fx, rfl, -⟩ := hl
  simp only [fiber?, List.find?_append, hfib] at hfresh ⊢
  simp [hfresh]

/-- Rendering a root's number again into a container whose root is in sync with the props, with
no update queued, leaves the document as it is: the update pass writes nothing, and its
did-update hooks only log. -/
theorem render_synced_keeps_document {r₁ : Renderer} {c root : Nat} {P : Program} {p : Value}
    {f : Fiber} (hf : r₁.fiber? c = some f) (hroot : f.root = root) (hwf : f.node.WellFormed)
    (hq : f.node.program.Quiet r₁.procs) (hu : f.node.program.Ungated)
    (hs : f.node.Synced r₁ { props := p }) (hidle : r₁.effects.queue.isEmpty = true) :
    finalDocument ((render (some (root, P, p)) c).run r₁) = r₁.document := by
  simp only [render]
  rw [run_bind_of_ok (show (modify fun r => { r with deferred := [] } : RenderM Unit).run r₁ =
    .ok () { r₁ with deferred := [] } from rfl)]
  rw [run_bind_of_ok (show (get : RenderM Renderer).run { r₁ with deferred := [] } =
    .ok { r₁ with deferred := [] } { r₁ with deferred := [] } from rfl)]
  have hf' : ({ r₁ with deferred := [] } : Renderer).fiber? c = some f := hf
  simp only [hf', hroot, beq_self_eq_true, if_true]
  -- the update pass starts from the renderer with the container's events
  let s₁ : Renderer := { r₁ with deferred := [], container := c, events := f.events }
  obtain ⟨s₂, hrun, hs₂⟩ := updateNode_synced_idles (r := s₁) (f.node.program.depth + 1) hwf hq hu
    (Mounted.Synced.congr (show s₁.procs = r₁.procs from rfl) rfl rfl hs) s₁ (.refl _)
  let s₃ : Renderer := { s₂ with fibers := s₂.fibers.map fun g =>
    if g.container == c then { g with props := p, node := f.node, events := s₂.events } else g }
  have hup : (updateRoot c p).run { r₁ with deferred := [] } = .ok () s₃ := by
    simp only [updateRoot]
    rw [run_bind_of_ok (show (get : RenderM Renderer).run { r₁ with deferred := [] } =
      .ok { r₁ with deferred := [] } { r₁ with deferred := [] } from rfl)]
    simp only [hf']
    rw [run_bind_of_ok (show (modify fun r => { r with container := c, events := f.events } :
      RenderM Unit).run { r₁ with deferred := [] } = .ok () s₁ from rfl), run_bind_of_ok hrun]
    rfl
  rw [run_bind_of_ok hup]
  have hdoc : s₃.document = r₁.document := hs₂.document
  cases hd : runDeferred.run s₃ with
  | error e s₄ =>
    have hk := keepsDocument_runDeferred s₃
    rw [hd] at hk
    rw [run_bind_of_error hd]
    exact hk.trans hdoc
  | ok u s₄ =>
    -- the did-update hooks the pass deferred queue nothing, so nothing is left to flush
    obtain ⟨ds, hds, hquiet⟩ := hs₂.keeps.deferred
    have hl := runDeferred_logged (r := s₃) (by
      intro d hd'
      rw [show s₃.deferred = ds from hds.trans (List.append_nil ds)] at hd'
      rw [show s₃.procs = s₁.procs from hs₂.keeps.procs]
      exact hquiet d hd') hd
    rw [run_bind_of_ok hd, flush_of_isEmpty (by rw [hl.queue, hs₂.keeps.queue]; exact hidle)]
    exact hl.document.trans hdoc

/-- Once a program is rendered into a container with no root, with no update queued, rendering
it again with the same props leaves the document as it was, whether the second render succeeds
or a did-update hook fails; none of the passes may queue an update, and no loop may have a
should-update function. -/
theorem render_again_keeps_document {r₀ r₁ : Renderer} {c root : Nat} {P : Program}
    {p : Value} (hwf : P.WellFormed) (hq : P.Quiet r₀.procs) (hu : P.Ungated)
    (hfresh : r₀.fiber? c = none) (hidle : r₀.effects.queue.isEmpty = true)
    (h : (render (some (root, P, p)) c).run r₀ = .ok () r₁) :
    finalDocument ((render (some (root, P, p)) c).run r₁) = r₁.document := by
  obtain ⟨f, hf, hroot, hnwf, hprog, hs, hprocs, hqueue⟩ := render_fresh_synced hwf hq hfresh hidle h
  refine render_synced_keeps_document hf hroot hnwf ?_ (hprog ▸ hu) hs hqueue
  rw [hprog, hprocs]
  exact hq

/-- A `p` element that shows the prop `name`, as words. -/
def nameWords : List Word :=
  ((({} : ProgramBuilder).openElement "p").textNodeFrom (.prop "name") 0 |>.close).words.toList

/-- The program `nameWords` decodes to. -/
def nameProgram : Program :=
  .mk [.openElement (.named "p"), .dynamicTextNode (.prop "name") 0, .closeElement] 1

theorem nameWords_decode : Program.decode nameWords = .ok nameProgram := by
  cbv

/-- The props of `nameProgram`: the name `Ada`. -/
def nameProps : Value := .obj [("name", .str "Ada")]

/-- `nameProgram` rendered once into a fresh container. -/
def namedOnce : Renderer :=
  RenderM.finalRenderer ((render (some (0, nameProgram, nameProps)) 0).run
    (init {} Document.oneContainer []))

/-- A `ul` whose loop of `li` rows keyed by `k` shows each row's `v`; its should-update function
lets a kept row be patched only when its props stay the same, as words. -/
def gatedWords : List Word :=
  ((({} : ProgramBuilder).openElement "ul").loopMap
    ⟨.arr [.str "get", .arr [.str "props"], .str "items"]⟩ 0
    ⟨.arr [.str "get", .arr [.str "item"], .str "k"]⟩
    { props := some ⟨.arr [.str "item"]⟩,
      shouldUpdate := some ⟨.arr [.str "eq", .arr [.str "prev"], .arr [.str "next"]]⟩ }
    ((({} : ProgramBuilder).openElement "li").dynamicText
      ⟨.arr [.str "get", .arr [.str "props"], .str "v"]⟩ 0 |>.close) |>.close).words.toList

/-- The program `gatedWords` decodes to. -/
def gatedProgram : Program :=
  .mk [.openElement (.named "ul"),
    .loop ⟨⟨.arr [.str "get", .arr [.str "props"], .str "items"]⟩, 0,
      ⟨.arr [.str "get", .arr [.str "item"], .str "k"]⟩, some ⟨.arr [.str "item"]⟩,
      some ⟨.arr [.str "eq", .arr [.str "prev"], .arr [.str "next"]]⟩,
      .mk [.openElement (.named "li"),
        .dynamicText (.compute ⟨.arr [.str "get", .arr [.str "props"], .str "v"]⟩) 0,
        .closeElement] 1, true⟩,
    .closeElement] 1

theorem gatedWords_decode : Program.decode gatedWords = .ok gatedProgram := by
  cbv

/-- Render `gatedProgram` into the container `0` with one row, keyed `1`, showing `v`. -/
def renderGated (v : Int) : RenderM Unit :=
  render (some (0, gatedProgram, .obj [("items", .arr [.obj [("k", .int 1), ("v", .int v)]])])) 0

/-- The row rendered with `v = 0`. -/
def gatedOnce : Renderer :=
  RenderM.finalRenderer ((renderGated 0).run (init {} Document.oneContainer []))

/-- Then rendered with `v = 1`. -/
def gatedTwice : Renderer :=
  RenderM.finalRenderer ((renderGated 1).run gatedOnce)

end Renderer

end Canopy
