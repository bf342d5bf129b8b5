import Canopy.Render.Loop

/-!
# Mounting

`mount` walks a program's instructions once and builds what they describe at a target:
elements are created when opened and placed when closed, under the innermost open element or,
at the top, before the target's anchor, where they become the node's roots. Dynamic values are
computed and written, and kept in their slots; ternaries mount the branch their test chooses,
loops mount one template node per projected item, components mount their program under a new
instance, event bindings register with the root's event tables, and did-mount hooks are
deferred. The first mount of a program collects its plan as it goes and installs it when it
completes; a mount that fails installs nothing.

A branch that places no root is marked by an empty text node at its place, so that a later
branch can be put there.
-/

namespace Canopy

namespace Pass

/-- A function's failure as the binding error of an instruction. -/
def orBinding (op : Opcode) : Except BindingFailure α → RenderM α
  | .ok a => pure a
  | .error f => throw (.binding op f)

/-- The innermost open element, fragments skipped. -/
def enclosing (stack : List (Option NodeId)) : Option NodeId :=
  stack.findSome? id

/-- The innermost open construct, which must be an element. -/
def current (stack : List (Option NodeId)) : RenderM NodeId :=
  match stack with
  | some e :: _ => pure e
  | _ => throw (.invariant "instruction requires an open element")

/-- Place a finished node: under the innermost open element, or at the target as a root. -/
def place (stack : List (Option NodeId)) (node : Mounted) (target : Target) (child : NodeId) :
    RenderM Mounted := do
  match enclosing stack with
  | some p =>
    RenderM.doc (·.appendChild p child)
    pure node
  | none =>
    RenderM.doc (·.insertBefore target.parent child target.anchor)
    pure (node.addRoot (.host child))

/-- Where a control structure places its roots: last under the innermost open element, or at
the target; and whether it is at the target. -/
def position (stack : List (Option NodeId)) (target : Target) : Target × Bool :=
  match enclosing stack with
  | some p => ({ parent := p }, false)
  | none => (target, true)

/-- Write a property's text to an element: the class, the `id` attribute or the style. -/
def writeProperty (h : NodeId) (p : Property) (text : String) : RenderM Unit :=
  match p with
  | .className => RenderM.doc (·.setClassName h text)
  | .id => RenderM.doc (·.setAttribute h "id" text)
  | .style => RenderM.doc (·.setStyle h text)

/-- The value of a binding: a compute script's result, a field of the props (null when
missing), or the value an earlier slot holds. -/
def resolve (b : Binding) (op : Opcode) (env : Env) (node : Mounted) : RenderM Value :=
  match b with
  | .compute s => do orBinding op (← Bind.compute env s)
  | .prop name => pure ((env.props.field? name).getD .null)
  | .sibling s => match node.slot? s with
    | some (.leaf _ v) => pure v
    | _ => throw (.slotMismatch s "value")

/-- A function that mounts a program at a site. -/
abbrev MountFn := List Nat → Program → Env → Target → RenderM Mounted

/-- Mount a ternary branch; a branch without roots gets an empty text node as its marker. -/
def mountBranch (mountFn : MountFn) (site : List Nat) (p : Program) (env : Env) (pos : Target) :
    RenderM (Mounted × Option NodeId) := do
  let branch ← mountFn site p env pos
  if branch.firstRoot?.isSome then pure (branch, none)
  else
    let marker ← RenderM.docWith (·.createText "")
    RenderM.doc (·.insertBefore pos.parent marker pos.anchor)
    pure (branch, some marker)

/-- Mount a component: compute its first state, create its instance, mount its program under
it, and register it once the program is mounted. -/
def mountComponent (mountFn : MountFn) (site : List Nat) (spec : ComponentSpec Program)
    (env : Env) (pos : Target) : RenderM Slot := do
  let props := env.props
  let state ← orBinding .componentInstance (← Bind.factory props spec.factory)
  let r ← get
  let id : InstanceId := ⟨r.instances.size + 1⟩
  set { r with instances := r.instances.push { id, props, state } }
  let node ← mountFn site spec.body { owner := some id, props } pos
  modify fun r => { r with registry := r.registry ++ [(id, r.container)] }
  pure (.component id node)

/-- Mount one loop item before an anchor. -/
def mountItem (mountFn : MountFn) (site : List Nat) (spec : LoopSpec Program) (env : Env)
    (parent : NodeId) (p : Projected) (anchor : Option NodeId) : RenderM (LoopItem Mounted) := do
  let node ← mountFn site spec.template { env with props := p.props } { parent, anchor }
  pure ⟨p.key, p.props, node⟩

/-- Mount a loop: one item per projected item, in order, last under the parent. -/
def mountLoop (mountFn : MountFn) (site : List Nat) (spec : LoopSpec Program) (env : Env)
    (parent : NodeId) : RenderM (List (LoopItem Mounted)) := do
  let projected ← project env spec
  projected.mapM fun p => mountItem mountFn site spec env parent p none

/-- Register an event binding of the pass's root. -/
def register (name : String) (e : NodeId) (reg : Registration) : RenderM Unit :=
  modify fun r =>
    let (events, document) := r.events.register r.document r.container name e reg
    { r with events, document }

/-- Mount instruction `instr`, at position `k` of its program, into the node built so far:
`stack` holds the open constructs, innermost first (`none` for a fragment). The answer is the
node and the open constructs after it. -/
def mountInstr (sub : MountFn) (site : List Nat) (env : Env) (target : Target) (node : Mounted)
    (stack : List (Option NodeId)) (instr : Instruction) (k : Nat) :
    RenderM (Mounted × List (Option NodeId)) :=
  match instr with
  | .openElement tag => do
    let e ← RenderM.docWith (·.createElement tag.name)
    pure (node, some e :: stack)
  | .closeElement =>
    match stack with
    | some e :: rest => do
      let node ← place rest node target e
      pure (node, rest)
    | _ => throw (.invariant "element close without an open element")
  | .openFragment => pure (node, none :: stack)
  | .closeFragment => pure (node, stack.drop 1)
  | .staticProperty p v => do
    writeProperty (← current stack) p v
    pure (node, stack)
  | .staticAttribute n v => do
    let e ← current stack
    RenderM.doc (·.setAttribute e n v)
    pure (node, stack)
  | .staticText t => do
    let e ← current stack
    RenderM.doc (·.setTextContent e t)
    pure (node, stack)
  | .staticTextNode t => do
    let n ← RenderM.docWith (·.createText t)
    let node ← place stack node target n
    pure (node, stack)
  | .dynamicProperty p b s => do
    let h ← current stack
    let v ← resolve b instr.opcode env node
    writeProperty h p v.contentText
    pure (node.setSlot s (.leaf h v), stack)
  | .dynamicAttribute n b s => do
    let h ← current stack
    let v ← resolve b instr.opcode env node
    RenderM.doc (·.setAttribute h n v.contentText)
    pure (node.setSlot s (.leaf h v), stack)
  | .dynamicText b s => do
    let h ← current stack
    let v ← resolve b .textDynamicContent env node
    RenderM.doc (·.setTextContent h v.contentText)
    pure (node.setSlot s (.leaf h v), stack)
  | .dynamicTextNode b s => do
    let v ← resolve b instr.opcode env node
    let h ← RenderM.docWith (·.createText v.contentText)
    let node ← place stack node target h
    pure (node.setSlot s (.leaf h v), stack)
  | .ternary t => do
    let decision ← orBinding .ternary (← Bind.test env t.test)
    let (pos, atRoot) := position stack target
    let (branch, marker) ← mountBranch sub (site ++ [k, if decision then 0 else 1])
      (if decision then t.consequent else t.alternate) env pos
    let node := node.setSlot t.slot (.ternary decision branch marker pos.parent)
    pure (if atRoot then node.addRoot (.slot t.slot) else node, stack)
  | .loop l => do
    let parent ← match enclosing stack with
      | some p => pure p
      | none => throw (.invariant "loop outside an element")
    let items ← mountLoop sub (site ++ [k, 0]) l env parent
    pure (node.setSlot l.slot (.loop parent items), stack)
  | .component c => do
    let (pos, atRoot) := position stack target
    let slot ← mountComponent sub (site ++ [k, 0]) c env pos
    let node := node.setSlot c.slot slot
    pure (if atRoot then node.addRoot (.slot c.slot) else node, stack)
  | .didMount cb => do
    RenderM.defer (.lifecycle .didMount cb env.owner)
    pure (node, stack)
  | .didUpdate _ => pure (node, stack)
  | .event n h s _ => do
    let e ← current stack
    register n e { handler := h, props := env.props, owner := env.owner }
    pure (node.setSlot s (.event e), stack)

/-- Mount a program at a site with an env at a target, one instruction after another;
`fuel` bounds how deep sub-programs may nest. A program without a plan collects one. -/
def mount : Nat → MountFn
  | 0, _, _, _, _ => throw (.invariant "programs nest deeper than the pass allows")
  | fuel + 1, site, program, env, target => do
    let sub : MountFn := fun s p e t => mount fuel s p e t
    let mut plan : Option PlanBuilder := if ((← get).planAt? site).isSome then none else some {}
    let mut node := Mounted.fresh site program
    let mut stack : List (Option NodeId) := []
    for (instr, k) in program.instructions.zipIdx do
      let r ← mountInstr sub site env target node stack instr k
      node := r.1
      stack := r.2
      plan := plan.map (·.push instr)
    RenderM.installPlan site (plan.map PlanBuilder.finish)
    pure node

end Pass

end Canopy
