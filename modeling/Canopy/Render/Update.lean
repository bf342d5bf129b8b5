import Canopy.Render.Unmount

/-!
# Updating

A later pass over a mounted node follows the plan installed for its program, and leaves a node
whose program has none as it is. A dynamic value is computed again and
written only when it differs from the value in its slot. A ternary whose test keeps its
result updates its branch; one whose result changed unmounts the branch, removes its roots and
mounts the other branch in their place (unless re-branching is switched off). A loop reconciles
its items with the projected collection. A component takes the new props and updates its node.
Did-update hooks are deferred and refreshing event bindings take the new props.

A pass that stops at an error keeps what it did: `updateNode` hands back the node as the pass
left it together with the error. A loop that fails after projecting has lost its items.

## Reconciling a loop

The previous items are matched with the projected ones: first the common prefix and suffix of
equal keys, which are patched in place; then, if one side is used up, the rest is mounted or
removed. Otherwise the middle range is matched by key, matched items are patched, unmatched
previous items are removed, and the next range is walked from its end: new items are mounted
before the first root that follows them, and matched items that are not on a longest increasing
run of previous positions are moved there. When no previous item survives at all, the whole
list is cleared and the new items are mounted afresh.
-/

namespace Canopy

namespace Pass

/-- The passes over nested programs and nodes that a pass hands work to. -/
structure Subpasses where
  /-- Mount a program. -/
  mount : MountFn
  /-- Update a node, handing back the node as far as the pass got. -/
  update : Mounted → Env → RenderM (Mounted × Option RenderError)
  /-- Unmount a node. -/
  unmount : Mounted → RenderM Unit

/-- Update a leaf slot with a new value: write it through `write` only when it differs. -/
def refreshLeaf (node : Mounted) (s : Nat) (value : RenderM Value)
    (write : NodeId → String → RenderM Unit) : RenderM (Mounted × Option RenderError) := do
  match ← value.attempt with
  | .error e => pure (node, some e)
  | .ok v =>
    match node.slot? s with
    | some (.leaf h last) =>
      if last == v then pure (node, none)
      else
        write h v.contentText
        pure (node.setSlot s (.leaf h v), none)
    | _ => pure (node, some (.slotMismatch s "value"))

/-- Update a ternary at instruction position `k`. -/
def updateTernary (sub : Subpasses) (node : Mounted) (k : Nat) (spec : TernarySpec Program)
    (env : Env) : RenderM (Mounted × Option RenderError) := do
  match ← Bind.test env spec.test with
  | .error f => pure (node, some (.binding .ternary f))
  | .ok decision =>
    match node.slot? spec.slot with
    | some (.ternary d branch marker parent) =>
      if decision == d || !(← get).config.rebranchTernaries then
        let (branch', err) ← sub.update branch env
        pure (node.setSlot spec.slot (.ternary d branch' marker parent), err)
      else
        let oldRoots := match marker with
          | some m => [m]
          | none => branch.roots
        let anchor := oldRoots.getLast?.bind (← get).document.nextSibling?
        sub.unmount branch
        removeNodes parent oldRoots
        let program := if decision then spec.consequent else spec.alternate
        let site := node.site ++ [k, if decision then 0 else 1]
        match ← (mountBranch sub.mount site program env { parent, anchor }).attempt with
        | .ok (branch', marker') =>
          pure (node.setSlot spec.slot (.ternary decision branch' marker' parent), none)
        | .error e => pure (node, some e)
    | _ => pure (node, some (.slotMismatch spec.slot "ternary"))

/-- Remove a loop item: unmount it and remove its roots. -/
def removeItem (sub : Subpasses) (parent : NodeId) (it : LoopItem Mounted) : RenderM Unit := do
  sub.unmount it.node
  removeNodes parent it.node.roots

/-- Clear a loop's items: when the loop is its element's only child, unmount them all and
empty the element at once; otherwise remove them one by one. -/
def clearItems (sub : Subpasses) (spec : LoopSpec Program) (parent : NodeId)
    (items : List (LoopItem Mounted)) : RenderM Unit := do
  if spec.soleChild then
    for it in items do sub.unmount it.node
    RenderM.doc (·.setTextContent parent "")
  else
    for it in items do removeItem sub parent it

/-- Patch a kept item with its new projection: it takes the new props, and its node is
updated unless the should-update function says no. -/
def patchItem (sub : Subpasses) (spec : LoopSpec Program) (env : Env) (it : LoopItem Mounted)
    (p : Projected) : RenderM (LoopItem Mounted) := do
  let patch ← match spec.shouldUpdate with
    | some f => Bind.shouldUpdate env f it.props p.props
    | none => pure true
  let it := { it with props := p.props }
  if patch then
    let (node, err) ← sub.update it.node { env with props := it.props }
    match err with
    | some e => throw e
    | none => pure { it with node }
  else pure it

/-- Take the entry at a position, which must not have been taken before. -/
def take (xs : Array (Option α)) (i : Nat) : RenderM (α × Array (Option α)) :=
  match xs[i]? with
  | some (some x) => pure (x, xs.setIfInBounds i none)
  | _ => throw (.invariant "loop item consumed twice")

/-- The position tables of a reconcile: the previous items not yet taken, the projected items
not yet placed, and the next items placed so far. -/
structure Tables where
  /-- The previous items, by previous position. -/
  a : Array (Option (LoopItem Mounted))
  /-- The projected items, by next position. -/
  pending : Array (Option Projected)
  /-- The next items, by next position. -/
  b : Array (Option (LoopItem Mounted))

/-- The tables before any position is settled. -/
def Tables.start (prev : List (LoopItem Mounted)) (next : List Projected) : Tables :=
  ⟨(prev.map some).toArray, (next.map some).toArray, Array.replicate next.length none⟩

/-- Patch the previous item at position `i` with the projected item at next position `j`: both
are taken, and the patched item is put at `j` of the next items. -/
def patchAt (sub : Subpasses) (spec : LoopSpec Program) (env : Env) (t : Tables) (i j : Nat) :
    RenderM Tables := do
  let (it, a) ← take t.a i
  let (p, pending) ← take t.pending j
  let it ← patchItem sub spec env it p
  pure ⟨a, pending, t.b.setIfInBounds j (some it)⟩

/-- Mount the projected item at next position `j` before an anchor: it is taken, and the new
item is put at `j` of the next items. -/
def mountAt (sub : Subpasses) (site : List Nat) (spec : LoopSpec Program) (env : Env)
    (parent : NodeId) (t : Tables) (j : Nat) (anchor : Option NodeId) : RenderM Tables := do
  let (p, pending) ← take t.pending j
  let it ← mountItem sub.mount site spec env parent p anchor
  pure ⟨t.a, pending, t.b.setIfInBounds j (some it)⟩

/-- The first root of the first item at or after a position that has one. -/
def firstRootFrom (b : Array (Option (LoopItem Mounted))) (start : Nat) : Option NodeId :=
  ((b.toList.drop start).filterMap id).findSome? (·.node.firstRoot?)

/-- Patch the common prefix: the first positions of the two ranges move on together while both
ranges are non-empty and their keys agree, for at most `n` steps. -/
def trimPrefix (sub : Subpasses) (spec : LoopSpec Program) (env : Env) (aKeys bKeys : Array Key)
    (aEnd bEnd n : Nat) (t : Tables) : RenderM (Tables × Nat × Nat) := do
  let mut t := t
  let mut aStart := 0
  let mut bStart := 0
  for _ in [0:n] do
    if aStart < aEnd && bStart < bEnd && aKeys[aStart]? == bKeys[bStart]? then
      t ← patchAt sub spec env t aStart bStart
      aStart := aStart + 1
      bStart := bStart + 1
    else break
  pure (t, aStart, bStart)

/-- Patch the common suffix: the ends of the two ranges move back together while both ranges
are non-empty and their last keys agree, for at most `n` steps. -/
def trimSuffix (sub : Subpasses) (spec : LoopSpec Program) (env : Env) (aKeys bKeys : Array Key)
    (aStart bStart aEnd bEnd n : Nat) (t : Tables) : RenderM (Tables × Nat × Nat) := do
  let mut t := t
  let mut aEnd := aEnd
  let mut bEnd := bEnd
  for _ in [0:n] do
    if aStart < aEnd && bStart < bEnd && aKeys[aEnd - 1]? == bKeys[bEnd - 1]? then
      t ← patchAt sub spec env t (aEnd - 1) (bEnd - 1)
      aEnd := aEnd - 1
      bEnd := bEnd - 1
    else break
  pure (t, aEnd, bEnd)

/-- Mount the projected items of a next range, all before the first root that follows it. -/
def insertRange (sub : Subpasses) (site : List Nat) (spec : LoopSpec Program) (env : Env)
    (parent : NodeId) (bStart bEnd : Nat) (t : Tables) : RenderM Tables := do
  let anchor := firstRootFrom t.b bEnd
  let mut t := t
  for j in [bStart:bEnd] do
    t ← mountAt sub site spec env parent t j anchor
  pure t

/-- Remove the previous items of a range, each of which must be there. -/
def removeRange (sub : Subpasses) (parent : NodeId) (aStart aEnd : Nat) (t : Tables) :
    RenderM Tables := do
  let mut a := t.a
  for i in [aStart:aEnd] do
    let (it, a') ← take a i
    a := a'
    removeItem sub parent it
  pure { t with a }

/-- Patch the matched pairs of positions, in order. -/
def patchPairs (sub : Subpasses) (spec : LoopSpec Program) (env : Env)
    (pairs : List (Nat × Nat)) (t : Tables) : RenderM Tables := do
  let mut t := t
  for (i, j) in pairs do
    t ← patchAt sub spec env t i j
  pure t

/-- Replace the whole list: clear the previous items that are left and mount every projected
item that is left afresh. -/
def replaceAll (sub : Subpasses) (site : List Nat) (spec : LoopSpec Program) (env : Env)
    (parent : NodeId) (t : Tables) : RenderM (List (LoopItem Mounted)) := do
  clearItems sub spec parent (t.a.toList.filterMap id)
  let mut items : Array (LoopItem Mounted) := #[]
  for p in t.pending.toList.filterMap id do
    items := items.push (← mountItem sub.mount site spec env parent p none)
  return items.toList

/-- Remove the previous items of a range that are left. -/
def removeLeft (sub : Subpasses) (parent : NodeId) (aStart aEnd : Nat) (t : Tables) :
    RenderM Tables := do
  let mut a := t.a
  for i in [aStart:aEnd] do
    if let some (some it) := a[i]? then
      a := a.setIfInBounds i none
      removeItem sub parent it
  pure { t with a }

/-- Walk the next range of a matching from its end: unmatched items are mounted before the
first root that follows them, and matched items off a longest increasing run of previous
positions are moved there. -/
def placeMiddle (sub : Subpasses) (site : List Nat) (spec : LoopSpec Program) (env : Env)
    (parent : NodeId) (m : Matching) (bStart bLen : Nat) (t : Tables) : RenderM Tables := do
  let lis := if m.moved then Sequence.longestIncreasing m.sources else []
  let mut t := t
  let mut cursor := lis.length
  for offset in (List.range bLen).reverse do
    let j := bStart + offset
    let anchor := firstRootFrom t.b (j + 1)
    match m.sources[offset]? with
    | some none =>
      t ← mountAt sub site spec env parent t j anchor
    | some (some _) =>
      if m.moved then
        if cursor > 0 && lis[cursor - 1]? == some offset then cursor := cursor - 1
        else if let some (some it) := t.b[j]? then insertNodes parent it.node.roots anchor
    | none => pure ()
  pure t

/-- The next items, every one of which must have been placed. -/
def collect (t : Tables) : RenderM (List (LoopItem Mounted)) :=
  match t.b.toList.mapM id with
  | some items => pure items
  | none => throw (.invariant "loop position left unfilled")

/-- Reconcile a loop's non-empty previous items with its non-empty projection. -/
def reconcile (sub : Subpasses) (site : List Nat) (spec : LoopSpec Program) (env : Env)
    (parent : NodeId) (prev : List (LoopItem Mounted)) (next : List Projected) :
    RenderM (List (LoopItem Mounted)) := do
  let prevLen := prev.length
  let aKeys := (prev.map (·.key)).toArray
  let bKeys := (next.map (·.key)).toArray
  let (t, aStart, bStart) ←
    trimPrefix sub spec env aKeys bKeys prevLen next.length prevLen (Tables.start prev next)
  let (t, aEnd, bEnd) ←
    trimSuffix sub spec env aKeys bKeys aStart bStart prevLen next.length prevLen t
  if aStart == aEnd then
    -- only insertions are left
    collect (← insertRange sub site spec env parent bStart bEnd t)
  else if bStart == bEnd then
    -- only removals are left
    collect (← removeRange sub parent aStart aEnd t)
  else
    let aLen := aEnd - aStart
    let bLen := bEnd - bStart
    let m := if Matching.probesLinearly aLen bLen then Matching.linear aKeys bKeys aStart aEnd bStart bEnd
      else Matching.indexed aKeys bKeys aStart aEnd bStart bEnd
    let t ← patchPairs sub spec env m.pairs t
    if aLen == prevLen && m.synced == 0 then
      -- no previous item survives: replace the whole list
      replaceAll sub site spec env parent t
    else
      let t ← removeLeft sub parent aStart aEnd t
      collect (← placeMiddle sub site spec env parent m bStart bLen t)

/-- Bring a loop's items up to date with a projection: mount, clear or reconcile. -/
def reconcileAll (sub : Subpasses) (site : List Nat) (spec : LoopSpec Program) (env : Env)
    (parent : NodeId) (prev : List (LoopItem Mounted)) (next : List Projected) :
    RenderM (List (LoopItem Mounted)) :=
  match prev, next with
  | [], [] => pure []
  | [], _ => next.mapM fun p => mountItem sub.mount site spec env parent p none
  | _, [] => do
    clearItems sub spec parent prev
    pure []
  | _, _ => reconcile sub site spec env parent prev next

/-- Update a loop at instruction position `k`; after a failed projection the items stay, after
a later failure they are gone. -/
def updateLoop (sub : Subpasses) (node : Mounted) (k : Nat) (spec : LoopSpec Program)
    (env : Env) : RenderM (Mounted × Option RenderError) := do
  match node.slot? spec.slot with
  | some (.loop parent prev) =>
    match ← (project env spec).attempt with
    | .error e => pure (node, some e)
    | .ok next =>
      match ← (reconcileAll sub (node.site ++ [k, 0]) spec env parent prev next).attempt with
      | .ok items => pure (node.setSlot spec.slot (.loop parent items), none)
      | .error e => pure (node.setSlot spec.slot (.loop parent []), some e)
  | _ => pure (node, some (.slotMismatch spec.slot "loop"))

/-- Update a component: it takes the props of the pass when they differ, and its node is
updated with its own props. -/
def updateComponent (sub : Subpasses) (node : Mounted) (s : Nat) (env : Env) :
    RenderM (Mounted × Option RenderError) := do
  match node.slot? s with
  | some (.component id child) =>
    let props ← match (← get).instance? id with
      | some inst =>
        if inst.props == env.props then pure inst.props
        else
          RenderM.modifyInstance id fun i => { i with props := env.props }
          pure env.props
      | none => pure env.props
    let (child', err) ← sub.update child { owner := some id, props }
    pure (node.setSlot s (.component id child'), err)
  | _ => pure (node, some (.slotMismatch s "component"))

/-- Carry out one update op of the instruction at position `k`. -/
def updateOp (sub : Subpasses) (node : Mounted) (k : Nat) (op : UpdateOp) (env : Env) :
    RenderM (Mounted × Option RenderError) := do
  match op with
  | .property p b s => refreshLeaf node s (resolve b op.opcode env node) fun h t => writeProperty h p t
  | .attribute n b s =>
    refreshLeaf node s (resolve b op.opcode env node) fun h t => RenderM.doc (·.setAttribute h n t)
  | .text code b s =>
    refreshLeaf node s (resolve b code env node) fun h t => RenderM.doc (·.setTextContent h t)
  | .ternary t => updateTernary sub node k t env
  | .loop l => updateLoop sub node k l env
  | .component s => updateComponent sub node s env
  | .didUpdate cb =>
    RenderM.defer (.lifecycle .didUpdate cb env.owner)
    pure (node, none)
  | .refreshEvent name _ s =>
    match node.slot? s with
    | some (.event e) =>
      modify fun r => { r with events := r.events.refresh name e env.props }
      pure (node, none)
    | _ => pure (node, some (.slotMismatch s "event"))

/-- Update a node with an env; `fuel` bounds how deep nodes nest. The node comes back as far as
the pass got, with the error that stopped it. -/
def updateNode : Nat → Mounted → Env → RenderM (Mounted × Option RenderError)
  | 0, node, _ => pure (node, none)
  | fuel + 1, node, env => do
    -- the installed plan lists the instructions' update ops in order; the pass walks them with
    -- their instruction, whose position names the sites of the programs it mounts
    if ((← get).planAt? node.site).isNone then return (node, none)
    let sub : Subpasses :=
      ⟨fun s p e t => mount fuel s p e t, fun n e => updateNode fuel n e, unmount fuel⟩
    let mut node := node
    for (instr, k) in node.program.instructions.zipIdx do
      for op in instr.updateOps do
        let (node', err) ← updateOp sub node k op env
        node := node'
        if let some e := err then return (node, some e)
    pure (node, none)

end Pass

end Canopy
