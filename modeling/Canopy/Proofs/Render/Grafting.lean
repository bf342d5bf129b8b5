import Canopy.Proofs.Render.Nesting

/-!
# A mount grafts new nodes under older ones

A mount creates the nodes of its program as it reads it, and attaches each either under an element
it opened before, so under an older node, or under the target's parent, a node the arena had
before the mount began. It attaches no node it did not create. So the document stays a forest
(`mount_nests`), and the node it builds nests in the arena: its roots are new nodes, the parent
each ternary records is the target's parent or an open element, and the items of each loop are
mounted after the loop's element was created, so their roots are younger than it.

`Building` is what holds of a mount in progress: the open elements are new, each younger than the
ones around it, and the node built so far nests in the arena with new roots.
-/

namespace Canopy

namespace Pass

open Document RenderM

/-- A mount function keeps the document a forest, and at a target whose parent is one of the
first `s` nodes it mounts a node that nests in the arena and whose roots are not among them. -/
def MountFn.Nests (f : MountFn) : Prop :=
  ∀ (site : List Nat) (q : Program) (env : Env) (t : Target) (s : Nat), t.parent < s →
    Forested (fun d => s ≤ d.nodes.size) (f site q env t)
      fun n d => s ≤ d.nodes.size ∧ n.Nested d.nodes.size ∧
        ∀ x : Nat, x ∈ n.roots → s ≤ x ∧ x < d.nodes.size

/-- A mount in progress that began with `s` nodes: the open elements are new, each younger than
those around it, and the node nests in the arena with new roots. -/
structure Building (s : Nat) (node : Mounted) (stack : List (Option NodeId)) (d : Document) :
    Prop where
  size_le : s ≤ d.nodes.size
  open_new : ∀ e : Nat, some e ∈ stack → s ≤ e ∧ e < d.nodes.size
  open_ordered : (stack.filterMap id).Pairwise (· > ·)
  nested : node.Nested d.nodes.size
  roots : ∀ x : Nat, x ∈ node.roots → s ≤ x ∧ x < d.nodes.size

namespace Building

variable {s : Nat} {node : Mounted} {stack stack' : List (Option NodeId)} {d d' : Document}

theorem of_size_le (h : Building s node stack d) (hs : d.nodes.size ≤ d'.nodes.size) :
    Building s node stack d' where
  size_le := Nat.le_trans h.size_le hs
  open_new e he := ⟨(h.open_new e he).1, Nat.lt_of_lt_of_le (h.open_new e he).2 hs⟩
  open_ordered := h.open_ordered
  nested := h.nested.mono hs
  roots x hx := ⟨(h.roots x hx).1, Nat.lt_of_lt_of_le (h.roots x hx).2 hs⟩

theorem upward : Upward (Building s node stack) :=
  fun _ _ h hg => h.of_size_le hg.size_le

theorem start (hs : s ≤ d.nodes.size) (site : List Nat) (p : Program) :
    Building s (Mounted.fresh site p) [] d where
  size_le := hs
  open_new _ he := absurd he List.not_mem_nil
  open_ordered := List.Pairwise.nil
  nested := Mounted.nested_fresh site p
  roots _ hx := absurd hx (by simp)

theorem sublist (h : Building s node stack d) (hsub : List.Sublist stack' stack) :
    Building s node stack' d where
  size_le := h.size_le
  open_new e he := h.open_new e (hsub.subset he)
  open_ordered := h.open_ordered.sublist (hsub.filterMap id)
  nested := h.nested
  roots := h.roots

/-- A new element opens innermost. -/
theorem push (h : Building s node stack d) (hs : d'.nodes.size = d.nodes.size + 1) :
    Building s node (some d.nodes.size :: stack) d' := by
  have hle : d.nodes.size ≤ d'.nodes.size := hs ▸ Nat.le_succ _
  have hlt : d.nodes.size < d'.nodes.size := hs ▸ Nat.lt_succ_self _
  refine { h.of_size_le hle with open_new := fun e he => ?_, open_ordered := ?_ }
  · rcases List.mem_cons.1 he with he | he
    · rw [Option.some.inj he]
      exact ⟨h.size_le, hlt⟩
    · exact (h.of_size_le hle).open_new e he
  · -- every element open before is older than the new one
    simp only [List.filterMap_cons, id, List.pairwise_cons]
    refine ⟨fun p hp => ?_, h.open_ordered⟩
    obtain ⟨o, ho, rfl⟩ := List.mem_filterMap.1 hp
    exact (h.open_new p ho).2

theorem pushFragment (h : Building s node stack d) : Building s node (none :: stack) d where
  size_le := h.size_le
  open_new e he := h.open_new e ((List.mem_cons.1 he).resolve_left nofun)
  open_ordered := by simpa using h.open_ordered
  nested := h.nested
  roots := h.roots

theorem enclosing_lt {e : NodeId} {rest : List (Option NodeId)}
    (h : Building s node (some e :: rest) d) {p : NodeId} (hp : enclosing rest = some p) :
    p < e := by
  have hord := h.open_ordered
  simp only [List.filterMap_cons, id, List.pairwise_cons] at hord
  exact hord.1 p (List.mem_filterMap.2 ⟨some p, mem_of_enclosing hp, rfl⟩)

/-- Filling a slot with what points into the arena and stands for new roots. -/
theorem setSlot (h : Building s node stack d) {x : Slot} (hx : x.Points d.nodes.size)
    (hxn : ∀ m ∈ x.nodes, m.Nested d.nodes.size)
    (hxr : ∀ z : Nat, z ∈ x.roots → s ≤ z ∧ z < d.nodes.size) (i : Nat) :
    Building s (node.setSlot i x) stack d where
  size_le := h.size_le
  open_new := h.open_new
  open_ordered := h.open_ordered
  nested := h.nested.setSlot hx hxn i
  roots z hz := (Mounted.mem_roots_setSlot hz).elim (h.roots z) fun hz => hxr z hz.1

theorem addRoot (h : Building s node stack d) {ref : RootRef}
    (hr : ∀ z : Nat, z ∈ ref.resolve node.slots → s ≤ z ∧ z < d.nodes.size) :
    Building s (node.addRoot ref) stack d where
  size_le := h.size_le
  open_new := h.open_new
  open_ordered := h.open_ordered
  nested := h.nested.addRoot ref
  roots z hz := by
    rw [Mounted.roots_addRoot, List.mem_append] at hz
    exact hz.elim (h.roots z) (hr z)

/-- Filling a slot, and making it a root when the mount is at its target. -/
theorem setSlotRoot (h : Building s node stack d) {x : Slot} (hx : x.Points d.nodes.size)
    (hxn : ∀ m ∈ x.nodes, m.Nested d.nodes.size)
    (hxr : ∀ z : Nat, z ∈ x.roots → s ≤ z ∧ z < d.nodes.size) (i : Nat) (atRoot : Bool) :
    Building s (if atRoot then (node.setSlot i x).addRoot (.slot i) else node.setSlot i x)
      stack d := by
  have h₁ := h.setSlot hx hxn hxr i
  cases atRoot with
  | false => exact h₁
  | true =>
    refine h₁.addRoot fun z hz => hxr z ?_
    simp only [RootRef.resolve, Mounted.slots_setSlot, Array.getElem?_setIfInBounds,
      if_true] at hz
    split at hz
    · simpa using hz
    · simp at hz

end Building

/-! ## Each part of a mount -/

variable {s : Nat}

/-- Writing a property keeps the forest and its size. -/
theorem writeProperty_forested {P : Document → Prop} (hP : Upward P) (h : NodeId) (p : Property)
    (text : String) : Forested P (writeProperty h p text) fun _ => P := by
  cases p with
  | className =>
    exact .doc_upward hP fun d hd => ⟨hd.setClassName h text, by
      simp [setClassName, nodes_size_modifyElement]⟩
  | id =>
    exact .doc_upward hP fun d hd => ⟨hd.setAttribute h "id" text, by
      simp [setAttribute, nodes_size_modifyElement]⟩
  | style =>
    exact .doc_upward hP fun d hd => ⟨hd.setStyle h text, by
      simp [setStyle, nodes_size_modifyElement]⟩

theorem setAttribute_forested {P : Document → Prop} (hP : Upward P) (h : NodeId)
    (name value : String) : Forested P (RenderM.doc (·.setAttribute h name value)) fun _ => P :=
  .doc_upward hP fun d hd => ⟨hd.setAttribute h name value, by
    simp [setAttribute, nodes_size_modifyElement]⟩

theorem setTextContent_forested {P : Document → Prop} (hP : Upward P) (h : NodeId)
    (text : String) : Forested P (RenderM.doc (·.setTextContent h text)) fun _ => P :=
  .doc_upward hP fun d hd => ⟨hd.setTextContent h text, size_le_setTextContent d h text⟩

/-- Placing a new node: under the innermost open element, older than it, or at the target, whose
parent is older than every new node. -/
theorem place_nests {node : Mounted} {stack : List (Option NodeId)} {target : Target}
    (hP : target.parent < s) {child : Nat} :
    Forested (fun d => Building s node stack d ∧ s ≤ child ∧
        child < d.nodes.size ∧ ∀ p : Nat, enclosing stack = some p → p < child)
      (place stack node target child) fun node' d => Building s node' stack d := by
  unfold place
  split
  · rename_i p hp
    refine .bind (Q := fun _ d => Building s node stack d)
      (.doc fun d hd h => ⟨hd.attach none h.2.2.1 (h.2.2.2 p hp), ?_, ?_⟩) fun _ =>
        .pure fun _ h => h
    · simp [appendChild]
    · exact h.1.of_size_le (by simp [appendChild])
  · refine .bind (Q := fun _ d => Building s (node.addRoot (.host child)) stack d)
      (.doc fun d hd h => ⟨hd.attach target.anchor h.2.2.1 (Nat.lt_of_lt_of_le hP h.2.1), ?_, ?_⟩)
      fun _ => .pure fun _ h => h
    · simp [insertBefore]
    · refine (h.1.of_size_le (by simp [insertBefore])).addRoot fun z hz => ?_
      simp only [RootRef.resolve, List.mem_singleton] at hz
      subst hz
      simpa [insertBefore] using ⟨h.2.1, h.2.2.1⟩

theorem current_forested {P : Document → Prop} (stack : List (Option NodeId)) :
    Forested P (current stack) fun _ => P := by
  unfold current
  split
  · exact .pure fun _ h => h
  · exact .throw

/-- Registering an event binding may make the container listen, which changes no link. -/
theorem register_forested {P : Document → Prop} (hP : Upward P) (name : String) (e : NodeId)
    (reg : Registration) : Forested P (register name e reg) fun _ => P := by
  intro r hf hp
  have hg : r.document.Grown (r.events.register r.document r.container name e reg).2 := by
    unfold EventTables.register
    split
    · exact .refl hf
    · exact ⟨hf.addListener _ _, by simp [nodes_addListener]⟩
  show r.document.Grown (r.events.register r.document r.container name e reg).2 ∧
    P (r.events.register r.document r.container name e reg).2
  exact ⟨hg, hP _ _ hp hg⟩

/-! ## Sub-programs -/

section Sub

variable {f : MountFn} (hf : MountFn.Nests f) (site : List Nat) (env : Env)
include hf

/-- A branch is mounted with new roots, or marked by a new empty text node placed under the
branch's parent, which is older. -/
theorem mountBranch_nests (q : Program) {pos : Target} (hpos : pos.parent < s) :
    Forested (fun d => s ≤ d.nodes.size) (mountBranch f site q env pos)
      fun bm d => s ≤ d.nodes.size ∧ bm.1.Nested d.nodes.size ∧
        ∀ x : Nat, x ∈ bm.1.roots ++ bm.2.toList → s ≤ x ∧ x < d.nodes.size := by
  unfold mountBranch
  refine .bind (hf site q env pos s hpos) fun branch => ?_
  split
  · exact .pure fun d h => ⟨h.1, h.2.1, by simpa using h.2.2⟩
  · -- the marker is the newest node, so its parent is older
    refine .bind (Q := fun m d => s ≤ m ∧ m + 1 = d.nodes.size ∧ branch.Nested d.nodes.size ∧
        ∀ x : Nat, x ∈ branch.roots → s ≤ x ∧ x < d.nodes.size)
      (.docWith fun d hd h => ⟨hd.createText "", by simp, ?_⟩) fun m => ?_
    · refine ⟨h.1, by simp, h.2.1.mono (by simp), fun x hx => ?_⟩
      have := h.2.2 x hx
      simp only [size_createText]
      omega
    refine .bind (Q := fun _ d => s ≤ m ∧ m + 1 = d.nodes.size ∧ branch.Nested d.nodes.size ∧
        ∀ x : Nat, x ∈ branch.roots → s ≤ x ∧ x < d.nodes.size)
      (.doc fun d hd h => ⟨hd.attach pos.anchor (by omega) (Nat.lt_of_lt_of_le hpos h.1),
        by simp [insertBefore],
        by simpa [insertBefore] using h⟩) fun _ => .pure fun d h => ⟨by omega, h.2.2.1, ?_⟩
    intro x hx
    rcases List.mem_append.1 hx with hx | hx
    · exact h.2.2.2 x hx
    · simp only [Option.toList_some, List.mem_singleton] at hx
      omega

/-- A component's node is mounted with new roots. -/
theorem mountComponent_nests (c : ComponentSpec Program) {pos : Target} (hpos : pos.parent < s) :
    Forested (fun d => s ≤ d.nodes.size) (mountComponent f site c env pos)
      fun sl d => s ≤ d.nodes.size ∧ sl.Points d.nodes.size ∧
        (∀ m ∈ sl.nodes, m.Nested d.nodes.size) ∧
        ∀ x : Nat, x ∈ sl.roots → s ≤ x ∧ x < d.nodes.size := by
  unfold mountComponent
  refine .keep_bind (keepsDocument_factory _ _) fun x => ?_
  refine .keep_bind (keepsDocument_orBinding _ _) fun state => ?_
  refine .bind .get fun r => .bind (.set fun _ h => h.2.symm) fun _ => ?_
  refine .bind ((hf site c.body _ pos s hpos).mono (fun _ h => h.1) fun _ _ h => h) fun n => ?_
  refine .bind (.modify fun _ => rfl) fun _ => .pure fun d h => ⟨h.1, trivial, ?_, ?_⟩
  · simpa [Slot.nodes] using h.2.1
  · simpa [Slot.roots] using h.2.2

theorem mountItem_nests (spec : LoopSpec Program) {parent : NodeId} (hP : parent < s)
    (p : Projected) (anchor : Option NodeId) :
    Forested (fun d => s ≤ d.nodes.size) (mountItem f site spec env parent p anchor)
      fun it d => s ≤ d.nodes.size ∧ it.node.Nested d.nodes.size ∧
        ∀ x : Nat, x ∈ it.node.roots → s ≤ x ∧ x < d.nodes.size := by
  unfold mountItem
  exact .bind (hf site spec.template _ ⟨parent, anchor⟩ s hP) fun n => .pure fun _ h => h

theorem mountLoop_nests (spec : LoopSpec Program) {parent : NodeId} (hP : parent < s) :
    Forested (fun d => s ≤ d.nodes.size) (mountLoop f site spec env parent)
      fun items d => s ≤ d.nodes.size ∧ ∀ it ∈ items, it.node.Nested d.nodes.size ∧
        it.RootedUnder parent d.nodes.size := by
  unfold mountLoop
  refine .keep_bind (keepsDocument_project env spec) fun ps => ?_
  refine (Forested.mapM (R := fun it d => it.node.Nested d.nodes.size ∧
      it.RootedUnder parent d.nodes.size) (fun it => fun _ _ h hg =>
        ⟨h.1.mono hg.size_le, h.2.mono hg.size_le⟩) fun p => ?_).mono (fun _ h => h)
    fun _ _ h => h
  refine (mountItem_nests hf site env spec hP p none).mono (fun _ h => h) fun it d h =>
    ⟨h.1, h.2.1, fun x hx => ?_⟩
  exact ⟨Nat.lt_of_lt_of_le hP (h.2.2 x hx).1, (h.2.2 x hx).2⟩

omit hf in
theorem mem_roots_ternary {d : Bool} {b : Mounted} {m : Option NodeId} {q : NodeId} {x : Nat}
    (hx : x ∈ (Slot.ternary d b m q).roots) : x ∈ b.roots ++ m.toList := by
  cases m with
  | none => simpa [Slot.roots] using hx
  | some y =>
    simp only [Slot.roots, List.mem_singleton] at hx
    simp [hx]

/-! ## Each instruction -/

omit hf in
/-- Where a sub-program is mounted, under the innermost open element or at the target, there is
a bound between the nodes the mount began with and the document that its parent is under. -/
theorem position_fits {target : Target} {node : Mounted} {stack : List (Option NodeId)}
    (hP : target.parent < s) (hopen : ∀ e : Nat, enclosing stack = some e → ∀ d,
      Building s node stack d → e + 1 ≤ d.nodes.size ∧ s ≤ e) :
    ∃ s', (position stack target).1.parent < s' ∧
      ∀ d, Building s node stack d → s ≤ s' ∧ s' ≤ d.nodes.size := by
  cases hq : enclosing stack with
  | none =>
    exact ⟨s, by simpa [position, hq] using hP, fun d h => ⟨Nat.le_refl _, h.size_le⟩⟩
  | some e =>
    exact ⟨e + 1, by simp [position, hq], fun d h =>
      ⟨Nat.le_succ_of_le (hopen e hq d h).2, (hopen e hq d h).1⟩⟩

/-- Each instruction keeps a mount in progress at a target whose parent is older than every new
node. Elements are attached when closed, under the element around them, which is older; the
sub-programs of ternaries, loops and components are mounted under the innermost open element
or at the target, both older than what they mount. -/
theorem mountInstr_nests {target : Target} (hP : target.parent < s) (node : Mounted)
    (stack : List (Option NodeId)) (instr : Instruction) (k : Nat) :
    Forested (Building s node stack) (mountInstr f site env target node stack instr k)
      fun res d => Building s res.1 res.2 d := by
  -- an element open where a sub-program is mounted is older than the nodes it mounts
  have hopen : ∀ e : Nat, enclosing stack = some e → ∀ d, Building s node stack d →
      e + 1 ≤ d.nodes.size ∧ s ≤ e :=
    fun e he d h => ⟨(h.open_new e (mem_of_enclosing he)).2, (h.open_new e (mem_of_enclosing he)).1⟩
  cases instr with
  | openElement tag =>
    simp only [mountInstr]
    exact .bind (Q := fun e d => Building s node (some e :: stack) d)
      (.docWith fun d hd h => ⟨hd.createElement _, by simp, h.push (by simp)⟩) fun e =>
        .pure fun _ h => h
  | closeElement =>
    simp only [mountInstr]
    split
    · rename_i e rest
      refine .bind (place_nests hP |>.mono (fun d h => ⟨h.sublist (List.sublist_cons_self _ _),
        (h.open_new e List.mem_cons_self).1, (h.open_new e List.mem_cons_self).2,
        fun p hp => h.enclosing_lt hp⟩) fun _ _ h => h) fun node' => .pure fun _ h => h
    · exact .throw
  | openFragment => exact .pure fun _ h => h.pushFragment
  | closeFragment => exact .pure fun _ h => h.sublist (List.drop_sublist 1 stack)
  | staticProperty prop v =>
    exact .bind (current_forested stack) fun e =>
      .bind (writeProperty_forested Building.upward e prop v) fun _ => .pure fun _ h => h
  | staticAttribute name v =>
    exact .bind (current_forested stack) fun e =>
      .bind (setAttribute_forested Building.upward e name v) fun _ => .pure fun _ h => h
  | staticText t =>
    exact .bind (current_forested stack) fun e =>
      .bind (setTextContent_forested Building.upward e t) fun _ => .pure fun _ h => h
  | staticTextNode t =>
    simp only [mountInstr]
    refine .bind (Q := fun n d => Building s node stack d ∧ s ≤ n ∧ n < d.nodes.size ∧
        ∀ p : Nat, some p ∈ stack → p < n)
      (.docWith fun d hd h => ⟨hd.createText t, by simp, h.of_size_le (by simp), h.size_le,
        by simp, fun p hp => (h.open_new p hp).2⟩) fun n => ?_
    exact .bind (place_nests hP |>.mono (fun d h => ⟨h.1, h.2.1, h.2.2.1,
      fun p hp => h.2.2.2 p (mem_of_enclosing hp)⟩) fun _ _ h => h) fun node' => .pure fun _ h => h
  | dynamicProperty prop b i =>
    exact .bind (current_forested stack) fun e =>
      .keep_bind (keepsDocument_resolve b _ env node) fun v =>
        .bind (writeProperty_forested Building.upward e prop _) fun _ =>
          .pure fun _ h => h.setSlot (x := .leaf e v) trivial (by simp [Slot.nodes])
            (by simp [Slot.roots]) i
  | dynamicAttribute name b i =>
    exact .bind (current_forested stack) fun e =>
      .keep_bind (keepsDocument_resolve b _ env node) fun v =>
        .bind (setAttribute_forested Building.upward e name _) fun _ =>
          .pure fun _ h => h.setSlot (x := .leaf e v) trivial (by simp [Slot.nodes])
            (by simp [Slot.roots]) i
  | dynamicText b i =>
    exact .bind (current_forested stack) fun e =>
      .keep_bind (keepsDocument_resolve b _ env node) fun v =>
        .bind (setTextContent_forested Building.upward e _) fun _ =>
          .pure fun _ h => h.setSlot (x := .leaf e v) trivial (by simp [Slot.nodes])
            (by simp [Slot.roots]) i
  | dynamicTextNode b i =>
    simp only [mountInstr]
    refine .keep_bind (keepsDocument_resolve b _ env node) fun v => ?_
    refine .bind (Q := fun n d => Building s node stack d ∧ s ≤ n ∧ n < d.nodes.size ∧
        ∀ p : Nat, some p ∈ stack → p < n)
      (.docWith fun d hd h => ⟨hd.createText _, by simp, h.of_size_le (by simp), h.size_le,
        by simp, fun p hp => (h.open_new p hp).2⟩) fun n => ?_
    exact .bind (place_nests hP |>.mono (fun d h => ⟨h.1, h.2.1, h.2.2.1,
      fun p hp => h.2.2.2 p (mem_of_enclosing hp)⟩) fun _ _ h => h) fun node' =>
        .pure fun _ h => h.setSlot (x := .leaf n v) trivial (by simp [Slot.nodes])
          (by simp [Slot.roots]) i
  | ternary t =>
    simp only [mountInstr]
    refine .keep_bind (Bind.keepsDocument_test env t.test) fun x =>
      .keep_bind (keepsDocument_orBinding _ _) fun decision => ?_
    obtain ⟨s', hpos, hfit⟩ := position_fits hP hopen
    generalize position stack target = pa at hpos
    obtain ⟨pos, atRoot⟩ := pa
    refine .bind (((mountBranch_nests hf _ env _ hpos).frame Building.upward).mono
      (fun d h => ⟨(hfit d h).2, h⟩) fun _ _ h => h) fun bm => ?_
    obtain ⟨branch, marker⟩ := bm
    exact .pure fun d h => h.2.setSlotRoot (x := .ternary decision branch marker pos.parent)
      (Nat.lt_of_lt_of_le hpos h.1.1) (by simpa [Slot.nodes] using h.1.2.1)
      (fun z hz => ⟨Nat.le_trans (hfit d h.2).1 (h.1.2.2 z (mem_roots_ternary hz)).1,
        (h.1.2.2 z (mem_roots_ternary hz)).2⟩) t.slot atRoot
  | loop l =>
    simp only [mountInstr]
    cases hq : enclosing stack with
    | none => exact .throw_bind
    | some e =>
      simp only [pure_bind]
      refine .bind (((mountLoop_nests hf _ env l (Nat.lt_succ_self e)).frame
        Building.upward).mono (fun d h => ⟨(hopen e hq d h).1, h⟩) fun _ _ h => h) fun items => ?_
      refine .pure fun d h => h.2.setSlot (x := .loop e items)
        ⟨Nat.lt_of_succ_le h.1.1, fun it hit => (h.1.2 it hit).2⟩ ?_ (by simp [Slot.roots]) l.slot
      simp only [Slot.nodes, List.mem_map]
      rintro m ⟨it, hit, rfl⟩
      exact (h.1.2 it hit).1
  | component c =>
    simp only [mountInstr]
    obtain ⟨s', hpos, hfit⟩ := position_fits hP hopen
    generalize position stack target = pa at hpos
    obtain ⟨pos, atRoot⟩ := pa
    refine .bind (((mountComponent_nests hf _ env c hpos).frame Building.upward).mono
      (fun d h => ⟨(hfit d h).2, h⟩) fun _ _ h => h) fun sl => ?_
    exact .pure fun d h => h.2.setSlotRoot h.1.2.1 h.1.2.2.1
      (fun z hz => ⟨Nat.le_trans (hfit d h.2).1 (h.1.2.2.2 z hz).1, (h.1.2.2.2 z hz).2⟩)
      c.slot atRoot
  | didMount cb =>
    exact .keep_bind (keepsDocument_defer _) fun _ => .pure fun _ h => h
  | didUpdate cb => exact .pure fun _ h => h
  | event name handler i refresh =>
    exact .bind (current_forested stack) fun e =>
      .bind (register_forested Building.upward name e _) fun _ =>
        .pure fun _ h => h.setSlot (x := .event e) trivial (by simp [Slot.nodes])
          (by simp [Slot.roots]) i

end Sub

/-- With any fuel, a mount keeps the document a forest and builds a node that nests in it, with
new roots: the loop over the instructions keeps the mount in progress, from a fresh node. -/
theorem mount_nests : ∀ fuel, MountFn.Nests (mount fuel)
  | 0 => by
    intro site q env t s _
    rw [mount.eq_1]
    exact .throw
  | fuel + 1 => by
    intro site q env t s ht
    rw [mount_succ, mountSteps]
    refine .keep_bind KeepsDocument.get fun _ => .bind ((Forested.forIn
      (I := fun (acc : Mounted × List (Option NodeId)) d => Building s acc.1 acc.2 d)
      (fun y _ acc => ?_) _).mono (fun d h => Building.start h site q) fun _ _ h => h) fun acc => ?_
    · obtain ⟨instr, k⟩ := y
      exact .bind (mountInstr_nests (mount_nests fuel) site env ht acc.1 acc.2 instr k) fun res =>
        .pure fun _ h => h
    · exact .keep_bind (keepsDocument_installPlan site _) fun _ =>
        .pure fun _ h => ⟨h.size_le, h.nested, h.roots⟩

end Pass

end Canopy
