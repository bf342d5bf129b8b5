import Canopy.Proofs.Render.Grafting

/-!
# An update regrafts nodes under older ones

An update attaches two kinds of nodes. The nodes a nested mount creates go under a parent the
arena already had: the element a ternary records, or the element of a loop. And the roots of
items a reconcile moves go back under their loop's element, which is older than each of them,
since an item is always mounted after its element was created and a patch either keeps an
item's roots or replaces them by new nodes. So an update keeps the document a forest
(`updateNode_nests`).

`Regrown n s n'` is what an update of `n` started with `s` nodes leaves: `n'` nests in the
arena, and each of its roots is a root of `n` or a node created since. `Tables.Nest` is what a
reconcile keeps of its position tables: the previous items not yet taken are as they were, and
the items placed so far nest in the arena with their roots under the loop's element.
-/

namespace Canopy

/-- A loop item that nests in the first `s` nodes with its roots under the element `P`. -/
def LoopItem.NestsUnder (it : LoopItem Mounted) (P s : Nat) : Prop :=
  it.node.Nested s ∧ it.RootedUnder P s

theorem LoopItem.NestsUnder.mono {it : LoopItem Mounted} {P s s' : Nat} (h : it.NestsUnder P s)
    (hs : s ≤ s') : it.NestsUnder P s' :=
  ⟨h.1.mono hs, h.2.mono hs⟩

theorem LoopItem.nestsUnder_of_new {it : LoopItem Mounted} {P s z : Nat} (hP : P < s)
    (hn : it.node.Nested z) (hr : ∀ x : Nat, x ∈ it.node.roots → s ≤ x ∧ x < z) :
    it.NestsUnder P z :=
  ⟨hn, fun x hx => ⟨Nat.lt_of_lt_of_le hP (hr x hx).1, (hr x hx).2⟩⟩

namespace Pass

open Document RenderM

/-- What an update of `n`, begun when the arena had `s` nodes, leaves: the node `n'` nests in
the arena, and each of its roots is a root of `n` or a node created since. -/
structure Regrown (n : Mounted) (s : Nat) (n' : Mounted) (d : Document) : Prop where
  size_le : s ≤ d.nodes.size
  nested : n'.Nested d.nodes.size
  roots : ∀ x : Nat, x ∈ n'.roots → x ∈ n.roots ∨ (s ≤ x ∧ x < d.nodes.size)

/-- An update that keeps the forest: a node nested in the arena comes back regrown. -/
def UpdateFn.Nests (u : Mounted → Env → RenderM (Mounted × Option RenderError)) : Prop :=
  ∀ (n : Mounted) (env : Env) (s : Nat), n.Nested s →
    Forested (fun d => s ≤ d.nodes.size) (u n env) fun res => Regrown n s res.1

/-- Subpasses that keep the forest: mounts nest, updates regrow, unmounts leave the document. -/
structure Subpasses.Nests (sub : Subpasses) : Prop where
  mount : MountFn.Nests sub.mount
  update : UpdateFn.Nests sub.update
  unmount : ∀ n, KeepsDocument (sub.unmount n)

namespace Regrown

variable {n m n' : Mounted} {s : Nat} {d d₀ : Document}

theorem upward : Upward (Regrown n s n') := by
  intro d d' h hg
  refine ⟨Nat.le_trans h.size_le hg.size_le, h.nested.mono hg.size_le, fun x hx => ?_⟩
  rcases h.roots x hx with hx | hx
  · exact .inl hx
  · exact .inr ⟨hx.1, Nat.lt_of_lt_of_le hx.2 hg.size_le⟩

/-- A node handed back as it was. -/
theorem self (hn : n.Nested s) (hs : s ≤ d.nodes.size) : Regrown n s n d :=
  ⟨hs, hn.mono hs, fun _ hx => .inl hx⟩

/-- Two updates one after the other, the second begun where the first left the arena. -/
theorem trans (h₁ : Regrown n s m d₀) (h₂ : Regrown m d₀.nodes.size n' d) : Regrown n s n' d := by
  refine ⟨Nat.le_trans h₁.size_le h₂.size_le, h₂.nested, fun x hx => ?_⟩
  rcases h₂.roots x hx with hx | hx
  · rcases h₁.roots x hx with hx | hx
    · exact .inl hx
    · exact .inr ⟨hx.1, Nat.lt_of_lt_of_le hx.2 h₂.size_le⟩
  · exact .inr ⟨Nat.le_trans h₁.size_le hx.1, hx.2⟩

/-- Replacing one slot of a node by one that nests in the arena and stands for old roots of the
slot or new nodes. -/
theorem setSlot (hn : n.Nested s) (hs : s ≤ d.nodes.size) {i : Nat} {x y : Slot}
    (hx : n.slot? i = some x) (hy : y.Points d.nodes.size)
    (hyn : ∀ m ∈ y.nodes, m.Nested d.nodes.size)
    (hyr : ∀ z : Nat, z ∈ y.roots → z ∈ x.roots ∨ (s ≤ z ∧ z < d.nodes.size)) :
    Regrown n s (n.setSlot i y) d :=
  ⟨hs, (hn.mono hs).setSlot hy hyn i, fun _ hz => Mounted.mem_roots_replaceSlot hx hyr hz⟩

end Regrown

/-! ## Position tables -/

/-- The results of a successful `mapM` into `Option`, position by position. -/
theorem getElem?_of_mapM_eq_some {α β : Type} {f : α → Option β} {l : List α} {r : List β}
    (h : l.mapM f = some r) (i : Nat) : r[i]? = l[i]?.bind f := by
  induction l generalizing r i with
  | nil =>
    simp only [List.mapM_nil, Option.pure_def, Option.some.injEq] at h
    subst h
    simp
  | cons a l ih =>
    rw [List.mapM_cons] at h
    simp only [Option.bind_eq_bind, Option.bind_eq_some_iff, Option.pure_def,
      Option.some.injEq] at h
    obtain ⟨b, hb, rs, hrs, rfl⟩ := h
    cases i with
    | zero => simp [hb]
    | succ k => simpa using ih hrs k

/-- Every entry present in a table meets `R`. -/
def EachEntry {α : Type} (R : α → Prop) (xs : Array (Option α)) : Prop :=
  ∀ (i : Nat) (x : α), xs[i]? = some (some x) → R x

namespace EachEntry

variable {α : Type} {R R' : α → Prop} {xs : Array (Option α)}

theorem mono (h : EachEntry R xs) (hR : ∀ x, R x → R' x) : EachEntry R' xs :=
  fun i x hx => hR x (h i x hx)

theorem setIfInBounds (h : EachEntry R xs) {o : Option α} (ho : ∀ x, o = some x → R x) (i : Nat) :
    EachEntry R (xs.setIfInBounds i o) := by
  intro j x hx
  rw [Array.getElem?_setIfInBounds] at hx
  split at hx
  · split at hx
    · exact ho x (Option.some.inj hx)
    · cases hx
  · exact h j x hx

theorem of_list {l : List α} (h : ∀ x ∈ l, R x) : EachEntry R (l.map some).toArray := by
  intro i x hx
  simp only [List.getElem?_toArray, List.getElem?_map, Option.map_eq_some_iff,
    Option.some.injEq] at hx
  obtain ⟨y, hy, rfl⟩ := hx
  exact h y (List.mem_of_getElem? hy)

theorem replicate_none (n : Nat) : EachEntry R (Array.replicate n (none : Option α)) := by
  intro i x hx
  simp [Array.getElem?_replicate] at hx

theorem mapM_id (h : EachEntry R xs) {items : List α} (hitems : xs.toList.mapM id = some items) :
    ∀ x ∈ items, R x := by
  intro x hx
  obtain ⟨i, hi⟩ := List.mem_iff_getElem?.1 hx
  rw [getElem?_of_mapM_eq_some hitems, Option.bind_eq_some_iff] at hi
  obtain ⟨o, ho, hox⟩ := hi
  obtain rfl : o = some x := hox
  exact h i x (by simpa using ho)

end EachEntry

/-- What a reconcile of a loop under the element `P`, begun when the arena had `s` nodes, keeps
of its tables: the previous items left nest in the first `s` nodes under `P`, and the items
placed so far nest in the arena under `P`. -/
structure Tables.Nest (P s : Nat) (t : Tables) (d : Document) : Prop where
  size_le : s ≤ d.nodes.size
  prev : EachEntry (·.NestsUnder P s) t.a
  placed : EachEntry (·.NestsUnder P d.nodes.size) t.b

theorem EachEntry.upward {P : Nat} {xs : Array (Option (LoopItem Mounted))} :
    Upward fun d => EachEntry (·.NestsUnder P d.nodes.size) xs :=
  fun _ _ h hg => h.mono fun _ hit => hit.mono hg.size_le

theorem Tables.Nest.upward {P s : Nat} {t : Tables} : Upward (Tables.Nest P s t) :=
  fun _ _ h hg => ⟨Nat.le_trans h.size_le hg.size_le, h.prev, EachEntry.upward _ _ h.placed hg⟩

theorem Tables.nest_start {P s : Nat} {prev : List (LoopItem Mounted)} {d : Document}
    (hs : s ≤ d.nodes.size) (hprev : ∀ it ∈ prev, it.NestsUnder P s) (next : List Projected) :
    Tables.Nest P s (Tables.start prev next) d :=
  ⟨hs, EachEntry.of_list hprev, EachEntry.replicate_none _⟩

/-! ## Removing, clearing and taking -/

section Parts

variable {sub : Subpasses} {P : Document → Prop}

theorem removeNodes_forested (hP : Upward P) (parent : NodeId) (ns : List NodeId) :
    Forested P (removeNodes parent ns) fun _ => P := by
  unfold removeNodes
  refine .bind (Forested.forIn (I := fun _ => P) (fun y _ _ => ?_) _) fun _ => .pure fun _ h => h
  exact .bind (.doc_upward hP fun d hd => ⟨hd.removeChild _ _, by simp⟩) fun _ =>
    .pure fun _ h => h

/-- Inserting nodes of the arena under a parent older than each keeps the forest. -/
theorem insertNodes_forested (hP : Upward P) {parent : NodeId} {ns : List NodeId}
    (hns : ∀ x : Nat, x ∈ ns → parent < x) (anchor : Option NodeId) :
    Forested (fun d => P d ∧ ∀ x : Nat, x ∈ ns → x < d.nodes.size)
      (insertNodes parent ns anchor) fun _ => P := by
  unfold insertNodes
  refine .bind (Forested.forIn (I := fun _ d => P d ∧ ∀ x : Nat, x ∈ ns → x < d.nodes.size)
    (fun y hy _ => ?_) _) fun _ => .pure fun _ h => h.1
  refine .bind (.doc fun d hd h => ?_) fun _ => .pure fun _ h => h
  have hg : d.Grown (d.insertBefore parent y anchor) :=
    ⟨hd.attach anchor (h.2 y hy) (hns y hy), by simp [insertBefore]⟩
  exact ⟨hg.forest, hg.size_le, hP _ _ h.1 hg, fun x hx => Nat.lt_of_lt_of_le (h.2 x hx) hg.size_le⟩

theorem removeItem_forested (hsub : sub.Nests) (hP : Upward P) (parent : NodeId)
    (it : LoopItem Mounted) : Forested P (removeItem sub parent it) fun _ => P := by
  unfold removeItem
  exact .keep_bind (hsub.unmount it.node) fun _ => removeNodes_forested hP parent _

theorem clearItems_forested (hsub : sub.Nests) (hP : Upward P) (spec : LoopSpec Program)
    (parent : NodeId) (items : List (LoopItem Mounted)) :
    Forested P (clearItems sub spec parent items) fun _ => P := by
  unfold clearItems
  split
  · refine .bind (Forested.forIn (I := fun _ => P) (fun it _ _ => ?_) _) fun _ =>
      setTextContent_forested hP parent ""
    exact .keep_bind (hsub.unmount it.node) fun _ => .pure fun _ h => h
  · refine .bind (Forested.forIn (I := fun _ => P) (fun it _ _ => ?_) _) fun _ =>
      .pure fun _ h => h
    exact .bind (removeItem_forested hsub hP parent it) fun _ => .pure fun _ h => h

theorem take_forested {α : Type} {R : α → Prop} {xs : Array (Option α)} (hxs : EachEntry R xs)
    (i : Nat) : Forested P (take xs i) fun res d => P d ∧ R res.1 ∧ EachEntry R res.2 := by
  unfold take
  split
  · rename_i x hx
    exact .pure fun _ h => ⟨h, hxs i x hx, hxs.setIfInBounds (fun _ h => by cases h) i⟩
  · exact .throw

theorem collect_nests {Pe s : Nat} {t : Tables} :
    Forested (Tables.Nest Pe s t) (collect t)
      fun items d => s ≤ d.nodes.size ∧ ∀ it ∈ items, it.NestsUnder Pe d.nodes.size := by
  unfold collect
  split
  · rename_i items hitems
    exact .pure fun d h => ⟨h.size_le, h.placed.mapM_id hitems⟩
  · exact .throw

end Parts

/-! ## Patching and mounting items -/

section Items

variable {sub : Subpasses} (hsub : sub.Nests) {P s : Nat} (hP : P < s) (spec : LoopSpec Program)
  (env : Env)
include hsub hP

/-- A patched item keeps its roots or takes new ones, so they stay under its element. -/
theorem patchItem_nests {it : LoopItem Mounted} (hit : it.NestsUnder P s) (p : Projected) :
    Forested (fun d => s ≤ d.nodes.size) (patchItem sub spec env it p)
      fun it' d => s ≤ d.nodes.size ∧ it'.NestsUnder P d.nodes.size := by
  unfold patchItem
  dsimp only
  -- whether to patch is decided without changing the document
  split <;> [refine .keep_bind (Bind.keepsDocument_shouldUpdate _ _ _ _) fun patch => ?_;
    refine .keep_bind (KeepsDocument.pure true) fun patch => ?_]
  all_goals
    split
    · refine .bind (hsub.update it.node _ s hit.1) fun res => ?_
      obtain ⟨node, err⟩ := res
      cases err with
      | some e => exact .throw
      | none =>
        refine .pure fun d h => ⟨h.size_le, h.nested, fun x hx => ?_⟩
        rcases h.roots x hx with hx | hx
        · exact ⟨(hit.2 x hx).1, Nat.lt_of_lt_of_le (hit.2 x hx).2 h.size_le⟩
        · exact ⟨Nat.lt_of_lt_of_le hP hx.1, hx.2⟩
    · exact .pure fun d h => ⟨h, hit.mono h⟩

/-- Patching a previous item into a next position keeps the tables' invariant. -/
theorem patchAt_nests {t : Tables} (i j : Nat) :
    Forested (Tables.Nest P s t) (patchAt sub spec env t i j) fun t' => Tables.Nest P s t' := by
  unfold patchAt
  refine .assume (fun _ h => h.prev) fun hprev => ?_
  refine .bind (take_forested hprev i) fun res => ?_
  obtain ⟨it, a⟩ := res
  refine .assume (fun _ h => h.2) fun hit => ?_
  refine .bind (take_forested (R := fun _ => True) (fun _ _ _ => trivial) j) fun res => ?_
  obtain ⟨p, pending⟩ := res
  have hF : Upward fun d => EachEntry (·.NestsUnder P d.nodes.size) t.b :=
    EachEntry.upward
  refine .bind (((patchItem_nests hsub hP spec env hit.1 p).frame hF).mono
    (fun d h => ⟨h.1.1.size_le, h.1.1.placed⟩) fun _ _ h => h) fun it' => .pure fun d h => ?_
  exact ⟨h.1.1, hit.2, h.2.setIfInBounds (fun x hx => by cases hx; exact h.1.2) j⟩

/-- Mounting a projected item into a next position keeps the tables' invariant. -/
theorem mountAt_nests (site : List Nat) {t : Tables} (j : Nat) (anchor : Option NodeId) :
    Forested (Tables.Nest P s t) (mountAt sub site spec env P t j anchor)
      fun t' => Tables.Nest P s t' := by
  unfold mountAt
  refine .bind (take_forested (R := fun _ => True) (fun _ _ _ => trivial) j) fun res => ?_
  obtain ⟨p, pending⟩ := res
  refine .bind (((mountItem_nests hsub.mount site env spec hP p anchor).frame
    Tables.Nest.upward).mono (fun d h => ⟨h.1.size_le, h.1⟩) fun _ _ h => h) fun it =>
    .pure fun d h => ⟨h.2.size_le, h.2.prev, h.2.placed.setIfInBounds (fun x hx => ?_) j⟩
  cases hx
  exact LoopItem.nestsUnder_of_new hP h.1.2.1 h.1.2.2

/-! ## The phases of a reconcile -/

theorem trimPrefix_nests {aKeys bKeys : Array Key} (aEnd bEnd n : Nat) {t : Tables} :
    Forested (Tables.Nest P s t) (trimPrefix sub spec env aKeys bKeys aEnd bEnd n t)
      fun res => Tables.Nest P s res.1 := by
  unfold trimPrefix
  dsimp only
  rw [forIn_range_eq]
  refine .bind (Forested.forIn (I := fun q : Tables × Nat × Nat => Tables.Nest P s q.1)
    (fun _ _ q => ?_) (t, _)) fun _ =>
    .pure fun _ h => h
  split
  · exact .bind (patchAt_nests hsub hP spec env _ _) fun _ => .pure fun _ h => h
  · exact .pure fun _ h => h

theorem trimSuffix_nests {aKeys bKeys : Array Key} (aStart bStart aEnd bEnd n : Nat)
    {t : Tables} :
    Forested (Tables.Nest P s t) (trimSuffix sub spec env aKeys bKeys aStart bStart aEnd bEnd n t)
      fun res => Tables.Nest P s res.1 := by
  unfold trimSuffix
  dsimp only
  rw [forIn_range_eq]
  refine .bind (Forested.forIn (I := fun q : Tables × Nat × Nat => Tables.Nest P s q.1)
    (fun _ _ q => ?_) (t, _)) fun _ =>
    .pure fun _ h => h
  split
  · exact .bind (patchAt_nests hsub hP spec env _ _) fun _ => .pure fun _ h => h
  · exact .pure fun _ h => h

theorem insertRange_nests (site : List Nat) (bStart bEnd : Nat) {t : Tables} :
    Forested (Tables.Nest P s t) (insertRange sub site spec env P bStart bEnd t)
      fun t' => Tables.Nest P s t' := by
  unfold insertRange
  dsimp only
  rw [forIn_range_eq]
  refine .bind (Forested.forIn (I := Tables.Nest P s) (fun j _ _ => ?_) _) fun _ =>
    .pure fun _ h => h
  exact .bind (mountAt_nests hsub hP spec env site j _) fun _ => .pure fun _ h => h

omit hP spec env in
theorem removeRange_nests (aStart aEnd : Nat) {t : Tables} :
    Forested (Tables.Nest P s t) (removeRange sub P aStart aEnd t)
      fun t' => Tables.Nest P s t' := by
  unfold removeRange
  dsimp only
  rw [forIn_range_eq]
  refine .bind (Forested.forIn (I := fun a => Tables.Nest P s { t with a })
    (fun i _ a => ?_) _) fun _ => .pure fun _ h => h
  refine .assume (fun _ h => h.prev) fun hprev => ?_
  refine .bind (take_forested hprev i) fun res => ?_
  obtain ⟨it, a'⟩ := res
  refine .bind ((removeItem_forested (P := Tables.Nest P s { t with a := a' }) hsub
    Tables.Nest.upward P it).mono (fun d h => ⟨h.1.size_le, h.2.2, h.1.placed⟩) fun _ _ h => h)
      fun _ => ?_
  exact .pure fun _ h => h

theorem patchPairs_nests (pairs : List (Nat × Nat)) {t : Tables} :
    Forested (Tables.Nest P s t) (patchPairs sub spec env pairs t)
      fun t' => Tables.Nest P s t' := by
  unfold patchPairs
  refine .bind (Forested.forIn (I := Tables.Nest P s) (fun ij _ _ => ?_) _) fun _ =>
    .pure fun _ h => h
  obtain ⟨i, j⟩ := ij
  exact .bind (patchAt_nests hsub hP spec env i j) fun _ => .pure fun _ h => h

theorem replaceAll_nests (site : List Nat) {t : Tables} :
    Forested (Tables.Nest P s t) (replaceAll sub site spec env P t)
      fun items d => s ≤ d.nodes.size ∧ ∀ it ∈ items, it.NestsUnder P d.nodes.size := by
  unfold replaceAll
  refine .bind ((clearItems_forested hsub (upward_size_le s) spec P _).mono
    (fun _ h => h.size_le) fun _ _ h => h) fun _ => ?_
  refine .bind ((Forested.forIn (I := fun items d => s ≤ d.nodes.size ∧
      ∀ it ∈ items.toList, it.NestsUnder P d.nodes.size) (fun p _ items => ?_) #[]).mono
    (fun _ h => ⟨h, fun _ h => absurd h List.not_mem_nil⟩) fun _ _ h => h) fun items =>
      .pure fun _ h => h
  have hF : Upward fun d => ∀ it ∈ items.toList, it.NestsUnder P d.nodes.size :=
    fun _ _ h hg it hit => (h it hit).mono hg.size_le
  refine .bind ((mountItem_nests hsub.mount site env spec hP p none).frame hF) fun it =>
    .pure fun d h => ⟨h.1.1, fun it' hit' => ?_⟩
  change it' ∈ (items.push it).toList at hit'
  rw [Array.toList_push, List.mem_append, List.mem_singleton] at hit'
  rcases hit' with hit' | rfl
  · exact h.2 it' hit'
  · exact LoopItem.nestsUnder_of_new hP h.1.2.1 h.1.2.2

omit hP spec env in
theorem removeLeft_nests (aStart aEnd : Nat) {t : Tables} :
    Forested (Tables.Nest P s t) (removeLeft sub P aStart aEnd t)
      fun t' => Tables.Nest P s t' := by
  unfold removeLeft
  dsimp only
  rw [forIn_range_eq]
  refine .bind (Forested.forIn (I := fun a => Tables.Nest P s { t with a })
    (fun i _ a => ?_) _) fun _ => .pure fun _ h => h
  split
  · rename_i it _
    refine .bind ((removeItem_forested (P := Tables.Nest P s { t with a := a.setIfInBounds i none })
      hsub Tables.Nest.upward P it).mono
      (fun d h => ⟨h.size_le, h.prev.setIfInBounds (fun _ h => by cases h) i, h.placed⟩)
      fun _ _ h => h) fun _ => ?_
    exact .pure fun _ h => h
  · exact .pure fun _ h => h

/-- Walking the middle mounts new items and moves placed ones, whose roots are younger than
their element, back under it. -/
theorem placeMiddle_nests (site : List Nat) (m : Matching) (bStart bLen : Nat) {t : Tables} :
    Forested (Tables.Nest P s t) (placeMiddle sub site spec env P m bStart bLen t)
      fun t' => Tables.Nest P s t' := by
  unfold placeMiddle
  refine .bind (Forested.forIn (I := fun q : Tables × Nat => Tables.Nest P s q.1)
    (fun offset _ q => ?_) (t, _))
    fun _ => .pure fun _ h => h
  dsimp only
  split
  · exact .bind (mountAt_nests hsub hP spec env site _ _) fun _ => .pure fun _ h => h
  · split
    · split
      · exact .pure fun _ h => h
      · split
        · rename_i it hit
          refine .assume (p := ∀ x : Nat, x ∈ it.node.roots → P < x)
            (fun _ h x hx => ((h.placed _ it hit).2 x hx).1) fun hroots => ?_
          exact .bind ((insertNodes_forested Tables.Nest.upward hroots _).mono
            (fun d h => ⟨h, fun x hx => ((h.placed _ it hit).2 x hx).2⟩) fun _ _ h => h) fun _ =>
              .pure fun _ h => h
        · exact .pure fun _ h => h
    · exact .pure fun _ h => h
  · exact .pure fun _ h => h

/-- A reconcile hands back items nested in the arena under the loop's element. -/
theorem reconcile_nests (site : List Nat) {prev : List (LoopItem Mounted)}
    (hprev : ∀ it ∈ prev, it.NestsUnder P s) (next : List Projected) :
    Forested (fun d => s ≤ d.nodes.size) (reconcile sub site spec env P prev next)
      fun items d => s ≤ d.nodes.size ∧ ∀ it ∈ items, it.NestsUnder P d.nodes.size := by
  unfold reconcile
  dsimp only
  refine .bind ((trimPrefix_nests hsub hP spec env _ _ _).mono
    (fun _ h => Tables.nest_start h hprev next) fun _ _ h => h) fun res => ?_
  obtain ⟨t, aStart, bStart⟩ := res
  refine .bind (trimSuffix_nests hsub hP spec env _ _ _ _ _) fun res => ?_
  obtain ⟨t, aEnd, bEnd⟩ := res
  split
  · exact .bind (insertRange_nests hsub hP spec env site _ _) fun _ => collect_nests
  · split
    · exact .bind (removeRange_nests hsub _ _) fun _ => collect_nests
    · refine .bind (patchPairs_nests hsub hP spec env _) fun t => ?_
      exact .ite (fun _ => replaceAll_nests hsub hP spec env site) fun _ =>
        .bind (removeLeft_nests hsub _ _) fun _ =>
          .bind (placeMiddle_nests hsub hP spec env site _ _ _) fun _ => collect_nests

theorem reconcileAll_nests (site : List Nat) {prev : List (LoopItem Mounted)}
    (hprev : ∀ it ∈ prev, it.NestsUnder P s) (next : List Projected) :
    Forested (fun d => s ≤ d.nodes.size) (reconcileAll sub site spec env P prev next)
      fun items d => s ≤ d.nodes.size ∧ ∀ it ∈ items, it.NestsUnder P d.nodes.size := by
  unfold reconcileAll
  split
  · exact .pure fun _ h => ⟨h, fun _ h => absurd h List.not_mem_nil⟩
  · refine Forested.mapM (fun _ _ _ h hg => h.mono hg.size_le) fun p => ?_
    exact (mountItem_nests hsub.mount site env spec hP p none).mono (fun _ h => h) fun _ _ h =>
      ⟨h.1, LoopItem.nestsUnder_of_new hP h.2.1 h.2.2⟩
  · exact .bind (clearItems_forested hsub (upward_size_le s) spec P _) fun _ =>
      .pure fun _ h => ⟨h, fun _ h => absurd h List.not_mem_nil⟩
  · exact reconcile_nests hsub hP spec env site hprev next

end Items

/-! ## Each update op -/

/-- An update of the node a former update left, chained after it: what it adds is regrown from
where the former left the arena, so from where the former began. -/
theorem Regrown.then {n m : Mounted} {s : Nat} {x : RenderM (Mounted × Option RenderError)}
    (hx : ∀ g, m.Nested g → Forested (fun d => g ≤ d.nodes.size) x fun res => Regrown m g res.1) :
    Forested (Regrown n s m) x fun res => Regrown n s res.1 := by
  refine .intro fun d₀ _ h₀ => ?_
  exact (hx d₀.nodes.size h₀.nested).mono (fun _ hd => hd ▸ Nat.le_refl _) fun _ _ h => h₀.trans h

theorem Regrown.ternary_roots {b b' : Mounted} {s : Nat} {d : Document} (h : Regrown b s b' d)
    (dec : Bool) (m : Option NodeId) (q : NodeId) :
    ∀ z : Nat, z ∈ (Slot.ternary dec b' m q).roots →
      z ∈ (Slot.ternary dec b m q).roots ∨ (s ≤ z ∧ z < d.nodes.size) := by
  intro z hz
  cases m with
  | none => exact h.roots z hz
  | some x => exact .inl hz

section Ops

variable {sub : Subpasses} {n : Mounted} {s : Nat} (hn : n.Nested s) (env : Env)
include hn

/-- Refreshing a leaf writes through an element of the arena and changes no root. -/
theorem refreshLeaf_regrows (i : Nat) {value : RenderM Value} (hvalue : KeepsDocument value)
    {write : NodeId → String → RenderM Unit}
    (hwrite : ∀ Q : Document → Prop, Upward Q → ∀ h text, Forested Q (write h text) fun _ => Q) :
    Forested (fun d => s ≤ d.nodes.size) (refreshLeaf n i value write)
      fun res => Regrown n s res.1 := by
  unfold refreshLeaf
  refine .bind (Forested.attempt (upward_size_le s) (.of_keepsDocument hvalue)) fun res => ?_
  cases res with
  | error e => exact .pure fun _ h => .self hn h
  | ok v =>
    dsimp only
    split
    · rename_i e last hslot
      split
      · exact .pure fun _ h => .self hn h
      · refine .bind (hwrite _ (upward_size_le s) _ _) fun _ => .pure fun _ h => ?_
        exact .setSlot hn h hslot trivial (by simp [Slot.nodes]) (by simp [Slot.roots])
    · exact .pure fun _ h => .self hn h

variable (hsub : sub.Nests)
include hsub

/-- A ternary updates its branch in place, or replaces it by one mounted under its element. -/
theorem updateTernary_regrows (k : Nat) (spec : TernarySpec Program) :
    Forested (fun d => s ≤ d.nodes.size) (updateTernary sub n k spec env)
      fun res => Regrown n s res.1 := by
  unfold updateTernary
  refine .keep_bind (Bind.keepsDocument_test env spec.test) fun res => ?_
  cases res with
  | error f => exact .pure fun _ h => .self hn h
  | ok decision =>
    dsimp only
    split
    · rename_i dold branch marker parent hslot
      obtain ⟨hpar, hnodes⟩ := hn.of_slot? hslot
      have hbranch : branch.Nested s := hnodes branch (List.mem_singleton_self _)
      refine .bind .get fun r => ?_
      split
      · -- the same branch: it is updated where it stands
        refine .bind ((hsub.update branch env s hbranch).mono (fun _ h => h.1) fun _ _ h => h)
          fun res => ?_
        obtain ⟨branch', err⟩ := res
        refine .pure fun d h => .setSlot hn h.size_le hslot (Nat.lt_of_lt_of_le hpar h.size_le)
          ?_ (h.ternary_roots dold marker parent)
        simpa [Slot.nodes] using h.nested
      · -- the other branch: the old one leaves, the new one is mounted under the element
        refine .bind .get fun r' => ?_
        refine .keep_bind (hsub.unmount branch) fun _ => ?_
        refine .bind ((removeNodes_forested (upward_size_le s) parent _).mono (fun _ h => h.1.1)
          fun _ _ h => h) fun _ => ?_
        refine .bind (Forested.attempt (upward_size_le s)
          (mountBranch_nests hsub.mount _ env _ (show (⟨parent, _⟩ : Target).parent < s from hpar)))
          fun res => ?_
        cases res with
        | error e => exact .pure fun _ h => .self hn h
        | ok bm =>
          refine .pure fun d h => .setSlot hn h.1 hslot (Nat.lt_of_lt_of_le hpar h.1) ?_ ?_
          · simpa [Slot.nodes] using h.2.1
          · exact fun z hz => .inr (h.2.2 z (mem_roots_ternary hz))
    · exact .pure fun _ h => .self hn h

/-- A loop reconciles its items under its element; a failed reconcile leaves it empty. -/
theorem updateLoop_regrows (k : Nat) (spec : LoopSpec Program) :
    Forested (fun d => s ≤ d.nodes.size) (updateLoop sub n k spec env)
      fun res => Regrown n s res.1 := by
  unfold updateLoop
  split
  · rename_i parent prev hslot
    obtain ⟨hpar, hnodes⟩ := hn.of_slot? hslot
    have hprev : ∀ it ∈ prev, it.NestsUnder parent s := fun it hit =>
      ⟨hnodes it.node (List.mem_map_of_mem hit), hpar.2 it hit⟩
    refine .bind (Forested.attempt (upward_size_le s)
      (.of_keepsDocument (keepsDocument_project env spec))) fun res => ?_
    cases res with
    | error e => exact .pure fun _ h => .self hn h
    | ok next =>
      refine .bind (Forested.attempt (upward_size_le s)
        (reconcileAll_nests hsub hpar.1 spec env _ hprev next)) fun res => ?_
      cases res with
      | ok items =>
        refine .pure fun d h => .setSlot hn h.1 hslot
          ⟨Nat.lt_of_lt_of_le hpar.1 h.1, fun it hit => (h.2 it hit).2⟩ ?_ (by simp [Slot.roots])
        simp only [Slot.nodes, List.mem_map]
        rintro _ ⟨it, hit, rfl⟩
        exact (h.2 it hit).1
      | error e =>
        exact .pure fun d h => .setSlot hn h hslot ⟨Nat.lt_of_lt_of_le hpar.1 h, by simp⟩
          (by simp [Slot.nodes]) (by simp [Slot.roots])
  · exact .pure fun _ h => .self hn h

/-- A component takes its props, which changes no document node, and updates its node. -/
theorem updateComponent_regrows (i : Nat) :
    Forested (fun d => s ≤ d.nodes.size) (updateComponent sub n i env)
      fun res => Regrown n s res.1 := by
  unfold updateComponent
  split
  · rename_i id child hslot
    have hchild : child.Nested s := (hn.of_slot? hslot).2 child (List.mem_singleton_self _)
    refine .bind .get fun r => ?_
    dsimp only
    split <;> [split <;> [refine .bind (Q := fun _ d => s ≤ d.nodes.size) (.pure fun _ h => h.1)
          fun props => ?_;
        refine .keep_bind (keepsDocument_modifyInstance _ _) fun _ =>
          .bind (Q := fun _ d => s ≤ d.nodes.size) (.pure fun _ h => h.1) fun props => ?_];
      refine .bind (Q := fun _ d => s ≤ d.nodes.size) (.pure fun _ h => h.1) fun props => ?_]
    all_goals
      refine .bind (hsub.update child _ s hchild) fun res => ?_
      obtain ⟨child', err⟩ := res
      refine .pure fun d h => .setSlot hn h.size_le hslot trivial ?_ h.roots
      simpa [Slot.nodes] using h.nested
  · exact .pure fun _ h => .self hn h

theorem updateOp_regrows (k : Nat) (op : UpdateOp) :
    Forested (fun d => s ≤ d.nodes.size) (updateOp sub n k op env)
      fun res => Regrown n s res.1 := by
  unfold updateOp
  rcases op with ⟨p, b, i⟩ | ⟨name, b, i⟩ | ⟨code, b, i⟩ | t | l | i | cb | ⟨name, _, i⟩
  · exact refreshLeaf_regrows hn i (keepsDocument_resolve _ _ _ _) fun _ hQ h t =>
      writeProperty_forested hQ h p t
  · exact refreshLeaf_regrows hn i (keepsDocument_resolve _ _ _ _) fun _ hQ h t =>
      setAttribute_forested hQ h name t
  · exact refreshLeaf_regrows hn i (keepsDocument_resolve _ _ _ _) fun _ hQ h t =>
      setTextContent_forested hQ h t
  · exact updateTernary_regrows hn env hsub k t
  · exact updateLoop_regrows hn env hsub k l
  · exact updateComponent_regrows hn env hsub i
  · exact .keep_bind (keepsDocument_defer _) fun _ => .pure fun _ h => .self hn h
  · dsimp only
    split
    · exact .bind (.modify fun _ => rfl) fun _ => .pure fun _ h => .self hn h
    · exact .pure fun _ h => .self hn h

end Ops

/-- Every update keeps the document a forest and the node it updates nested in it. -/
theorem updateNode_nests : ∀ fuel, UpdateFn.Nests (updateNode fuel)
  | 0 => fun n _ s hn => by
    rw [updateNode.eq_1]
    exact .pure fun _ h => .self hn h
  | fuel + 1 => fun n env s hn => by
    have hsub : Subpasses.Nests ⟨fun s p e t => mount fuel s p e t,
        fun n e => updateNode fuel n e, unmount fuel⟩ :=
      ⟨mount_nests fuel, updateNode_nests fuel, keepsDocument_unmount fuel⟩
    rw [updateNode.eq_2]
    refine .keep_bind KeepsDocument.get fun _ => ?_
    split
    · exact .pure fun _ h => .self hn h
    -- both loops carry the node so far and the answer of an early return, regrown from `n`
    refine .bind ((Forested.forIn (I := fun (acc : Option (Mounted × Option RenderError) × Mounted) d =>
        Regrown n s acc.2 d ∧ ∀ r, acc.1 = some r → Regrown n s r.1 d) (fun ik _ acc => ?_)
        (none, n)).mono (fun _ h => ⟨.self hn h, fun _ h => by cases h⟩) fun _ _ h => h)
      fun acc => ?_
    · obtain ⟨instr, k⟩ := ik
      refine .bind ((Forested.forIn (I := fun (acc : Option (Mounted × Option RenderError) × Mounted) d =>
          Regrown n s acc.2 d ∧ ∀ r, acc.1 = some r → Regrown n s r.1 d) (fun op _ acc' => ?_)
          (none, acc.2)).mono (fun _ h => ⟨h.1, fun _ h => by cases h⟩) fun _ _ h => h)
        fun acc' => ?_
      · refine .bind ((Regrown.then fun g hg => updateOp_regrows hg env hsub k op).mono
          (fun _ h => h.1) fun _ _ h => h) fun res => ?_
        obtain ⟨node', err⟩ := res
        cases err with
        | some e => exact .pure fun _ h => ⟨h, fun r hr => by cases hr; exact h⟩
        | none => exact .pure fun _ h => ⟨h, fun _ h => by cases h⟩
      · dsimp only
        split
        · rename_i r hr
          exact .pure fun _ h => ⟨h.1, fun r' hr' => by cases hr'; exact h.2 r hr⟩
        · exact .pure fun _ h => ⟨h.1, fun _ h => by cases h⟩
    · dsimp only
      split
      · rename_i r hr
        exact .pure fun _ h => h.2 r hr
      · exact .pure fun _ h => h.1

end Pass

end Canopy
