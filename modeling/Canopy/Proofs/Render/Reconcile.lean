import Canopy.Proofs.Render.Flat
import Canopy.Proofs.Render.Matching
import Canopy.Proofs.Render.Passes
import Canopy.Proofs.Sequence.Common

/-!
# Moves and mounts of a keyed loop

Reconciling a keyed loop whose template places one root under the loop's parent `P` moves exactly
the kept items that are off a longest increasing run of their previous positions, and mounts
exactly the new items. This file follows each part of the reconcile with what it logs: patching
moves nothing and mounts nothing, removing an item removes its roots only, mounting an item inserts
one root under `P`, and the walk of the middle range moves each matched item off the run once.

Throughout, `K` are the roots of the kept items. They stay under `P` (`Anchored`), and no change
logged removes or creates one of them (`Logs`). What reconciling needs of the passes it hands
nested work to is `FlatSubpasses`.
-/

namespace Canopy

namespace Pass

open Document RenderM

variable {sub : Subpasses} {T : Program} {P : NodeId} {K : List NodeId} {r r' : Renderer}

/-- What reconciling a loop of template `T` under `P` needs of its subpasses, with `K` the roots
that stay: mounting `T` places one new root under `P` and keeps `K` there, updating a node of `T`
whose values are written away from `P` keeps `K` there and logs nothing that counts, and
unmounting leaves the document alone. -/
structure FlatSubpasses (sub : Subpasses) (T : Program) (P : NodeId) (K : List NodeId) : Prop where
  mount : ∀ {site env anchor r node r'}, (sub.mount site T env ⟨P, anchor⟩).run r = .ok node r' →
    Anchored P K r.document → Anchored P K r'.document ∧ Logs P K r.document r'.document 0 1
  update : ∀ {node env r res r'}, node.program = T → LeavesAvoid P node →
    (sub.update node env).run r = .ok res r' → Anchored P K r.document →
    UpdateKeeps P K node r.document res.1 r'.document
  unmount : ∀ n, KeepsDocument (sub.unmount n)

/-! ## Single changes -/

theorem take_ok {α : Type} {xs xs' : Array (Option α)} {i : Nat} {x : α}
    (h : (take xs i).run r = .ok (x, xs') r') :
    xs[i]? = some (some x) ∧ xs' = xs.setIfInBounds i none ∧ r' = r := by
  unfold take at h
  split at h
  · rename_i y hy
    obtain ⟨he, rfl⟩ := run_pure_ok h
    simp only [Prod.mk.injEq] at he
    obtain ⟨rfl, rfl⟩ := he
    exact ⟨hy, rfl, rfl⟩
  · exact (run_throw_ok h).elim

theorem roots_eq_of_host {n : Mounted} {x : NodeId} (h : n.rootRefs = [.host x]) : n.roots = [x] :=
  Mounted.roots_of_hosts h

/-- Removing nodes outside `K` from `P` keeps `K` under `P` and logs nothing that counts. -/
theorem removeNodes_keeps {xs : List NodeId} {u : Unit} (h : (removeNodes P xs).run r = .ok u r')
    (hxs : ∀ x ∈ xs, x ∉ K) (hA : Anchored P K r.document) :
    Anchored P K r'.document ∧ Logs P K r.document r'.document 0 0 := by
  unfold removeNodes at h
  obtain ⟨_, r₁, h₁, h₂⟩ := run_bind_ok h
  obtain ⟨-, rfl⟩ := run_pure_ok h₂
  refine run_forIn_inv (fun _ s => Anchored P K s.document ∧ Logs P K r.document s.document 0 0)
    ?_ ⟨hA, Logs.refl _ _ _⟩ h₁
  intro x hx _ s _ s' ⟨hA', hl⟩ hrun
  obtain ⟨_, s₁, h₁, h₂⟩ := run_bind_ok hrun
  obtain ⟨-, rfl⟩ := run_pure_ok h₂
  rw [run_doc_ok h₁]
  exact ⟨hA'.removeChild (hxs x hx), by simpa using hl.trans (Logs.removeChild (hxs x hx))⟩

/-- Inserting nodes of `K` under `P` again keeps `K` under `P` and logs a move for each. -/
theorem insertNodes_moves {xs : List NodeId} {anchor : Option NodeId} {u : Unit}
    (h : (insertNodes P xs anchor).run r = .ok u r') (hxs : ∀ x ∈ xs, x ∈ K)
    (hA : Anchored P K r.document) :
    Anchored P K r'.document ∧ Logs P K r.document r'.document xs.length 0 := by
  unfold insertNodes at h
  obtain ⟨_, r₁, h₁, h₂⟩ := run_bind_ok h
  obtain ⟨-, rfl⟩ := run_pure_ok h₂
  -- the nodes left to insert are a suffix of `xs`, and each one inserted logged a move
  have hrun := run_forIn_ok (fun rest _ s => rest.length ≤ xs.length ∧ (∀ x ∈ rest, x ∈ K) ∧
      Anchored P K s.document ∧ Logs P K r.document s.document (xs.length - rest.length) 0)
    ?_ ?_ ⟨Nat.le_refl _, hxs, hA, by simpa using Logs.refl P K r.document⟩ h₁
  · simpa using hrun.2.2
  · intro x rest _ s _ s' ⟨hlen, hK, hA', hl⟩ hstep
    obtain ⟨_, s₁, h₁, h₂⟩ := run_bind_ok hstep
    obtain ⟨-, rfl⟩ := run_pure_ok h₂
    rw [run_doc_ok h₁]
    have hx : x ∈ K := hK x (List.mem_cons_self ..)
    simp only [List.length_cons] at hlen
    refine ⟨by omega, fun y hy => hK y (List.mem_cons_of_mem _ hy),
      hA'.attach anchor (hA'.lt_size_of_mem hx) fun _ => rfl, ?_⟩
    have hl' := hl.trans (Logs.attach_of_parent (q := P) (hA'.parent x hx) anchor)
    rwa [List.length_cons, Nat.add_zero,
      show xs.length - (rest.length + 1) + 1 = xs.length - rest.length by omega] at hl'
  · intro x rest _ s _ s' _ hstep
    obtain ⟨_, s₁, -, h₂⟩ := run_bind_ok hstep
    cases (run_pure_ok h₂).1

/-- Removing an item whose roots are outside `K`: its unmount leaves the document alone, and its
roots are removed from `P`. -/
theorem removeItem_keeps (hs : FlatSubpasses sub T P K) {it : LoopItem Mounted} {u : Unit}
    (h : (removeItem sub P it).run r = .ok u r') (hroots : ∀ x ∈ it.node.roots, x ∉ K)
    (hA : Anchored P K r.document) :
    Anchored P K r'.document ∧ Logs P K r.document r'.document 0 0 := by
  unfold removeItem at h
  obtain ⟨_, r₁, h₁, h₂⟩ := run_bind_ok h
  have hd := (hs.unmount it.node).ok h₁
  rw [← hd] at hA ⊢
  exact removeNodes_keeps h₂ hroots hA

/-- Clearing items when no root stays: unmounting leaves the document alone, and the roots go
one by one or with the parent's content at once. -/
theorem clearItems_keeps (hs : FlatSubpasses sub T P K) {spec : LoopSpec Program}
    {items : List (LoopItem Mounted)} {u : Unit} (h : (clearItems sub spec P items).run r = .ok u r')
    (hK : ∀ x, x ∉ K) (hA : Anchored P K r.document) :
    Anchored P K r'.document ∧ Logs P K r.document r'.document 0 0 := by
  unfold clearItems at h
  split at h
  · obtain ⟨_, r₁, h₁, h₂⟩ := run_bind_ok h
    have hd : r₁.document = r.document :=
      (KeepsDocument.forIn (fun (it : LoopItem Mounted) _ =>
        KeepsDocument.bind (hs.unmount it.node) fun _ => KeepsDocument.pure _) _).ok h₁
    rw [run_doc_ok h₂]
    refine ⟨⟨?_, fun x hx => absurd hx (hK x), fun x hx => absurd hx (hK x)⟩, ?_⟩
    · exact Nat.lt_of_lt_of_le (hd ▸ hA.lt_size) (size_le_setTextContent _ P "")
    · have hl : Logs P K r.document (r.document.setTextContent P "") 0 0 := Logs.setTextContent P ""
      simpa [hd] using hl
  · obtain ⟨_, r₁, h₁, h₂⟩ := run_bind_ok h
    obtain ⟨-, rfl⟩ := run_pure_ok h₂
    refine run_forIn_inv (fun _ s => Anchored P K s.document ∧ Logs P K r.document s.document 0 0)
      ?_ ⟨hA, Logs.refl _ _ _⟩ h₁
    intro it _ _ s _ s' ⟨hA', hl⟩ hstep
    obtain ⟨_, s₁, h₃, h₄⟩ := run_bind_ok hstep
    obtain ⟨-, rfl⟩ := run_pure_ok h₄
    have hk := removeItem_keeps hs h₃ (fun x _ => hK x) hA'
    exact ⟨hk.1, by simpa using hl.trans hk.2⟩

/-- Patching an item of template `T` whose values are written away from `P` keeps what an update
keeps, whether its should-update function lets it through or not. -/
theorem patchItem_keeps (hs : FlatSubpasses sub T P K) {spec : LoopSpec Program} {env : Env}
    {it it' : LoopItem Mounted} {p : Projected} (h : (patchItem sub spec env it p).run r = .ok it' r')
    (hT : it.node.program = T) (hl : LeavesAvoid P it.node) (hA : Anchored P K r.document) :
    UpdateKeeps P K it.node r.document it'.node r'.document := by
  unfold patchItem at h
  dsimp only at h
  split at h
  all_goals
    obtain ⟨patch, r₁, h₁, h₂⟩ := run_bind_ok h
    -- the should-update decision leaves the document alone; then the node is updated or kept
    suffices hd : r₁.document = r.document by
      rw [← hd] at hA ⊢
      split at h₂
      · obtain ⟨res, r₂, h₃, h₄⟩ := run_bind_ok h₂
        have hk := hs.update hT hl h₃ hA
        split at h₄
        · exact (run_throw_ok h₄).elim
        · obtain ⟨rfl, rfl⟩ := run_pure_ok h₄
          exact hk
      · obtain ⟨rfl, rfl⟩ := run_pure_ok h₂
        exact UpdateKeeps.refl hA hl
  · exact (Bind.keepsDocument_shouldUpdate _ _ _ _).ok h₁
  · rw [(run_pure_ok h₁).2]

/-- Patching previous position `i` into next position `j`: the previous item there is taken,
patched, and put at `j` of the next items. -/
theorem patchAt_spec (hs : FlatSubpasses sub T P K) {spec : LoopSpec Program} {env : Env}
    {t t' : Tables} {i j : Nat} (h : (patchAt sub spec env t i j).run r = .ok t' r')
    (hitem : ∀ it, t.a[i]? = some (some it) → it.node.program = T ∧ LeavesAvoid P it.node)
    (hA : Anchored P K r.document) :
    ∃ it it', t.a[i]? = some (some it) ∧ t'.a = t.a.setIfInBounds i none ∧
      t'.b = t.b.setIfInBounds j (some it') ∧
      UpdateKeeps P K it.node r.document it'.node r'.document := by
  unfold patchAt at h
  obtain ⟨⟨it, a⟩, r₁, h₁, h₂⟩ := run_bind_ok h
  obtain ⟨hit, rfl, rfl⟩ := take_ok h₁
  obtain ⟨⟨q, pending⟩, r₂, h₃, h₄⟩ := run_bind_ok h₂
  obtain ⟨-, -, rfl⟩ := take_ok h₃
  obtain ⟨it', r₃, h₅, h₆⟩ := run_bind_ok h₄
  obtain ⟨rfl, rfl⟩ := run_pure_ok h₆
  obtain ⟨hT, hl⟩ := hitem it hit
  exact ⟨it, it', hit, rfl, rfl, patchItem_keeps hs h₅ hT hl hA⟩

/-- Mounting an item of template `T` under `P` inserts one root under `P`. -/
theorem mountItem_keeps (hs : FlatSubpasses sub T P K) {site : List Nat} {spec : LoopSpec Program}
    {env : Env} {p : Projected} {anchor : Option NodeId} {it : LoopItem Mounted}
    (hT : spec.template = T) (h : (mountItem sub.mount site spec env P p anchor).run r = .ok it r')
    (hA : Anchored P K r.document) :
    Anchored P K r'.document ∧ Logs P K r.document r'.document 0 1 := by
  unfold mountItem at h
  obtain ⟨node, r₁, h₁, h₂⟩ := run_bind_ok h
  obtain ⟨-, rfl⟩ := run_pure_ok h₂
  rw [hT] at h₁
  exact hs.mount h₁ hA

/-- Mounting the projected item at next position `j`: the new item is put at `j` of the next
items, and the previous items stay. -/
theorem mountAt_spec (hs : FlatSubpasses sub T P K) {site : List Nat} {spec : LoopSpec Program}
    {env : Env} {t t' : Tables} {j : Nat} {anchor : Option NodeId} (hT : spec.template = T)
    (h : (mountAt sub site spec env P t j anchor).run r = .ok t' r')
    (hA : Anchored P K r.document) :
    t'.a = t.a ∧ (∃ it, t'.b = t.b.setIfInBounds j (some it)) ∧
      Anchored P K r'.document ∧ Logs P K r.document r'.document 0 1 := by
  unfold mountAt at h
  obtain ⟨⟨q, pending⟩, r₁, h₁, h₂⟩ := run_bind_ok h
  obtain ⟨-, -, rfl⟩ := take_ok h₁
  obtain ⟨it, r₂, h₃, h₄⟩ := run_bind_ok h₂
  obtain ⟨rfl, rfl⟩ := run_pure_ok h₄
  exact ⟨rfl, ⟨it, rfl⟩, mountItem_keeps hs hT h₃ hA⟩

/-! ## The tables -/

/-- The previous items left in a table are the previous items at their positions. -/
def Remaining (prev : List (LoopItem Mounted)) (a : Array (Option (LoopItem Mounted))) : Prop :=
  ∀ (i : Nat) (it : LoopItem Mounted), a[i]? = some (some it) → prev[i]? = some it

theorem getElem?_setNone {α : Type} {a : Array (Option α)} {i k : Nat} {x : α}
    (h : (a.setIfInBounds i none)[k]? = some (some x)) : k ≠ i ∧ a[k]? = some (some x) := by
  rw [Array.getElem?_setIfInBounds] at h
  split at h
  · split at h <;> simp at h
  · exact ⟨Ne.symm ‹_›, h⟩

theorem remaining_start (prev : List (LoopItem Mounted)) (next : List Projected) :
    Remaining prev (Tables.start prev next).a := by
  intro i it h
  simpa [Tables.start] using h

theorem Remaining.setNone {prev : List (LoopItem Mounted)} {a : Array (Option (LoopItem Mounted))}
    (h : Remaining prev a) (i : Nat) : Remaining prev (a.setIfInBounds i none) :=
  fun _ _ hk => h _ _ (getElem?_setNone hk).2

/-- Patching pairs of positions in order: each previous position of a pair is taken, and its
next position holds the patched item, whose roots are those of the previous item there. -/
theorem patchPairs_spec (hs : FlatSubpasses sub T P K) {spec : LoopSpec Program} {env : Env}
    {prev : List (LoopItem Mounted)} {pairs : List (Nat × Nat)} {t t' : Tables}
    (h : (patchPairs sub spec env pairs t).run r = .ok t' r')
    (hprev : ∀ it ∈ prev, it.node.program = T ∧ LeavesAvoid P it.node)
    (ht : Remaining prev t.a) (hsnd : (pairs.map Prod.snd).Nodup)
    (hlt : ∀ p ∈ pairs, p.2 < t.b.size) (hA : Anchored P K r.document) :
    Remaining prev t'.a ∧ Anchored P K r'.document ∧ Logs P K r.document r'.document 0 0 ∧
      ∀ p ∈ pairs, (∀ it, t'.a[p.1]? ≠ some (some it)) ∧
        ∃ it₀ it, prev[p.1]? = some it₀ ∧ t'.b[p.2]? = some (some it) ∧
          it.node.rootRefs = it₀.node.rootRefs := by
  unfold patchPairs at h
  obtain ⟨t₁, r₁, h₁, h₂⟩ := run_bind_ok h
  obtain ⟨rfl, rfl⟩ := run_pure_ok h₂
  -- the pairs patched so far are taken and filled; a later pair fills another next position
  have hrun := run_forIn_ok (fun rest (u : Tables) s => ∃ done, pairs = done ++ rest ∧
      u.b.size = t.b.size ∧ Remaining prev u.a ∧ Anchored P K s.document ∧
      Logs P K r.document s.document 0 0 ∧ ∀ p ∈ done, (∀ it, u.a[p.1]? ≠ some (some it)) ∧
        ∃ it₀ it, prev[p.1]? = some it₀ ∧ u.b[p.2]? = some (some it) ∧
          it.node.rootRefs = it₀.node.rootRefs)
    ?_ ?_ ⟨[], rfl, rfl, ht, hA, Logs.refl _ _ _, fun _ hp => absurd hp List.not_mem_nil⟩ h₁
  · obtain ⟨done, hdone, -, hrem, hA', hl, hpairs⟩ := hrun
    rw [List.append_nil] at hdone
    subst hdone
    exact ⟨hrem, hA', hl, hpairs⟩
  · rintro ⟨i, j⟩ rest u s u' s' ⟨done, hdone, hsize, hrem, hA', hl, hpairs⟩ hstep
    obtain ⟨u₁, s₁, h₃, h₄⟩ := run_bind_ok hstep
    obtain ⟨he, rfl⟩ := run_pure_ok h₄
    cases he
    obtain ⟨it, it', hit, ha, hb, hk⟩ := patchAt_spec hs h₃
      (fun it hit => hprev it (List.mem_of_getElem? (hrem i it hit))) hA'
    have hj : ∀ p ∈ done, p.2 ≠ j := by
      intro p hp hpj
      rw [hdone, List.map_append, List.map_cons] at hsnd
      exact (List.nodup_append.1 hsnd).2.2 _ (List.mem_map_of_mem hp) _ (List.mem_cons_self ..) hpj
    refine ⟨done ++ [(i, j)], by rw [hdone, List.append_assoc, List.singleton_append],
      by rw [hb, Array.size_setIfInBounds, hsize], ha ▸ hrem.setNone i, hk.anchored,
      by simpa using hl.trans hk.logs, ?_⟩
    intro p hp
    rw [ha, hb]
    rcases List.mem_append.1 hp with hp | hp
    · obtain ⟨htaken, it₀, it₁, hprev₀, hb₀, hroots⟩ := hpairs p hp
      exact ⟨fun it hx => htaken it (getElem?_setNone hx).2, it₀, it₁, hprev₀,
        by rw [Array.getElem?_setIfInBounds_ne (Ne.symm (hj p hp)), hb₀], hroots⟩
    · rw [List.mem_singleton.1 hp]
      refine ⟨fun it hx => (getElem?_setNone hx).1 rfl, it, it', hrem i it hit, ?_, hk.rootRefs⟩
      have hjlt : j < u.b.size := hsize ▸ hlt (i, j) (by rw [hdone]; simp)
      rw [Array.getElem?_setIfInBounds_self_of_lt hjlt]
  · rintro ⟨i, j⟩ rest u s u' s' _ hstep
    obtain ⟨u₁, s₁, -, h₄⟩ := run_bind_ok hstep
    cases (run_pure_ok h₄).1

/-! ## The keys of the middle ranges

After trimming, `A` and `B` share a prefix of length `p` and a suffix of length `s`. A key of the
middle of either one stands in the middle of the other or not at all, so the matching of the
middle ranges finds every common key there, and counting with it counts with the common keys.
-/

section Middle

variable {A B : List Key} {p s : Nat}

/-- A key of the middle of `A` found at no position of the middle of `B` is not in `B`. -/
theorem not_mem_of_middle (hA : A.Nodup) (hpre : ∀ t < p, A[t]? = B[t]?)
    (hsuf : ∀ t < s, A[A.length - s + t]? = B[B.length - s + t]?) {i : Nat} {k : Key}
    (hi : p ≤ i) (hi' : i < A.length - s) (hk : A[i]? = some k)
    (hno : ∀ j, p ≤ j → j < B.length - s → B[j]? ≠ some k) : k ∉ B := by
  intro hkB
  have hj := Sequence.idxOf?_eq_some_idxOf hkB
  obtain ⟨hjB, hBj, -⟩ := List.idxOf?_eq_some_iff.1 hj
  -- the middle of `B` against the middle of `A` is the same argument with the roles swapped
  obtain ⟨hpj, hj'⟩ := Sequence.idxOf?_middle (A := B) (B := A) hA (fun t ht => (hpre t ht).symm)
    (fun t ht => (hsuf t ht).symm) hi hi' hk hj
  exact hno _ hpj hj' (List.getElem?_eq_some_iff.2 ⟨hjB, hBj⟩)

/-- A valid and complete matching of the middle ranges maps each middle position of `B` to the
position of its key in `A`. -/
theorem sources_eq_map_idxOf? (hB : B.Nodup) (hpB : p + s ≤ B.length)
    (hpre : ∀ t < p, A[t]? = B[t]?)
    (hsuf : ∀ t < s, A[A.length - s + t]? = B[B.length - s + t]?) {m : Matching}
    (hv : Matching.Valid A.toArray B.toArray p (A.length - s) p (B.length - s) m)
    (hc : Matching.Complete A.toArray B.toArray p (A.length - s) p (B.length - s) m) :
    m.sources.toList = ((B.drop p).take (B.length - s - p)).map (A.idxOf? ·) := by
  apply List.ext_getElem?
  intro o
  have hsize := hv.size
  rw [Array.getElem?_toList, List.getElem?_map, List.getElem?_take, List.getElem?_drop]
  by_cases ho : o < B.length - s - p
  · rw [if_pos ho]
    obtain ⟨k, hk⟩ : ∃ k, B[p + o]? = some k := ⟨_, List.getElem?_eq_getElem (by omega)⟩
    rw [hk, Option.map_some]
    -- the previous position matched to `p + o`, if any, is where `A` has its key
    cases hi : A.idxOf? k with
    | some i =>
      obtain ⟨hiA, hAi, -⟩ := List.idxOf?_eq_some_iff.1 hi
      obtain ⟨hpi, hi'⟩ := Sequence.idxOf?_middle hB hpre hsuf (by omega) (by omega) hk hi
      have hpair := hc i (p + o) hpi hi' (by omega) (by omega) (by simp [hk, hAi, hiA])
      simpa using (hv.sources i (p + o) (by omega) (by omega)).2 hpair
    | none =>
      obtain ⟨v, hso⟩ : ∃ v, m.sources[o]? = some v :=
        ⟨_, Array.getElem?_eq_getElem (by omega)⟩
      rw [hso]
      cases v with
      | none => rfl
      | some i =>
        have hpair := (hv.sources i (p + o) (by omega) (by omega)).1 (by simpa using hso)
        have hkey := hv.key _ hpair
        simp only [List.getElem?_toArray, hk] at hkey
        exact absurd (List.mem_of_getElem? hkey) (List.idxOf?_eq_none_iff.1 hi)
  · rw [if_neg ho]
    exact Array.getElem?_eq_none (by omega)

/-- Counting along the walk of the middle is counting with the common keys: the matched positions
off a longest increasing run are the common keys off a longest increasing run of their positions
in `A`, and the unmatched positions are the keys of `B` that `A` lacks. -/
theorem middle_counts (hA : A.Nodup) (hB : B.Nodup) (hpA : p + s ≤ A.length)
    (hpB : p + s ≤ B.length) (hpre : ∀ t < p, A[t]? = B[t]?)
    (hsuf : ∀ t < s, A[A.length - s + t]? = B[B.length - s + t]?) {m : Matching}
    (hsrc : m.sources.toList = ((B.drop p).take (B.length - s - p)).map (A.idxOf? ·))
    (hsorted : m.moved = false → (m.sources.toList.filterMap id).Pairwise (· < ·)) :
    (if m.moved then (m.sources.toList.filterMap id).length -
        (Sequence.longestIncreasing m.sources).length else 0) =
      (Sequence.commonKeys A B).length -
        Sequence.longestLength ((Sequence.commonKeys A B).map A.idxOf) ∧
    B.length - s - p - (m.sources.toList.filterMap id).length =
      B.length - (Sequence.commonKeys A B).length := by
  have hf : m.sources.toList.filterMap id =
      ((B.drop p).take (B.length - s - p)).filterMap (A.idxOf? ·) := by
    rw [hsrc, List.filterMap_map]
    rfl
  have hle : (m.sources.toList.filterMap id).length ≤ B.length - s - p := by
    calc (m.sources.toList.filterMap id).length ≤ m.sources.toList.length :=
          List.length_filterMap_le _ _
      _ = B.length - s - p := by rw [hsrc]; simp; omega
  rw [Sequence.length_commonKeys hA hpB hpre hsuf,
    Sequence.longestLength_commonKeys hA hB hpA hpB hpre hsuf, ← hf]
  refine ⟨?_, by omega⟩
  split
  · -- out of order: the walk keeps a longest increasing run in place
    obtain ⟨values, -, hlen⟩ := Sequence.longestIncreasing_spec m.sources
    rw [hlen]
    omega
  · -- in order: the positions increase, so all of them form the longest run
    rename_i hm
    rw [Sequence.longestLength_of_pairwise (hsorted (by simpa using hm))]
    omega

/-- When the middle of `B` has no key of `A`, the common keys are the prefix and the suffix, and
they are in order. -/
theorem common_of_middle_nil (hA : A.Nodup) (hB : B.Nodup) (hpA : p + s ≤ A.length)
    (hpB : p + s ≤ B.length) (hpre : ∀ t < p, A[t]? = B[t]?)
    (hsuf : ∀ t < s, A[A.length - s + t]? = B[B.length - s + t]?)
    (hnil : ((B.drop p).take (B.length - s - p)).filterMap (A.idxOf? ·) = []) :
    (Sequence.commonKeys A B).length = p + s ∧
      Sequence.longestLength ((Sequence.commonKeys A B).map A.idxOf) = p + s := by
  rw [Sequence.length_commonKeys hA hpB hpre hsuf,
    Sequence.longestLength_commonKeys hA hB hpA hpB hpre hsuf, hnil,
    Sequence.longestLength_of_pairwise List.Pairwise.nil]
  simp

end Middle

section Phases

variable {spec : LoopSpec Program} {env : Env} {prev : List (LoopItem Mounted)}

/-- Trimming the common prefix: both ranges start after it, its keys agree, and its items are
patched in place. -/
theorem trimPrefix_spec (hs : FlatSubpasses sub T P K) {aKeys bKeys : Array Key}
    {aEnd bEnd n aStart bStart : Nat} {t t' : Tables}
    (h : (trimPrefix sub spec env aKeys bKeys aEnd bEnd n t).run r = .ok (t', aStart, bStart) r')
    (hprev : ∀ it ∈ prev, it.node.program = T ∧ LeavesAvoid P it.node)
    (ht : Remaining prev t.a) (hA : Anchored P K r.document) :
    bStart = aStart ∧ aStart ≤ aEnd ∧ aStart ≤ bEnd ∧ (∀ k < aStart, aKeys[k]? = bKeys[k]?) ∧
      Remaining prev t'.a ∧ t'.b.size = t.b.size ∧ Anchored P K r'.document ∧
      Logs P K r.document r'.document 0 0 ∧ (aStart = 0 → t' = t) := by
  unfold trimPrefix at h
  dsimp only at h
  obtain ⟨⟨u, a, b⟩, r₁, h₁, h₂⟩ := run_bind_ok h
  obtain ⟨he, rfl⟩ := run_pure_ok h₂
  simp only [Prod.mk.injEq] at he
  obtain ⟨rfl, rfl, rfl⟩ := he
  rw [forIn_range_eq] at h₁
  refine run_forIn_inv (fun (st : Tables × Nat × Nat) s => st.2.2 = st.2.1 ∧ st.2.1 ≤ aEnd ∧
      st.2.1 ≤ bEnd ∧ (∀ k < st.2.1, aKeys[k]? = bKeys[k]?) ∧ Remaining prev st.1.a ∧
      st.1.b.size = t.b.size ∧ Anchored P K s.document ∧ Logs P K r.document s.document 0 0 ∧
      (st.2.1 = 0 → st.1 = t))
    ?_ ⟨rfl, Nat.zero_le _, Nat.zero_le _, fun k hk => absurd hk (Nat.not_lt_zero k), ht, rfl, hA,
      Logs.refl _ _ _, fun _ => rfl⟩ h₁
  rintro - - ⟨u, a, b⟩ s step s' ⟨hba, ha, hb, hkeys, hrem, hsz, hA', hl, ht₀⟩ hstep
  dsimp only at hstep hba ha hb hkeys hrem ⊢
  split at hstep
  · -- both first keys agree: patch them and move on
    rename_i hcond
    simp only [Bool.and_eq_true, decide_eq_true_eq, beq_iff_eq] at hcond
    obtain ⟨⟨hae, hbe⟩, hkey⟩ := hcond
    obtain ⟨u₁, s₁, h₃, h₄⟩ := run_bind_ok hstep
    obtain ⟨rfl, rfl⟩ := run_pure_ok h₄
    obtain ⟨it, it', hit, hua, hub, hk⟩ := patchAt_spec hs h₃
      (fun it hit => hprev it (List.mem_of_getElem? (hrem a it hit))) hA'
    obtain rfl := hba.symm
    dsimp only [ForInStep.value]
    refine ⟨rfl, hae, hbe, fun k hk => ?_, hua ▸ hrem.setNone a,
      by rw [hub, Array.size_setIfInBounds, hsz], hk.anchored, by simpa using hl.trans hk.logs,
      fun h₀ => absurd h₀ (Nat.succ_ne_zero a)⟩
    rcases Nat.lt_succ_iff_lt_or_eq.1 hk with hk | rfl
    · exact hkeys k hk
    · exact hkey
  · obtain ⟨rfl, rfl⟩ := run_pure_ok hstep
    exact ⟨hba, ha, hb, hkeys, hrem, hsz, hA', hl, ht₀⟩

/-- Trimming the common suffix: both ranges end before it, its keys agree, and its items are
patched in place. -/
theorem trimSuffix_spec (hs : FlatSubpasses sub T P K) {aKeys bKeys : Array Key}
    {aStart bStart aEnd bEnd n aEnd' bEnd' : Nat} {t t' : Tables}
    (h : (trimSuffix sub spec env aKeys bKeys aStart bStart aEnd bEnd n t).run r =
      .ok (t', aEnd', bEnd') r')
    (hprev : ∀ it ∈ prev, it.node.program = T ∧ LeavesAvoid P it.node)
    (ht : Remaining prev t.a) (hA : Anchored P K r.document) (haS : aStart ≤ aEnd)
    (hbS : bStart ≤ bEnd) :
    aStart ≤ aEnd' ∧ bStart ≤ bEnd' ∧ aEnd' ≤ aEnd ∧ bEnd' ≤ bEnd ∧ aEnd - aEnd' = bEnd - bEnd' ∧
      (∀ u < aEnd - aEnd', aKeys[aEnd' + u]? = bKeys[bEnd' + u]?) ∧
      Remaining prev t'.a ∧ t'.b.size = t.b.size ∧ Anchored P K r'.document ∧
      Logs P K r.document r'.document 0 0 ∧ (aEnd' = aEnd → t' = t) := by
  unfold trimSuffix at h
  dsimp only at h
  obtain ⟨⟨u, a, b⟩, r₁, h₁, h₂⟩ := run_bind_ok h
  obtain ⟨he, rfl⟩ := run_pure_ok h₂
  simp only [Prod.mk.injEq] at he
  obtain ⟨rfl, rfl, rfl⟩ := he
  rw [forIn_range_eq] at h₁
  refine run_forIn_inv (fun (st : Tables × Nat × Nat) s => aStart ≤ st.2.1 ∧ bStart ≤ st.2.2 ∧
      st.2.1 ≤ aEnd ∧ st.2.2 ≤ bEnd ∧ aEnd - st.2.1 = bEnd - st.2.2 ∧
      (∀ u < aEnd - st.2.1, aKeys[st.2.1 + u]? = bKeys[st.2.2 + u]?) ∧ Remaining prev st.1.a ∧
      st.1.b.size = t.b.size ∧ Anchored P K s.document ∧ Logs P K r.document s.document 0 0 ∧
      (st.2.1 = aEnd → st.1 = t))
    ?_ ⟨haS, hbS, Nat.le_refl _, Nat.le_refl _, by simp, fun u hu => by simp at hu, ht, rfl, hA,
      Logs.refl _ _ _, fun _ => rfl⟩ h₁
  rintro - - ⟨u, a, b⟩ s step s' ⟨ha, hb, hae, hbe, hlen, hkeys, hrem, hsz, hA', hl, ht₀⟩ hstep
  dsimp only at hstep ha hb hae hbe hlen hkeys hrem ⊢
  split at hstep
  · -- both last keys agree: patch them and move back
    rename_i hcond
    simp only [Bool.and_eq_true, decide_eq_true_eq, beq_iff_eq] at hcond
    obtain ⟨⟨ha₁, hb₁⟩, hkey⟩ := hcond
    obtain ⟨u₁, s₁, h₃, h₄⟩ := run_bind_ok hstep
    obtain ⟨rfl, rfl⟩ := run_pure_ok h₄
    obtain ⟨it, it', hit, hua, hub, hk⟩ := patchAt_spec hs h₃
      (fun it hit => hprev it (List.mem_of_getElem? (hrem _ it hit))) hA'
    dsimp only [ForInStep.value]
    refine ⟨by omega, by omega, by omega, by omega, by omega, fun v hv => ?_,
      hua ▸ hrem.setNone _, by rw [hub, Array.size_setIfInBounds, hsz], hk.anchored,
      by simpa using hl.trans hk.logs, fun h₀ => by omega⟩
    rcases v with _ | v
    · simpa using hkey
    · rw [show a - 1 + (v + 1) = a + v by omega, show b - 1 + (v + 1) = b + v by omega]
      exact hkeys v (by omega)
  · obtain ⟨rfl, rfl⟩ := run_pure_ok hstep
    exact ⟨ha, hb, hae, hbe, hlen, hkeys, hrem, hsz, hA', hl, ht₀⟩

/-- Mounting the projected items of a next range inserts one root under `P` for each. -/
theorem insertRange_spec (hs : FlatSubpasses sub T P K) {site : List Nat} {bStart bEnd : Nat}
    {t t' : Tables} (hT : spec.template = T)
    (h : (insertRange sub site spec env P bStart bEnd t).run r = .ok t' r')
    (hA : Anchored P K r.document) :
    Anchored P K r'.document ∧ Logs P K r.document r'.document 0 (bEnd - bStart) := by
  unfold insertRange at h
  dsimp only at h
  obtain ⟨u, r₁, h₁, h₂⟩ := run_bind_ok h
  obtain ⟨-, rfl⟩ := run_pure_ok h₂
  rw [forIn_range_eq] at h₁
  -- each position mounted so far inserted one root
  have hrun := run_forIn_ok (fun rest (_ : Tables) s => rest.length ≤ bEnd - bStart ∧
      Anchored P K s.document ∧ Logs P K r.document s.document 0 (bEnd - bStart - rest.length))
    ?_ ?_ ⟨by simp, hA, by simpa using Logs.refl P K r.document⟩ h₁
  · simpa using hrun.2
  · intro j rest u s u' s' ⟨hlen, hA', hl⟩ hstep
    obtain ⟨u₁, s₁, h₃, h₄⟩ := run_bind_ok hstep
    obtain ⟨he, rfl⟩ := run_pure_ok h₄
    cases he
    obtain ⟨-, -, hA₁, hl₁⟩ := mountAt_spec hs hT h₃ hA'
    simp only [List.length_cons] at hlen
    refine ⟨by omega, hA₁, ?_⟩
    have hl' := hl.trans hl₁
    rwa [List.length_cons, show bEnd - bStart - (rest.length + 1) + 1 =
      bEnd - bStart - rest.length by omega] at hl'
  · intro j rest u s u' s' _ hstep
    obtain ⟨u₁, s₁, -, h₄⟩ := run_bind_ok hstep
    cases (run_pure_ok h₄).1

/-- Removing the previous items of a range, all of whose roots are outside `K`. -/
theorem removeRange_spec (hs : FlatSubpasses sub T P K) {aStart aEnd : Nat} {t t' : Tables}
    (h : (removeRange sub P aStart aEnd t).run r = .ok t' r')
    (hgone : ∀ i it, aStart ≤ i → i < aEnd → t.a[i]? = some (some it) →
      ∀ x ∈ it.node.roots, x ∉ K)
    (hA : Anchored P K r.document) :
    Anchored P K r'.document ∧ Logs P K r.document r'.document 0 0 := by
  unfold removeRange at h
  dsimp only at h
  obtain ⟨a', r₁, h₁, h₂⟩ := run_bind_ok h
  obtain ⟨-, rfl⟩ := run_pure_ok h₂
  rw [forIn_range_eq] at h₁
  -- the items left are among the table's; removing one keeps `K` under `P`
  refine (run_forIn_inv (fun (a : Array (Option (LoopItem Mounted))) s =>
      (∀ (i : Nat) (it : LoopItem Mounted), a[i]? = some (some it) → t.a[i]? = some (some it)) ∧
      Anchored P K s.document ∧ Logs P K r.document s.document 0 0)
    ?_ ⟨fun _ _ hi => hi, hA, Logs.refl _ _ _⟩ h₁).2
  intro i hi a s step s' ⟨hsub, hA', hl⟩ hstep
  have hi := List.mem_range'_1.1 hi
  obtain ⟨⟨it, a₁⟩, s₁, h₃, h₄⟩ := run_bind_ok hstep
  obtain ⟨hit, rfl, rfl⟩ := take_ok h₃
  dsimp only at h₄
  obtain ⟨_, s₂, h₅, h₆⟩ := run_bind_ok h₄
  obtain ⟨rfl, rfl⟩ := run_pure_ok h₆
  have hk := removeItem_keeps hs h₅ (hgone i it hi.1 (by omega) (hsub i it hit)) hA'
  exact ⟨fun k x hx => hsub k x (getElem?_setNone hx).2, hk.1, by simpa using hl.trans hk.2⟩

/-- Removing the previous items of a range that are left, all of whose roots are outside `K`. -/
theorem removeLeft_spec (hs : FlatSubpasses sub T P K) {aStart aEnd : Nat} {t t' : Tables}
    (h : (removeLeft sub P aStart aEnd t).run r = .ok t' r')
    (hgone : ∀ i it, aStart ≤ i → i < aEnd → t.a[i]? = some (some it) →
      ∀ x ∈ it.node.roots, x ∉ K)
    (hA : Anchored P K r.document) :
    t'.b = t.b ∧ Anchored P K r'.document ∧ Logs P K r.document r'.document 0 0 := by
  unfold removeLeft at h
  dsimp only at h
  obtain ⟨a', r₁, h₁, h₂⟩ := run_bind_ok h
  obtain ⟨rfl, rfl⟩ := run_pure_ok h₂
  rw [forIn_range_eq] at h₁
  refine ⟨rfl, (run_forIn_inv (fun (a : Array (Option (LoopItem Mounted))) s =>
      (∀ (i : Nat) (it : LoopItem Mounted), a[i]? = some (some it) → t.a[i]? = some (some it)) ∧
      Anchored P K s.document ∧ Logs P K r.document s.document 0 0)
    ?_ ⟨fun _ _ hi => hi, hA, Logs.refl _ _ _⟩ h₁).2⟩
  intro i hi a s step s' ⟨hsub, hA', hl⟩ hstep
  have hi := List.mem_range'_1.1 hi
  split at hstep
  · rename_i it hit
    obtain ⟨_, s₂, h₅, h₆⟩ := run_bind_ok hstep
    obtain ⟨rfl, rfl⟩ := run_pure_ok h₆
    have hk := removeItem_keeps hs h₅ (hgone i it hi.1 (by omega) (hsub i it hit)) hA'
    exact ⟨fun k x hx => hsub k x (getElem?_setNone hx).2, hk.1, by simpa using hl.trans hk.2⟩
  · obtain ⟨rfl, rfl⟩ := run_pure_ok hstep
    exact ⟨hsub, hA', hl⟩

/-- The positions a walk from the end has left: those below `n`, the last one first. -/
theorem reverse_range_eq_cons {n o : Nat} {rest : List Nat}
    (h : (List.range n).reverse = o :: rest) : n = o + 1 ∧ rest = (List.range o).reverse := by
  cases n with
  | zero => simp at h
  | succ k =>
    rw [List.range_succ, List.reverse_append, List.reverse_singleton, List.singleton_append,
      List.cons.injEq] at h
    obtain ⟨rfl, rfl⟩ := h
    exact ⟨rfl, rfl⟩

/-- The walk of the middle range from its end: each unmatched position mounts one item, and when
some pair is out of order, each matched position off a longest increasing run of previous
positions moves its item once. -/
theorem placeMiddle_spec (hs : FlatSubpasses sub T P K) {site : List Nat} {m : Matching}
    {bStart bLen : Nat} {t t' : Tables} (hT : spec.template = T)
    (h : (placeMiddle sub site spec env P m bStart bLen t).run r = .ok t' r')
    (hsize : m.sources.size = bLen)
    (hfilled : ∀ o i, m.sources[o]? = some (some i) →
      ∃ it x, t.b[bStart + o]? = some (some it) ∧ it.node.rootRefs = [.host x] ∧ x ∈ K)
    (hA : Anchored P K r.document) :
    Anchored P K r'.document ∧ Logs P K r.document r'.document
      (if m.moved then (m.sources.toList.filterMap id).length -
        (Sequence.longestIncreasing m.sources).length else 0)
      (bLen - (m.sources.toList.filterMap id).length) := by
  unfold placeMiddle at h
  dsimp only at h
  obtain ⟨⟨u, c⟩, r₁, h₁, h₂⟩ := run_bind_ok h
  obtain ⟨-, rfl⟩ := run_pure_ok h₂
  generalize hlis : (if m.moved = true then Sequence.longestIncreasing m.sources else []) = lis
    at h₁
  -- the run kept in place lists ascending positions that hold a previous position
  have hrun : lis.Pairwise (· < ·) ∧ ∀ o ∈ lis, (Sequence.valueAt m.sources o).isSome := by
    subst hlis
    split
    · obtain ⟨values, hv, -⟩ := Sequence.longestIncreasing_spec m.sources
      refine ⟨hv.ascending, fun o ho => ?_⟩
      obtain ⟨v, hv'⟩ := hv.present ho
      simp [hv']
    · exact ⟨List.Pairwise.nil, fun o ho => absurd ho List.not_mem_nil⟩
  have hlt : ∀ o, (Sequence.valueAt m.sources o).isSome → o < bLen := by
    intro o ho
    by_contra hge
    simp [Sequence.valueAt, Array.getElem?_eq_none (by omega : m.sources.size ≤ o)] at ho
  -- the walk has settled the positions from `n` on: the cursor counts the run below `n`, and
  -- the log counts the moves and mounts of the settled positions
  have hwalk := run_forIn_ok (fun rest (st : Tables × Nat) s => ∃ n,
      rest = (List.range n).reverse ∧ n ≤ bLen ∧ st.2 = lis.countP (· < n) ∧
      (∀ o i, o < n → m.sources[o]? = some (some i) →
        ∃ it x, st.1.b[bStart + o]? = some (some it) ∧ it.node.rootRefs = [.host x] ∧ x ∈ K) ∧
      Anchored P K s.document ∧
      Logs P K r.document s.document
        (if m.moved then (List.range' n (bLen - n)).countP
          (fun o => (Sequence.valueAt m.sources o).isSome ∧ o ∉ lis) else 0)
        ((List.range' n (bLen - n)).countP (fun o => ¬(Sequence.valueAt m.sources o).isSome)))
    ?_ ?_ ⟨bLen, rfl, Nat.le_refl _,
      (List.countP_eq_length.2 fun o ho => by simpa using hlt o (hrun.2 o ho)).symm,
      fun o i _ ho => hfilled o i ho, hA, by simpa using Logs.refl P K r.document⟩ h₁
  · obtain ⟨n, hn, -, -, -, hA', hl⟩ := hwalk
    obtain rfl : n = 0 := by simpa using hn
    refine ⟨hA', ?_⟩
    have hmatched : (List.range' 0 bLen).countP (fun o => (Sequence.valueAt m.sources o).isSome) =
        (m.sources.toList.filterMap id).length := by
      rw [← List.range_eq_range', Sequence.countP_range_isSome, ← hsize,
        Sequence.presentValues_size]
    have hinserts := List.length_eq_countP_add_countP
      (fun o => (Sequence.valueAt m.sources o).isSome) (l := List.range' 0 bLen)
    rw [List.length_range', hmatched] at hinserts
    rw [Nat.sub_zero] at hl
    rw [show bLen - (m.sources.toList.filterMap id).length =
      (List.range' 0 bLen).countP (fun o => ¬(Sequence.valueAt m.sources o).isSome) by omega]
    convert hl using 2
    rename_i hm
    rw [if_pos hm] at hlis
    subst hlis
    rw [← List.range_eq_range', Sequence.countP_range_and_not_mem
      (p := fun o => (Sequence.valueAt m.sources o).isSome) (List.Pairwise.nodup hrun.1)
      (fun o ho => ⟨hlt o (hrun.2 o ho), hrun.2 o ho⟩), List.range_eq_range', hmatched]
  · rintro o rest ⟨t₀, c₀⟩ s st s' ⟨n, hrest, hn, hc, hfill, hA', hl⟩ hstep
    obtain ⟨rfl, rfl⟩ := reverse_range_eq_cons hrest.symm
    dsimp only at hc hfill hstep
    have hk : o < bLen := by omega
    have hcursor : lis.countP (· < o + 1) = lis.countP (· < o) + if o ∈ lis then 1 else 0 := by
      rw [Sequence.countP_lt_succ, List.Nodup.count (List.Pairwise.nodup hrun.1)]
    -- this step settles position `o`: the counts from `o` on add its move and its mount
    refine ⟨o, rfl, Nat.le_of_lt hk, ?_⟩
    rw [Sequence.countP_range'_of_lt hk, Sequence.countP_range'_of_lt hk]
    split at hstep
    · -- an unmatched position mounts a new item
      rename_i hsk
      obtain ⟨t₁, s₁, h₃, h₄⟩ := run_bind_ok hstep
      obtain ⟨he, rfl⟩ := run_pure_ok h₄
      cases he
      obtain ⟨-, ⟨it, hb⟩, hA₁, hl₁⟩ := mountAt_spec hs hT h₃ hA'
      have hv : Sequence.valueAt m.sources o = none := by simp [Sequence.valueAt, hsk]
      have hno : o ∉ lis := fun ho => by simpa [hv] using hrun.2 o ho
      refine ⟨by rw [hc, hcursor, if_neg hno, Nat.add_zero], fun o' i ho' hi => ?_, hA₁,
        by simpa [hv] using hl.trans hl₁⟩
      obtain ⟨it', x, hb', hx⟩ := hfill o' i (by omega) hi
      exact ⟨it', x, by rw [hb, Array.getElem?_setIfInBounds_ne (by omega)]; exact hb', hx⟩
    · -- a matched position moves its item unless it is on the run
      rename_i i hsk
      have hv : Sequence.valueAt m.sources o = some i := by simp [Sequence.valueAt, hsk]
      have hfill' : ∀ o' i', o' < o → m.sources[o']? = some (some i') →
          ∃ it x, t₀.b[bStart + o']? = some (some it) ∧ it.node.rootRefs = [.host x] ∧ x ∈ K :=
        fun o' i' ho' hi' => hfill o' i' (by omega) hi'
      obtain ⟨it, x, hb, hroots, hx⟩ := hfill o i (by omega) hsk
      split at hstep
      · rename_i hm
        split at hstep
        · -- on the run: the cursor steps past it
          rename_i hhit
          rw [hc, Sequence.cursor_hit_iff hrun.1] at hhit
          obtain ⟨he, rfl⟩ := run_pure_ok hstep
          cases he
          exact ⟨by rw [hc, hcursor, if_pos hhit, Nat.add_sub_cancel], hfill', hA',
            by simpa [hv, hhit] using hl⟩
        · -- off the run: its root is inserted again
          rename_i hhit
          rw [hc, Sequence.cursor_hit_iff hrun.1] at hhit
          rw [hb] at hstep
          obtain ⟨_, s₁, h₃, h₄⟩ := run_bind_ok hstep
          obtain ⟨he, rfl⟩ := run_pure_ok h₄
          cases he
          rw [roots_eq_of_host hroots] at h₃
          obtain ⟨hA₁, hl₁⟩ := insertNodes_moves h₃ (by simpa using hx) hA'
          exact ⟨by rw [hc, hcursor, if_neg hhit, Nat.add_zero], hfill', hA₁,
            by simpa [hv, hhit, hm] using hl.trans hl₁⟩
      · -- all pairs in order: nothing moves, and the run is empty
        rename_i hm
        obtain ⟨he, rfl⟩ := run_pure_ok hstep
        cases he
        obtain rfl : lis = [] := by rw [← hlis, if_neg hm]
        exact ⟨by simpa using hc, hfill', hA', by simpa [hv, hm] using hl⟩
    · -- every position of the range has an entry
      rename_i hsk
      simp [hsize] at hsk
      omega
  · -- every branch of the walk goes on to the next position
    intro o rest st s st' s' _ hstep
    repeat' split at hstep
    all_goals first
      | cases (run_pure_ok hstep).1
      | (obtain ⟨_, s₁, -, h₄⟩ := run_bind_ok hstep; cases (run_pure_ok h₄).1)

/-- Mounting each of a list of projected items, in order, inserts one root under `P` for each. -/
theorem mapM_mountItem_spec (hs : FlatSubpasses sub T P K) {site : List Nat} (hT : spec.template = T)
    {anchor : Option NodeId} :
    ∀ {ps : List Projected} {items : List (LoopItem Mounted)} {r r' : Renderer},
      (ps.mapM fun p => mountItem sub.mount site spec env P p anchor).run r = .ok items r' →
      Anchored P K r.document →
      Anchored P K r'.document ∧ Logs P K r.document r'.document 0 ps.length
  | [], _, r, r', h, hA => by
    obtain ⟨-, rfl⟩ := run_pure_ok h
    exact ⟨hA, Logs.refl _ _ _⟩
  | p :: ps, _, r, r', h, hA => by
    rw [List.mapM_cons] at h
    obtain ⟨it, r₁, h₁, h₂⟩ := run_bind_ok h
    obtain ⟨its, r₂, h₃, h₄⟩ := run_bind_ok h₂
    obtain ⟨-, rfl⟩ := run_pure_ok h₄
    obtain ⟨hA₁, hl₁⟩ := mountItem_keeps hs hT h₁ hA
    obtain ⟨hA₂, hl₂⟩ := mapM_mountItem_spec hs hT h₃ hA₁
    exact ⟨hA₂, by simpa [Nat.add_comm] using hl₁.trans hl₂⟩

/-- Replacing the whole list when no root stays: the items left are cleared and each projected
item left is mounted, inserting one root under `P`. -/
theorem replaceAll_spec (hs : FlatSubpasses sub T P K) {site : List Nat} {t : Tables}
    {items : List (LoopItem Mounted)} (hT : spec.template = T)
    (h : (replaceAll sub site spec env P t).run r = .ok items r') (hK : ∀ x, x ∉ K)
    (hA : Anchored P K r.document) :
    Anchored P K r'.document ∧
      Logs P K r.document r'.document 0 (t.pending.toList.filterMap id).length := by
  unfold replaceAll at h
  obtain ⟨_, r₁, h₁, h₂⟩ := run_bind_ok h
  obtain ⟨hA₁, hl₁⟩ := clearItems_keeps hs h₁ hK hA
  obtain ⟨its, r₂, h₃, h₄⟩ := run_bind_ok h₂
  obtain ⟨-, rfl⟩ := run_pure_ok h₄
  have hrun := run_forIn_ok (fun rest (_ : Array (LoopItem Mounted)) s =>
      rest.length ≤ (t.pending.toList.filterMap id).length ∧ Anchored P K s.document ∧
      Logs P K r.document s.document 0 ((t.pending.toList.filterMap id).length - rest.length))
    ?_ ?_ ⟨Nat.le_refl _, hA₁, by simpa using hl₁⟩ h₃
  · simpa using hrun.2
  · intro p rest u s u' s' ⟨hlen, hA', hl⟩ hstep
    obtain ⟨it, s₁, h₅, h₆⟩ := run_bind_ok hstep
    obtain ⟨he, rfl⟩ := run_pure_ok h₆
    obtain ⟨hA₂, hl₂⟩ := mountItem_keeps hs hT h₅ hA'
    simp only [List.length_cons] at hlen
    refine ⟨by omega, hA₂, ?_⟩
    have hl' := hl.trans hl₂
    rwa [List.length_cons, show (t.pending.toList.filterMap id).length - (rest.length + 1) + 1 =
      (t.pending.toList.filterMap id).length - rest.length by omega] at hl'
  · intro p rest u s u' s' _ hstep
    obtain ⟨it, s₁, -, h₆⟩ := run_bind_ok hstep
    cases (run_pure_ok h₆).1

theorem collect_ok {t : Tables} {items : List (LoopItem Mounted)}
    (h : (collect t).run r = .ok items r') : r' = r := by
  unfold collect at h
  split at h
  · exact (run_pure_ok h).2
  · exact (run_throw_ok h).elim

end Phases

/-! ## Reconciling -/

/-- What trimming a reconcile from `prev` to `next` leaves: their keys share a prefix of `p` and a
suffix of `s` keys, the previous items not yet taken stand at their positions, and the table of
next items is as long as `next`; when nothing was trimmed, the tables are as they started. -/
structure Trimmed (prev : List (LoopItem Mounted)) (next : List Projected) (t : Tables)
    (p s : Nat) : Prop where
  le_prev : p + s ≤ (prev.map (·.key)).length
  le_next : p + s ≤ (next.map (·.key)).length
  prefix_eq : ∀ k < p, (prev.map (·.key))[k]? = (next.map (·.key))[k]?
  suffix_eq : ∀ u < s, (prev.map (·.key))[(prev.map (·.key)).length - s + u]? =
    (next.map (·.key))[(next.map (·.key)).length - s + u]?
  remaining : Remaining prev t.a
  size_b : t.b.size = next.length
  start : p = 0 → s = 0 → t = Tables.start prev next

section Reconcile

variable {spec : LoopSpec Program} {env : Env} {prev : List (LoopItem Mounted)}
  {next : List Projected}

/-- Trimming both ends from the start tables: the ranges left start at `p` and end `s` before
the ends of both lists, and the items trimmed were patched in place. -/
theorem trim_spec (hs : FlatSubpasses sub T P K) {t₁ t₂ : Tables} {aStart bStart aEnd bEnd : Nat}
    {r₁ : Renderer}
    (h₁ : (trimPrefix sub spec env (prev.map (·.key)).toArray (next.map (·.key)).toArray
      prev.length next.length prev.length (Tables.start prev next)).run r =
        .ok (t₁, aStart, bStart) r₁)
    (h₂ : (trimSuffix sub spec env (prev.map (·.key)).toArray (next.map (·.key)).toArray aStart
      bStart prev.length next.length prev.length t₁).run r₁ = .ok (t₂, aEnd, bEnd) r')
    (hprev : ∀ it ∈ prev, it.node.program = T ∧ LeavesAvoid P it.node)
    (hA : Anchored P K r.document) :
    ∃ s, bStart = aStart ∧ aEnd = prev.length - s ∧ bEnd = next.length - s ∧
      Trimmed prev next t₂ aStart s ∧ Anchored P K r'.document ∧
      Logs P K r.document r'.document 0 0 := by
  obtain ⟨hba, haE, hbE, hpre, hrem₁, hsz₁, hA₁, hl₁, ht₁⟩ :=
    trimPrefix_spec hs h₁ hprev (remaining_start prev next) hA
  obtain ⟨ha, hb, hae, hbe, hlen, hsuf, hrem₂, hsz₂, hA₂, hl₂, ht₂⟩ :=
    trimSuffix_spec hs h₂ hprev hrem₁ hA₁ haE (hba ▸ hbE)
  refine ⟨prev.length - aEnd, hba, by omega, by omega, ⟨by simp; omega, by simp; omega,
    fun k hk => by simpa using hpre k hk, fun u hu => ?_, hrem₂, ?_, fun hp hs₀ => ?_⟩, hA₂,
    by simpa using hl₁.trans hl₂⟩
  · rw [List.length_map, List.length_map, show prev.length - (prev.length - aEnd) = aEnd by omega,
      show next.length - (prev.length - aEnd) = bEnd by omega]
    simpa using hsuf u hu
  · rw [hsz₂, hsz₁]
    simp [Tables.start]
  · rw [ht₂ (by omega), ht₁ hp]

/-- The roots `K` that stay are those of the previous items whose key is next too: every previous
item has one root, in `K` exactly when its key is next, and every node of `K` is such a root. -/
structure KeptRoots (prev : List (LoopItem Mounted)) (next : List Projected) (K : List NodeId) :
    Prop where
  root : ∀ it ∈ prev, ∃ x, it.node.rootRefs = [.host x] ∧ (x ∈ K ↔ it.key ∈ next.map (·.key))
  mem : ∀ x ∈ K, ∃ it ∈ prev, x ∈ it.node.roots

namespace KeptRoots

theorem roots_not_mem (hk : KeptRoots prev next K) {it : LoopItem Mounted} (hit : it ∈ prev)
    (hkey : it.key ∉ next.map (·.key)) : ∀ x ∈ it.node.roots, x ∉ K := by
  obtain ⟨y, hy, hiff⟩ := hk.root it hit
  intro x hx hxK
  rw [roots_eq_of_host hy, List.mem_singleton] at hx
  exact hkey (hiff.1 (hx ▸ hxK))

theorem not_mem_of_disjoint (hk : KeptRoots prev next K)
    (hnone : ∀ it ∈ prev, it.key ∉ next.map (·.key)) (x : NodeId) : x ∉ K := fun hx =>
  have ⟨it, hit, hxit⟩ := hk.mem x hx
  hk.roots_not_mem hit (hnone it hit) x hxit hx

end KeptRoots

/-- Reconciling non-empty lists of items whose keys are distinct on both sides, where the items
of `K` are the kept ones: it moves the kept items off a longest increasing run of their previous
positions, mounts the new ones, and removes or creates no kept root. -/
theorem reconcile_spec (hs : FlatSubpasses sub T P K) {site : List Nat}
    {items : List (LoopItem Mounted)} (hT : spec.template = T)
    (h : (reconcile sub site spec env P prev next).run r = .ok items r')
    (hprev : ∀ it ∈ prev, it.node.program = T ∧ LeavesAvoid P it.node)
    (hA_nodup : (prev.map (·.key)).Nodup) (hB_nodup : (next.map (·.key)).Nodup)
    (hk : KeptRoots prev next K) (hA : Anchored P K r.document) :
    Anchored P K r'.document ∧ Logs P K r.document r'.document
      ((Sequence.commonKeys (prev.map (·.key)) (next.map (·.key))).length -
        Sequence.longestLength ((Sequence.commonKeys (prev.map (·.key)) (next.map (·.key))).map
          (prev.map (·.key)).idxOf))
      ((next.map (·.key)).length -
        (Sequence.commonKeys (prev.map (·.key)) (next.map (·.key))).length) := by
  unfold reconcile at h
  dsimp only at h
  obtain ⟨⟨t₁, aStart, bStart⟩, r₁, h₁, h₂⟩ := run_bind_ok h
  obtain ⟨⟨t₂, aEnd, bEnd⟩, r₂, h₃, h₄⟩ := run_bind_ok h₂
  obtain ⟨s, rfl, rfl, rfl, ht, hA₂, hl₂⟩ := trim_spec hs h₁ h₃ hprev hA
  dsimp only at h₄
  have hpA := ht.le_prev
  have hpB := ht.le_next
  simp only [List.length_map] at hpA hpB
  split at h₄
  · -- all of the previous range is trimmed: the next range is mounted
    rename_i hempty
    have hps : bStart + s = prev.length := by simp at hempty; omega
    obtain ⟨t₃, r₃, h₅, h₆⟩ := run_bind_ok h₄
    obtain ⟨hA₃, hl₃⟩ := insertRange_spec hs hT h₅ hA₂
    rw [collect_ok h₆]
    obtain ⟨hC, hL⟩ := common_of_middle_nil hA_nodup hB_nodup ht.le_prev ht.le_next ht.prefix_eq
      ht.suffix_eq (List.eq_nil_iff_forall_not_mem.2 fun i hi => by
        have := Sequence.mem_filterMap_middle hB_nodup ht.prefix_eq ht.suffix_eq hi
        simp at this
        omega)
    refine ⟨hA₃, ?_⟩
    rw [hC, hL, List.length_map, Nat.sub_self, show next.length - (bStart + s) = next.length - s - bStart
      by omega]
    simpa using hl₂.trans hl₃
  · split at h₄
    · -- all of the next range is trimmed: the previous range is removed
      rename_i _ hempty
      have hps : bStart + s = next.length := by simp at hempty; omega
      obtain ⟨t₃, r₃, h₅, h₆⟩ := run_bind_ok h₄
      obtain ⟨hA₃, hl₃⟩ := removeRange_spec hs h₅ (fun i it hi hi' hit => hk.roots_not_mem
        (List.mem_of_getElem? (ht.remaining i it hit))
        (not_mem_of_middle hA_nodup ht.prefix_eq ht.suffix_eq hi (by simpa using hi')
          (by simp [ht.remaining i it hit]) fun j hj hj' => by simp at hj'; omega)) hA₂
      rw [collect_ok h₆]
      obtain ⟨hC, hL⟩ := common_of_middle_nil hA_nodup hB_nodup ht.le_prev ht.le_next ht.prefix_eq
        ht.suffix_eq (by simp [show next.length - s - bStart = 0 by omega])
      refine ⟨hA₃, ?_⟩
      rw [hC, hL, List.length_map, Nat.sub_self, show next.length - (bStart + s) = 0 by omega]
      simpa using hl₂.trans hl₃
    · -- both ranges are left: match them, patch the pairs, then remove, move and mount
      rename_i hne₁ hne₂
      generalize hm : (if Matching.probesLinearly (prev.length - s - bStart)
          (next.length - s - bStart) = true then
        Matching.linear (prev.map (·.key)).toArray (next.map (·.key)).toArray bStart
          (prev.length - s) bStart (next.length - s)
        else Matching.indexed (prev.map (·.key)).toArray (next.map (·.key)).toArray bStart
          (prev.length - s) bStart (next.length - s)) = m at h₄
      have hlin : m = Matching.linear (prev.map (·.key)).toArray (next.map (·.key)).toArray bStart
          (prev.length - s) bStart (next.length - s) ∨
          m = Matching.indexed (prev.map (·.key)).toArray (next.map (·.key)).toArray bStart
          (prev.length - s) bStart (next.length - s) := by
        rw [← hm]
        split
        · exact Or.inl rfl
        · exact Or.inr rfl
      obtain ⟨hv, hc, hsorted⟩ := Matching.sound_of_linear_or_indexed (by simpa using hA_nodup)
        (by simpa using hB_nodup) (by simp) (by simp) hlin
      obtain ⟨t₃, r₃, h₅, h₆⟩ := run_bind_ok h₄
      obtain ⟨hrem₃, hA₃, hl₃, hpairs⟩ := patchPairs_spec hs h₅ hprev ht.remaining hv.snd_nodup
        (fun q hq => by have := hv.range q hq; rw [ht.size_b]; omega) hA₂
      split at h₆
      · -- nothing was trimmed or matched: no previous key is next, and the list is replaced
        rename_i hall
        simp only [Bool.and_eq_true, beq_iff_eq] at hall
        obtain ⟨hlen, hsynced⟩ := hall
        obtain rfl : bStart = 0 := by omega
        obtain rfl : s = 0 := by omega
        have hnil : m.pairs = [] := List.length_eq_zero_iff.1 (hv.synced ▸ hsynced)
        have ht₃ : t₃ = t₂ := by
          rw [hnil] at h₅
          exact (run_pure_ok h₅).1
        have hnone : ∀ it ∈ prev, it.key ∉ next.map (·.key) := by
          intro it hit hkB
          obtain ⟨i, hi⟩ := List.getElem?_of_mem hit
          obtain ⟨j, hj⟩ := List.getElem?_of_mem hkB
          have hij := hc i j (Nat.zero_le _) (by simpa using (List.getElem?_eq_some_iff.1 hi).1)
            (Nat.zero_le _) (by simpa using (List.getElem?_eq_some_iff.1 hj).1)
            (by rw [List.getElem?_toArray, List.getElem?_toArray, hj, List.getElem?_map, hi]; rfl)
          rw [hnil] at hij
          exact List.not_mem_nil hij
        have hC : Sequence.commonKeys (prev.map (·.key)) (next.map (·.key)) = [] := by
          rw [Sequence.commonKeys, List.filter_eq_nil_iff]
          intro k hkB hkA
          obtain ⟨it, hit, rfl⟩ := List.mem_map.1 (of_decide_eq_true hkA)
          exact hnone it hit hkB
        obtain ⟨hA₄, hl₄⟩ := replaceAll_spec hs hT h₆ (hk.not_mem_of_disjoint hnone) hA₃
        rw [ht₃, ht.start rfl rfl] at hl₄
        refine ⟨hA₄, ?_⟩
        rw [hC]
        simpa [Tables.start] using (hl₂.trans hl₃).trans hl₄
      · -- some previous item is kept: the previous items left are removed, and the walk of the
        have hgone : ∀ i it, bStart ≤ i → i < prev.length - s → t₃.a[i]? = some (some it) →
            ∀ x ∈ it.node.roots, x ∉ K := by
          intro i it hi hi' hit
          refine hk.roots_not_mem (List.mem_of_getElem? (hrem₃ i it hit))
            (not_mem_of_middle hA_nodup ht.prefix_eq ht.suffix_eq hi (by simpa using hi')
              (by simp [hrem₃ i it hit]) fun j hj hj' hkj => ?_)
          have hpair := hc i j hi hi' hj (by simpa using hj')
            (by rw [List.getElem?_toArray, List.getElem?_toArray, hkj, List.getElem?_map,
              hrem₃ i it hit]; rfl)
          exact (hpairs _ hpair).1 it hit
        obtain ⟨t₄, r₄, h₇, h₈⟩ := run_bind_ok h₆
        obtain ⟨hb₄, hA₄, hl₄⟩ := removeLeft_spec hs h₇ hgone hA₃
        have hfilled : ∀ o i, m.sources[o]? = some (some i) → ∃ it x,
            t₄.b[bStart + o]? = some (some it) ∧ it.node.rootRefs = [.host x] ∧ x ∈ K := by
          intro o i ho
          have ho' : o < m.sources.size := (Array.getElem?_eq_some_iff.1 ho).1
          have hpair := (hv.sources i (bStart + o) (by omega) (by rw [hv.size] at ho'; omega)).1
            (by simpa using ho)
          obtain ⟨-, it₀, it, hit₀, hb, hroots⟩ := hpairs _ hpair
          obtain ⟨x, hx, hiff⟩ := hk.root it₀ (List.mem_of_getElem? hit₀)
          have hkey := hv.key _ hpair
          rw [List.getElem?_toArray, List.getElem?_toArray, List.getElem?_map, hit₀] at hkey
          exact ⟨it, x, hb₄ ▸ hb, hroots.trans hx, hiff.2 (List.mem_of_getElem? hkey.symm)⟩
        obtain ⟨t₅, r₅, h₉, h₁₀⟩ := run_bind_ok h₈
        obtain ⟨hA₅, hl₅⟩ := placeMiddle_spec hs hT h₉ hv.size hfilled hA₄
        rw [collect_ok h₁₀]
        have hsrc := sources_eq_map_idxOf? hB_nodup ht.le_next ht.prefix_eq ht.suffix_eq
          (by simpa only [List.length_map] using hv) (by simpa only [List.length_map] using hc)
        obtain ⟨hmoves, hmounts⟩ := middle_counts hA_nodup hB_nodup ht.le_prev ht.le_next
          ht.prefix_eq ht.suffix_eq hsrc hsorted
        refine ⟨hA₅, ?_⟩
        rw [← hmoves, ← hmounts]
        simpa using ((hl₂.trans hl₃).trans hl₄).trans hl₅

/-- Bringing a loop's items up to date, whichever of the lists is empty: the kept items off a
longest increasing run of their previous positions move, and the new ones are mounted. -/
theorem reconcileAll_spec (hs : FlatSubpasses sub T P K) {site : List Nat}
    {items : List (LoopItem Mounted)} (hT : spec.template = T)
    (h : (reconcileAll sub site spec env P prev next).run r = .ok items r')
    (hprev : ∀ it ∈ prev, it.node.program = T ∧ LeavesAvoid P it.node)
    (hA_nodup : (prev.map (·.key)).Nodup) (hB_nodup : (next.map (·.key)).Nodup)
    (hk : KeptRoots prev next K) (hA : Anchored P K r.document) :
    Anchored P K r'.document ∧ Logs P K r.document r'.document
      ((Sequence.commonKeys (prev.map (·.key)) (next.map (·.key))).length -
        Sequence.longestLength ((Sequence.commonKeys (prev.map (·.key)) (next.map (·.key))).map
          (prev.map (·.key)).idxOf))
      ((next.map (·.key)).length -
        (Sequence.commonKeys (prev.map (·.key)) (next.map (·.key))).length) := by
  unfold reconcileAll at h
  split at h
  · obtain ⟨-, rfl⟩ := run_pure_ok h
    simpa [Sequence.commonKeys] using And.intro hA (Logs.refl P K _)
  · -- no previous item: every projected item is mounted
    obtain ⟨hA', hl⟩ := mapM_mountItem_spec hs hT h hA
    simpa [Sequence.commonKeys] using And.intro hA' hl
  · -- no next item: no root is kept, and the items are cleared
    obtain ⟨_, r₁, h₁, h₂⟩ := run_bind_ok h
    obtain ⟨-, rfl⟩ := run_pure_ok h₂
    obtain ⟨hA', hl⟩ := clearItems_keeps hs h₁
      (hk.not_mem_of_disjoint fun it _ hkey => by simp at hkey) hA
    simpa [Sequence.commonKeys] using And.intro hA' hl
  · exact reconcile_spec hs hT h hprev hA_nodup hB_nodup hk hA

/-! ## Updating a keyed loop -/

/-- The keys a projection hands back are pairwise distinct, under either duplicate-key policy. -/
theorem project_keys_nodup {ps : List Projected} (h : (project env spec).run r = .ok ps r') :
    (ps.map (·.key)).Nodup := by
  unfold project at h
  obtain ⟨items, r₁, -, h₂⟩ := run_bind_ok h
  dsimp only at h₂
  split at h₂
  · obtain ⟨xs, r₂, h₃, h₄⟩ := run_bind_ok h₂
    obtain ⟨rfl, rfl⟩ := run_pure_ok h₃
    obtain ⟨out, r₃, -, h₅⟩ := run_bind_ok h₄
    obtain ⟨s, r₄, -, h₆⟩ := run_bind_ok h₅
    split at h₆
    · rename_i hd
      obtain ⟨rfl, rfl⟩ := run_pure_ok h₆
      exact Projected.dedupe_nodup hd
    · exact (run_throw_ok h₆).elim
  · obtain ⟨xs, r₂, h₃, -⟩ := run_bind_ok h₂
    exact (run_throw_ok h₃).elim

/-- The roots of the previous items whose key is among the next keys. -/
def keptRoots (prev : List (LoopItem Mounted)) (next : List Projected) : List NodeId :=
  (prev.filter fun it => it.key ∈ next.map (·.key)).flatMap (·.node.roots)

theorem eq_of_mem_roots (hroots : (prev.flatMap (·.node.roots)).Nodup)
    {a b : LoopItem Mounted} (ha : a ∈ prev) (hb : b ∈ prev) {x : NodeId}
    (hxa : x ∈ a.node.roots) (hxb : x ∈ b.node.roots) : a = b := by
  have hsymm : Std.Symm (Function.onFun List.Disjoint fun it : LoopItem Mounted => it.node.roots) :=
    ⟨fun _ _ h => h.symm⟩
  by_contra hne
  exact (List.nodup_flatMap.1 hroots).2.forall ha hb hne hxa hxb

/-- With one host root for each previous item and no root shared, the kept roots are those of
the previous items whose key is next. -/
theorem keptRoots_spec (hone : ∀ it ∈ prev, ∃ x, it.node.rootRefs = [.host x])
    (hroots : (prev.flatMap (·.node.roots)).Nodup) : KeptRoots prev next (keptRoots prev next) where
  root it hit := by
    obtain ⟨x, hx⟩ := hone it hit
    have hxr : x ∈ it.node.roots := by simp [roots_eq_of_host hx]
    refine ⟨x, hx, ⟨fun hxK => ?_, fun hkey => ?_⟩⟩
    · simp only [keptRoots, List.mem_flatMap, List.mem_filter, decide_eq_true_eq] at hxK
      obtain ⟨it', ⟨hit', hkey⟩, hx'⟩ := hxK
      rwa [eq_of_mem_roots hroots hit' hit hx' hxr] at hkey
    · simp only [keptRoots, List.mem_flatMap, List.mem_filter, decide_eq_true_eq]
      exact ⟨it, ⟨hit, hkey⟩, hxr⟩
  mem x hx := by
    simp only [keptRoots, List.mem_flatMap, List.mem_filter] at hx
    obtain ⟨it, ⟨hit, -⟩, hx⟩ := hx
    exact ⟨it, hit, hx⟩

theorem anchored_of_subset {K' : List NodeId} {d : Document} (h : Anchored P K d)
    (hsub : ∀ x ∈ K', x ∈ K) : Anchored P K' d :=
  ⟨h.lt_size, fun x hx => h.parent x (hsub x hx), fun x hx => h.only x (hsub x hx)⟩

/-- The subpasses of an update pass, for a flat well-formed template that places one node:
mounting it places one new root under `P`, updating one of its nodes logs nothing that counts,
and unmounting leaves the document alone. -/
theorem flatSubpasses_of_flat {fuel : Nat} (hflat : T.Flat) (hwf : T.WellFormed)
    (htop : T.topLevelNodes = 1) :
    FlatSubpasses ⟨fun s p e t => mount fuel s p e t, fun n e => updateNode fuel n e,
      unmount fuel⟩ T P K where
  mount h hA := by
    obtain ⟨hA', hl, -⟩ := mount_flat hflat hwf h hA
    exact ⟨hA', htop ▸ hl⟩
  update hT hl h hA := updateNode_flat (hT ▸ hflat) h hA hl
  unmount := keepsDocument_unmount fuel

/-- Updating a keyed loop whose template is flat, well formed and places one node, from items
with distinct keys `A` that each hang one root under the loop's parent `P`, to the projected keys
`B`: with `C` the keys of `B` that `A` has, the update moves `|C| - L` nodes, where `L` is the
length of a longest increasing run of the positions in `A` of `C`, mounts `|B| - |C|` items, each
inserting its one root under `P`, and removes or creates no root of an item it keeps. -/
theorem updateLoop_moves_and_mounts {fuel : Nat} {node node' : Mounted} {k : Nat}
    {P : NodeId} (hflat : spec.template.Flat) (hwf : spec.template.WellFormed)
    (htop : spec.template.topLevelNodes = 1) (hslot : node.slot? spec.slot = some (.loop P prev))
    (hkeys : (prev.map (·.key)).Nodup)
    (hitems : ∀ it ∈ prev, it.node.program = spec.template ∧ LeavesAvoid P it.node ∧
      ∃ x, it.node.rootRefs = [.host x])
    (hroots : (prev.flatMap (·.node.roots)).Nodup)
    (hA : Anchored P (prev.flatMap (·.node.roots)) r.document)
    (h : (updateLoop ⟨fun s p e t => mount fuel s p e t, fun n e => updateNode fuel n e,
      unmount fuel⟩ node k spec env).run r = .ok (node', none) r') :
    ∃ next r₁, (project env spec).run r = .ok next r₁ ∧
      Anchored P (keptRoots prev next) r'.document ∧
      Logs P (keptRoots prev next) r.document r'.document
        ((Sequence.commonKeys (prev.map (·.key)) (next.map (·.key))).length -
          Sequence.longestLength ((Sequence.commonKeys (prev.map (·.key)) (next.map (·.key))).map
            (prev.map (·.key)).idxOf))
        ((next.map (·.key)).length -
          (Sequence.commonKeys (prev.map (·.key)) (next.map (·.key))).length) := by
  unfold updateLoop at h
  rw [hslot] at h
  dsimp only at h
  obtain ⟨res, r₁, h₁, h₂⟩ := run_bind_ok h
  split at h₂
  · cases (run_pure_ok h₂).1
  · rename_i next
    have hproj := run_attempt_ok h₁
    have hd₁ := (keepsDocument_project env spec).ok hproj
    obtain ⟨res', r₂, h₃, h₄⟩ := run_bind_ok h₂
    split at h₄
    · -- the items were reconciled: the update stopped with no error
      obtain ⟨-, rfl⟩ := run_pure_ok h₄
      have hA₁ : Anchored P (keptRoots prev next) r₁.document := by
        rw [hd₁]
        refine anchored_of_subset hA fun x hx => ?_
        simp only [keptRoots, List.mem_flatMap, List.mem_filter] at hx ⊢
        obtain ⟨it, ⟨hit, -⟩, hx⟩ := hx
        exact ⟨it, hit, hx⟩
      obtain ⟨hA', hl⟩ := reconcileAll_spec (flatSubpasses_of_flat hflat hwf htop) rfl
        (run_attempt_ok h₃) (fun it hit => ⟨(hitems it hit).1, (hitems it hit).2.1⟩) hkeys
        (project_keys_nodup hproj) (keptRoots_spec (fun it hit => (hitems it hit).2.2) hroots) hA₁
      exact ⟨next, r₁, hproj, hA', hd₁ ▸ hl⟩
    · cases (run_pure_ok h₄).1

end Reconcile

/-! ## Reordering `[1, 2, 3]` to `[3, 1, 4]` -/

/-- A template that places one `li` element. -/
def liTemplate : Program := .mk [.openElement (.named "li"), .closeElement] 0

/-- A loop over the collection `[3, 1, 4]`, each item its own key. -/
def reorderLoop : LoopSpec Program :=
  { collection := ⟨.arr [.str "lit", .arr [.int 3, .int 1, .int 4]]⟩, slot := 0,
    key := ⟨.arr [.str "item"]⟩, props := none, shouldUpdate := none, template := liTemplate,
    soleChild := false }

/-- The item keyed `k`, mounted as the element `k`. -/
def liItem (k : Nat) : LoopItem Mounted := ⟨.int k, .null, .mk [0, 0, 0] liTemplate [.host k] #[]⟩

/-- A node whose slot `0` holds the loop, its items `1`, `2`, `3` under the element `0`. -/
def threeList : Mounted := .mk [0] default [.host 0] #[.loop 0 [liItem 1, liItem 2, liItem 3]]

/-- A renderer whose document has the elements `1`, `2`, `3` under the element `0`. -/
def threeRenderer : Renderer :=
  { document := { nodes := #[⟨.element "ul" none none [], none, [1, 2, 3]⟩,
      ⟨.element "li" none none [], some 0, []⟩, ⟨.element "li" none none [], some 0, []⟩,
      ⟨.element "li" none none [], some 0, []⟩] } }

theorem updateLoop_moves_and_mounts_reorder :
    ∃ node' r', (updateLoop ⟨fun s p e t => mount 1 s p e t, fun n e => updateNode 1 n e,
        unmount 1⟩ threeList 0 reorderLoop { props := .null }).run threeRenderer =
          .ok (node', none) r' ∧
      Anchored 0 [1, 3] r'.document ∧ Logs 0 [1, 3] threeRenderer.document r'.document 1 1 := by
  obtain ⟨node', r', h⟩ : ∃ node' r', (updateLoop ⟨fun s p e t => mount 1 s p e t,
      fun n e => updateNode 1 n e, unmount 1⟩ threeList 0 reorderLoop { props := .null }).run
        threeRenderer = .ok (node', none) r' := ⟨_, _, by with_unfolding_all rfl⟩
  have hflat : liTemplate.Flat := by
    intro i hi
    simp only [liTemplate, Program.instructions, List.mem_cons, List.not_mem_nil, or_false] at hi
    rcases hi with rfl | rfl <;> rfl
  have hwf : liTemplate.WellFormed :=
    .mk ⟨⟨⟨rfl, by simp [Instruction.slot?], by simp [Instruction.slot?],
      by simp [Instruction.source?]⟩, ⟨rfl, by simp [Instruction.slot?], by simp [Instruction.slot?],
      by simp [Instruction.source?]⟩, trivial⟩, rfl⟩ (by simp [Instruction.programs])
  have hroots : [liItem 1, liItem 2, liItem 3].flatMap (·.node.roots) = [1, 2, 3] := rfl
  have hA : Anchored 0 ([liItem 1, liItem 2, liItem 3].flatMap (·.node.roots))
      threeRenderer.document := by
    rw [hroots]
    refine ⟨by decide, fun x hx => ?_, fun x hx n hn => ?_⟩
    · simp only [List.mem_cons, List.not_mem_nil, or_false] at hx
      rcases hx with rfl | rfl | rfl <;> rfl
    · have hlt : n < 4 := Document.lt_size_of_mem_children hn
      interval_cases n <;> simp_all [Document.children, Document.get?, threeRenderer]
  have hitems : ∀ it ∈ [liItem 1, liItem 2, liItem 3], it.node.program = liTemplate ∧
      LeavesAvoid 0 it.node ∧ ∃ x, it.node.rootRefs = [.host x] := by
    intro it hit
    simp only [List.mem_cons, List.not_mem_nil, or_false] at hit
    rcases hit with rfl | rfl | rfl <;>
      exact ⟨rfl, fun s h v hs => by simp [Mounted.slot?, liItem, Mounted.slots] at hs, _, rfl⟩
  obtain ⟨next, r₁, hproj, hA', hL⟩ :=
    updateLoop_moves_and_mounts hflat hwf rfl rfl (by decide) hitems (by rw [hroots]; decide) hA h
  have hnext : (project { props := .null } reorderLoop).run threeRenderer =
      .ok [⟨.int 3, .null⟩, ⟨.int 1, .null⟩, ⟨.int 4, .null⟩] threeRenderer := by
    with_unfolding_all rfl
  obtain ⟨rfl, -⟩ : _ ∧ _ := by simpa [hnext] using hproj
  have hkept : keptRoots [liItem 1, liItem 2, liItem 3]
      [⟨.int 3, .null⟩, ⟨.int 1, .null⟩, ⟨.int 4, .null⟩] = [1, 3] := by decide +kernel
  rw [hkept] at hA' hL
  -- item `3` moves before item `1`, which stays put, and item `4` is mounted
  obtain ⟨ops, hlog, hmoves, hinserts, hkeep⟩ := hL
  exact ⟨node', r', h, hA', ops, hlog, hmoves.trans (by decide +kernel),
    hinserts.trans (by decide +kernel), hkeep⟩

end Pass

end Canopy
