import Mathlib
import Canopy.Proofs.Render.Growth
import Canopy.Proofs.Render.Reconcile

/-!
# Reconciling a keyed loop never finds its tables broken

A reconcile keeps three tables by position: the previous items not yet taken, the projected
items not yet placed, and the next items placed so far. `Tables.Consistent` says what they hold
once some previous positions are taken and some next positions are placed. Each phase takes only
free positions and places only positions not placed before: the common prefix and suffix are
patched pair by pair, a range left on one side alone is mounted or removed, the matched pairs of
the middle are patched, and the walk of the middle from its end mounts each item not matched. So
a `take` always finds its entry and, at the end, every next position holds an item: neither of
the reconciler's broken-invariant errors is ever raised.

The items a reconcile hands back fit the loop (`ItemsFit`): their keys are pairwise distinct and
their nodes are well-formed nodes of the template (`reconcile_fits`, `reconcileAll_fits`). Each
part is a triple whose failure is never a broken invariant (`Outcome`); what can stop a
reconcile is a function of the program failing in a nested pass.
-/

open Std.Do

set_option mvcgen.warning false

namespace Canopy

namespace Pass

/-- The entries present in a list of options, each standing at its position in `xs`, are a
sublist of `xs`. -/
theorem filterMap_id_sublist {α : Type} :
    ∀ (l : List (Option α)) (xs : List α), (∀ (j : Nat) (x : α), l[j]? = some (some x) → xs[j]? = some x) →
      (l.filterMap id).Sublist xs
  | [], _, _ => List.nil_sublist _
  | o :: l, xs, h => by
    have hrest : ∀ ys : List α, (∀ (j : Nat) (x : α), l[j]? = some (some x) → ys[j]? = some x) →
        (l.filterMap id).Sublist ys := filterMap_id_sublist l
    cases xs with
    | nil =>
      cases o with
      | none => simpa using hrest [] fun j x hj => by simpa using h (j + 1) x hj
      | some x => simpa using h 0 x rfl
    | cons y ys =>
      have hys := hrest ys fun j x hj => by simpa using h (j + 1) x hj
      cases o with
      | none => simpa using hys.cons y
      | some x =>
        obtain rfl : y = x := by simpa using h 0 x rfl
        simpa using hys.cons_cons y

/-- The position a loop over `[a:b]` visits after the positions `pref` is the next one, below
`b`. -/
theorem range_cursor {a b cur : Nat} {pref suff : List Nat}
    (h : [a:b].toList = pref ++ cur :: suff) : cur = a + pref.length ∧ cur < b := by
  simp only [Std.Legacy.Range.toList, Nat.add_one_sub_one, Nat.div_one] at h
  rw [List.range'_eq_append_iff] at h
  obtain ⟨k, hk, rfl, hcs⟩ := h
  rw [eq_comm, List.range'_eq_cons_iff] at hcs
  simp only [List.length_range']
  omega

theorem length_range_toList (a b : Nat) : [a:b].toList.length = b - a := by
  simp [Std.Legacy.Range.toList]

/-- The position a walk from the end of `[0, n)` visits after the positions `pref` is the one
below them. -/
theorem reverse_range_cursor {n cur : Nat} {pref suff : List Nat}
    (h : (List.range n).reverse = pref ++ cur :: suff) : cur + pref.length + 1 = n := by
  have hlen : n = pref.length + 1 + suff.length := by
    simpa [Nat.add_assoc, Nat.add_comm 1] using congrArg List.length h
  have hget : (List.range n).reverse[pref.length]? = some cur := by simp [h]
  rw [List.getElem?_reverse (by simp; omega), List.getElem?_range (by simp; omega)] at hget
  simp only [List.length_range, Option.some.injEq] at hget
  omega

theorem take_cursor {α : Type} {l pref suff : List α} {cur : α} (h : l = pref ++ cur :: suff) :
    l.take pref.length = pref ∧ l.take (pref ++ [cur]).length = pref ++ [cur] := by
  subst h
  exact ⟨List.take_left' rfl, by rw [List.append_cons pref cur suff]; exact List.take_left' rfl⟩

theorem not_mem_of_nodup_middle {α : Type} {l₁ l₂ : List α} {a : α} (h : (l₁ ++ a :: l₂).Nodup) :
    a ∉ l₁ :=
  fun ha => (List.nodup_cons.1 (List.nodup_middle.1 h)).1 (List.mem_append_left _ ha)

/-- A list of options each of which stands for the member of `xs` at its position holds an entry
at every position, and the entries stand for `xs` member by member. -/
theorem mapM_id_forall₂ {α β : Type} {R : β → α → Prop} :
    ∀ (xs : List β) (l : List (Option α)), l.length = xs.length →
      (∀ j (hj : j < xs.length), ∃ a, l[j]? = some (some a) ∧ R xs[j] a) →
      ∃ items, l.mapM id = some items ∧ List.Forall₂ R xs items
  | [], [], _, _ => ⟨[], rfl, .nil⟩
  | x :: xs, o :: l, hlen, h => by
    obtain ⟨a, ha, hxa⟩ := h 0 (Nat.zero_lt_succ _)
    simp only [List.getElem?_cons_zero, Option.some.injEq] at ha
    subst ha
    obtain ⟨items, hitems, hrest⟩ := mapM_id_forall₂ xs l (by simpa using hlen)
      fun j hj => by
        have hnext := h (j + 1) (by simp only [List.length_cons]; omega)
        simpa using hnext
    exact ⟨a :: items, by simp [hitems], .cons hxa hrest⟩

/-- Items fit for a loop of template `T`: their keys are pairwise distinct, and their nodes are
well-formed nodes of `T`. -/
def ItemsFit (T : Program) (items : List (LoopItem Mounted)) : Prop :=
  (items.map (·.key)).Nodup ∧ ∀ it ∈ items, it.node.WellFormed ∧ it.node.program = T

theorem ItemsFit.nil (T : Program) : ItemsFit T [] :=
  ⟨List.nodup_nil, fun _ h => absurd h List.not_mem_nil⟩

theorem ItemsFit.of_forall₂ {T : Program} {ps : List Projected} {items : List (LoopItem Mounted)}
    (hps : (ps.map (·.key)).Nodup) (h : List.Forall₂ (ItemFor T) ps items) : ItemsFit T items :=
  ⟨ItemFor.keys h ▸ hps, ItemFor.node h⟩

/-- What the tables of a reconcile of `prev` into `next`, for a loop of template `T`, hold once
the previous positions `taken` are taken and the next positions `placed` are placed: every
previous item not taken is at its position, every projected item not placed is pending at its
position and nothing else is pending, and the next items hold one item of `T` for the projected
item of each placed position. -/
structure Tables.Consistent (T : Program) (prev : List (LoopItem Mounted)) (next : List Projected)
    (taken placed : Nat → Prop) (t : Tables) : Prop where
  left : ∀ i (hi : i < prev.length), ¬ taken i → t.a[i]? = some (some prev[i])
  pending : ∀ j (hj : j < next.length), ¬ placed j → t.pending[j]? = some (some next[j])
  pending_next : ∀ (j : Nat) (p : Projected), t.pending[j]? = some (some p) → next[j]? = some p
  size : t.b.size = next.length
  filled : ∀ j < next.length, placed j → ∃ it, t.b[j]? = some (some it)
  fits : ∀ (j : Nat) (it : LoopItem Mounted), t.b[j]? = some (some it) → ∃ p, next[j]? = some p ∧ ItemFor T p it

namespace Tables.Consistent

variable {T : Program} {prev : List (LoopItem Mounted)} {next : List Projected}
  {taken placed taken' placed' : Nat → Prop} {t : Tables}

theorem start : Consistent T prev next (fun _ => False) (fun _ => False) (Tables.start prev next) where
  left i hi _ := by simp [Tables.start, hi]
  pending j hj _ := by simp [Tables.start, hj]
  pending_next j p h := by simpa [Tables.start] using h
  size := by simp [Tables.start]
  filled _ _ h := h.elim
  fits j it h := by
    rw [Tables.start, Array.getElem?_replicate] at h
    split at h <;> simp at h

/-- More positions may count as taken; the placed positions are what they were. -/
theorem mono (h : Consistent T prev next taken placed t)
    (ht : ∀ i < prev.length, taken i → taken' i) (hp : ∀ j < next.length, placed' j ↔ placed j) :
    Consistent T prev next taken' placed' t where
  left i hi hn := h.left i hi fun hx => hn (ht i hi hx)
  pending j hj hn := h.pending j hj fun hx => hn ((hp j hj).2 hx)
  pending_next := h.pending_next
  size := h.size
  filled j hj hx := h.filled j hj ((hp j hj).1 hx)
  fits := h.fits

/-- The previous items stop counting once every previous position counts as taken. -/
theorem forget (h : Consistent T prev next taken placed t) {t' : Tables}
    (hpending : t'.pending = t.pending) (hb : t'.b = t.b) :
    Consistent T prev next (fun _ => True) placed t' where
  left _ _ hn := absurd trivial hn
  pending j hj hn := hpending ▸ h.pending j hj hn
  pending_next := hpending ▸ h.pending_next
  size := hb ▸ h.size
  filled := hb ▸ h.filled
  fits := hb ▸ h.fits

/-- Placing an item of `T` for the projected item at next position `j`: it is pending no longer
and its next position holds the item. -/
theorem place (h : Consistent T prev next taken placed t) {j : Nat} (hj : j < next.length)
    {it : LoopItem Mounted} (hit : ItemFor T next[j] it) {a : Array (Option (LoopItem Mounted))}
    (ha : ∀ i (hi : i < prev.length), ¬ taken' i → a[i]? = some (some prev[i])) :
    Consistent T prev next taken' (fun y => placed y ∨ y = j)
      ⟨a, t.pending.setIfInBounds j none, t.b.setIfInBounds j (some it)⟩ where
  left := ha
  pending y hy hn := by
    rw [not_or] at hn
    rw [Array.getElem?_setIfInBounds_ne (Ne.symm hn.2)]
    exact h.pending y hy hn.1
  pending_next y p hy := h.pending_next y p (getElem?_setNone hy).2
  size := by rw [Array.size_setIfInBounds, h.size]
  filled y hy hx := by
    by_cases hyj : y = j
    · subst hyj
      exact ⟨it, Array.getElem?_setIfInBounds_self_of_lt (h.size ▸ hy)⟩
    · rw [Array.getElem?_setIfInBounds_ne (Ne.symm hyj)]
      exact h.filled y hy (hx.resolve_right hyj)
  fits y it' hy := by
    by_cases hyj : y = j
    · subst hyj
      rw [Array.getElem?_setIfInBounds_self_of_lt (h.size ▸ hj)] at hy
      cases hy
      exact ⟨next[y], List.getElem?_eq_getElem hj, hit⟩
    · rw [Array.getElem?_setIfInBounds_ne (Ne.symm hyj)] at hy
      exact h.fits y it' hy

/-- Visiting a position of the middle range whose item is matched, and so placed already, leaves
the positions that count as placed as they were. -/
theorem visit_matched {sources : Array (Option Nat)} {bStart bLen : Nat}
    (hmatched : ∀ o < bLen, ∀ i, sources[o]? = some (some i) → placed (bStart + o))
    {pref suff : List Nat} {cur i : Nat} (hsplit : (List.range bLen).reverse = pref ++ cur :: suff)
    (hsrc : sources[cur]? = some (some i))
    (h : Consistent T prev next taken
      (fun j => placed j ∨ (bStart + bLen - pref.length ≤ j ∧ j < bStart + bLen)) t) :
    Consistent T prev next taken
      (fun j => placed j ∨ (bStart + bLen - (pref ++ [cur]).length ≤ j ∧ j < bStart + bLen)) t := by
  have hcur := reverse_range_cursor hsplit
  have hplaced := hmatched cur (by omega) i hsrc
  refine h.mono (fun _ _ h => h) fun j _ => ?_
  rw [List.length_append, List.length_singleton]
  constructor
  · rintro (hj | hj)
    · exact .inl hj
    · by_cases hjc : j = bStart + cur
      · exact .inl (hjc ▸ hplaced)
      · exact .inr ⟨by omega, hj.2⟩
  · rintro (hj | hj)
    · exact .inl hj
    · exact .inr ⟨by omega, hj.2⟩

end Tables.Consistent

theorem take_eq {α : Type} {xs : Array (Option α)} {i : Nat} {x : α}
    (h : xs[i]? = some (some x)) : take xs i = pure (x, xs.setIfInBounds i none) := by
  simp [take, h]

section Sound

variable {sub : Subpasses} {d : Nat} (hsub : Subpasses.Sound sub d) (fs : List Fiber)
  (spec : LoopSpec Program) (env : Env)
include hsub

theorem patchItem_spec {it : LoopItem Mounted} (hit : it.node.WellFormed)
    (hd : it.node.program.depth < d) (p : Projected) :
    ⦃fun r => ⌜r.fibers = fs⌝⦄ patchItem sub spec env it p
    ⦃Outcome fs fun it' => it'.key = it.key ∧ it'.node.WellFormed ∧
      it'.node.program = it.node.program⦄ := by
  have hupdate := fun env => hsub.update it.node env fs hit hd
  mvcgen [patchItem, Bind.shouldUpdate, script_spec, hupdate]
  all_goals simp_all +zetaDelta [Updated, -RenderError.isDefensive]

theorem removeItem_spec (parent : NodeId) (it : LoopItem Mounted) :
    ⦃fun r => ⌜r.fibers = fs⌝⦄ removeItem sub parent it ⦃Keeps fs⦄ := by
  have hunmount := hsub.unmount it.node fs
  mvcgen [removeItem, hunmount, removeNodes_spec]

theorem clearItems_spec (parent : NodeId) (items : List (LoopItem Mounted)) :
    ⦃fun r => ⌜r.fibers = fs⌝⦄ clearItems sub spec parent items ⦃Keeps fs⦄ := by
  have hunmount := fun n => hsub.unmount n fs
  have hremove := removeItem_spec hsub fs parent
  mvcgen [clearItems, hunmount, hremove, RenderM.doc] invariants
  · Keeps fs
  · Keeps fs

end Sound

section Tables

variable {sub : Subpasses} {d : Nat} (hsub : Subpasses.Sound sub d) (fs : List Fiber)
  {spec : LoopSpec Program} (env : Env) {prev : List (LoopItem Mounted)} {next : List Projected}
  (hprev : ∀ it ∈ prev, it.node.WellFormed ∧ it.node.program = spec.template)
  (hT : spec.template.WellFormed) (hd : spec.template.depth < d)
  {taken placed : Nat → Prop} {t : Tables}
include hsub hd

include hprev in
/-- Patching previous position `i` into next position `j`, where the keys agree: both are taken,
and `j` holds the patched item. -/
theorem patchAt_consistent (h : Tables.Consistent spec.template prev next taken placed t)
    {i j : Nat} (hi : i < prev.length) (hj : j < next.length) (hit : ¬ taken i)
    (hjp : ¬ placed j) (hkey : prev[i].key = next[j].key) :
    ⦃fun r => ⌜r.fibers = fs⌝⦄ patchAt sub spec env t i j
    ⦃Outcome fs (Tables.Consistent spec.template prev next (fun x => taken x ∨ x = i)
      (fun y => placed y ∨ y = j))⦄ := by
  have hprevi := hprev prev[i] (List.getElem_mem hi)
  have hpatch := patchItem_spec hsub fs spec env hprevi.1 (hprevi.2 ▸ hd) next[j]
  simp only [patchAt, take_eq (h.left i hi hit), take_eq (h.pending j hj hjp), pure_bind]
  mvcgen [hpatch]
  rename_i it _ hpatched
  refine ⟨h.place hj ⟨hpatched.1.1.trans hkey, hpatched.1.2.1, hpatched.1.2.2.trans hprevi.2⟩ ?_,
    hpatched.2⟩
  -- the other previous positions not taken keep their items
  intro x hx hn
  rw [not_or] at hn
  rw [Array.getElem?_setIfInBounds_ne (Ne.symm hn.2)]
  exact h.left x hx hn.1

include hT in
/-- Mounting the projected item at next position `j`: it is placed, and the previous items
stay. -/
theorem mountAt_consistent (site : List Nat) (parent : NodeId)
    (h : Tables.Consistent spec.template prev next taken placed t) {j : Nat}
    (hj : j < next.length) (hjp : ¬ placed j) (anchor : Option NodeId) :
    ⦃fun r => ⌜r.fibers = fs⌝⦄ mountAt sub site spec env parent t j anchor
    ⦃Outcome fs (Tables.Consistent spec.template prev next taken (fun y => placed y ∨ y = j))⦄ := by
  have hmount := mountItem_spec hsub.mount fs site hT hd env parent next[j] anchor
  simp only [mountAt, take_eq (h.pending j hj hjp), pure_bind]
  mvcgen [hmount]
  rename_i it _ hitem
  exact ⟨h.place hj hitem.1 h.left, hitem.2⟩

omit hsub hd in
theorem key_eq_of_keys {aKeys bKeys : Array Key} (haKeys : aKeys = (prev.map (·.key)).toArray)
    (hbKeys : bKeys = (next.map (·.key)).toArray) {i j : Nat} (hi : i < prev.length)
    (hj : j < next.length) (h : aKeys[i]? = bKeys[j]?) : prev[i].key = next[j].key := by
  subst haKeys hbKeys
  simpa [hi, hj] using h

include hprev in
/-- Trimming the common prefix: both ranges start after it, at one position, and its items are
patched into place. -/
theorem trimPrefix_consistent {aKeys bKeys : Array Key}
    (haKeys : aKeys = (prev.map (·.key)).toArray) (hbKeys : bKeys = (next.map (·.key)).toArray)
    {aEnd bEnd : Nat} (haEnd : aEnd ≤ prev.length) (hbEnd : bEnd ≤ next.length) (n : Nat)
    (h : Tables.Consistent spec.template prev next (· < 0) (· < 0) t) :
    ⦃fun r => ⌜r.fibers = fs⌝⦄ trimPrefix sub spec env aKeys bKeys aEnd bEnd n t
    ⦃Outcome fs fun res => res.2.1 = res.2.2 ∧ res.2.1 ≤ aEnd ∧ res.2.2 ≤ bEnd ∧
      Tables.Consistent spec.template prev next (· < res.2.1) (· < res.2.2) res.1⦄ := by
  mvcgen [trimPrefix] invariants
  · post⟨fun q r => ⌜q.2.2.1 = q.2.2.2 ∧ q.2.2.1 ≤ aEnd ∧ q.2.2.2 ≤ bEnd ∧
        Tables.Consistent spec.template prev next (· < q.2.2.1) (· < q.2.2.2) q.2.1 ∧
        r.fibers = fs⌝,
      fun e r => ⌜e.isDefensive = false ∧ r.fibers = fs⌝⟩
  case vc1.step.isTrue =>
    rename_i u _ p q hcond _ hinv
    have hinv' : p = q ∧ p ≤ aEnd ∧ q ≤ bEnd ∧
        Tables.Consistent spec.template prev next (· < p) (· < q) u ∧ _ := hinv
    obtain ⟨hpq, -, -, hcons, hfs⟩ := hinv'
    simp only [Bool.and_eq_true, decide_eq_true_eq, beq_iff_eq] at hcond
    obtain ⟨⟨hpa, hqb⟩, hkey⟩ := hcond
    have hstep := patchAt_consistent hsub fs env hprev hd hcons (by omega) (by omega)
      (lt_irrefl p) (lt_irrefl q) (key_eq_of_keys haKeys hbKeys (by omega) (by omega) hkey)
    mvcgen [hstep]
    rename_i hpost
    refine ⟨by omega, hpa, hqb, hpost.1.mono (fun i _ hi => ?_) (fun j _ => ?_), hpost.2⟩
    · exact Nat.lt_succ_iff_lt_or_eq.2 hi
    · exact Nat.lt_succ_iff_lt_or_eq
  case vc3.pre => exact ⟨trivial, Nat.zero_le _, Nat.zero_le _, h, ‹_›⟩
  case vc4.post.success =>
    rename_i hinv
    exact ⟨⟨hinv.1, hinv.2.1, hinv.2.2.1, hinv.2.2.2.1⟩, hinv.2.2.2.2⟩

include hprev in
/-- Trimming the common suffix: both ranges end before it, and its items are patched into
place. -/
theorem trimSuffix_consistent {aKeys bKeys : Array Key}
    (haKeys : aKeys = (prev.map (·.key)).toArray) (hbKeys : bKeys = (next.map (·.key)).toArray)
    {aStart bStart aEnd bEnd : Nat} (haEnd : aEnd ≤ prev.length) (hbEnd : bEnd ≤ next.length)
    (ha : aStart ≤ aEnd) (hb : bStart ≤ bEnd) (n : Nat)
    (h : Tables.Consistent spec.template prev next (fun i => i < aStart ∨ aEnd ≤ i)
      (fun j => j < bStart ∨ bEnd ≤ j) t) :
    ⦃fun r => ⌜r.fibers = fs⌝⦄ trimSuffix sub spec env aKeys bKeys aStart bStart aEnd bEnd n t
    ⦃Outcome fs fun res => aStart ≤ res.2.1 ∧ res.2.1 ≤ aEnd ∧ bStart ≤ res.2.2 ∧
      res.2.2 ≤ bEnd ∧ Tables.Consistent spec.template prev next
        (fun i => i < aStart ∨ res.2.1 ≤ i) (fun j => j < bStart ∨ res.2.2 ≤ j) res.1⦄ := by
  mvcgen [trimSuffix] invariants
  · post⟨fun q r => ⌜aStart ≤ q.2.2.1 ∧ q.2.2.1 ≤ aEnd ∧ bStart ≤ q.2.2.2 ∧ q.2.2.2 ≤ bEnd ∧
        Tables.Consistent spec.template prev next (fun i => i < aStart ∨ q.2.2.1 ≤ i)
          (fun j => j < bStart ∨ q.2.2.2 ≤ j) q.2.1 ∧ r.fibers = fs⌝,
      fun e r => ⌜e.isDefensive = false ∧ r.fibers = fs⌝⟩
  case vc1.step.isTrue =>
    rename_i u _ p q hcond _ hinv
    have hinv' : aStart ≤ p ∧ p ≤ aEnd ∧ bStart ≤ q ∧ q ≤ bEnd ∧
        Tables.Consistent spec.template prev next (fun i => i < aStart ∨ p ≤ i)
          (fun j => j < bStart ∨ q ≤ j) u ∧ _ := hinv
    obtain ⟨-, hpa, -, hqb, hcons, hfs⟩ := hinv'
    simp only [Bool.and_eq_true, decide_eq_true_eq, beq_iff_eq] at hcond
    obtain ⟨⟨hsp, hsq⟩, hkey⟩ := hcond
    have hstep := patchAt_consistent hsub fs env hprev hd hcons (i := p - 1) (j := q - 1)
      (by omega) (by omega) (by omega) (by omega)
      (key_eq_of_keys haKeys hbKeys (by omega) (by omega) hkey)
    mvcgen [hstep]
    rename_i hpost
    refine ⟨by omega, by omega, by omega, by omega,
      hpost.1.mono (fun i _ hi => by omega) (fun j _ => by omega), hpost.2⟩
  case vc4.post.success =>
    rename_i hinv
    exact ⟨⟨hinv.1, hinv.2.1, hinv.2.2.1, hinv.2.2.2.1, hinv.2.2.2.2.1⟩, hinv.2.2.2.2.2⟩

include hT in
/-- Mounting the projected items of a next range none of whose positions is placed places them
all. -/
theorem insertRange_consistent (site : List Nat) (parent : NodeId) {bStart bEnd : Nat}
    (hbEnd : bEnd ≤ next.length) (h : Tables.Consistent spec.template prev next taken placed t)
    (hfree : ∀ j, bStart ≤ j → j < bEnd → ¬ placed j) :
    ⦃fun r => ⌜r.fibers = fs⌝⦄ insertRange sub site spec env parent bStart bEnd t
    ⦃Outcome fs (Tables.Consistent spec.template prev next taken
      (fun j => placed j ∨ (bStart ≤ j ∧ j < bEnd)))⦄ := by
  mvcgen [insertRange] invariants
  · post⟨fun q r => ⌜Tables.Consistent spec.template prev next taken
        (fun j => placed j ∨ (bStart ≤ j ∧ j < bStart + q.1.pos)) q.2 ∧ r.fibers = fs⌝,
      fun e r => ⌜e.isDefensive = false ∧ r.fibers = fs⌝⟩
  case vc1.step =>
    rename_i anchor _ _ pref cur suff hcur u _ hinv
    obtain ⟨hcons, hfs⟩ := hinv
    obtain ⟨rfl, hlt⟩ := range_cursor hcur
    have hstep := mountAt_consistent hsub fs env hT hd site parent hcons (j := bStart + pref.length)
      (by omega) (by simp [hfree _ (Nat.le_add_right _ _) hlt]) anchor
    mvcgen [hstep]
    rename_i hpost
    refine ⟨hpost.1.mono (fun _ _ hi => hi) fun j _ => ?_, hpost.2⟩
    simp only [List.Cursor.pos, List.length_append, List.length_singleton, or_assoc]
    exact or_congr_right (by omega)
  case vc2.pre =>
    exact ⟨h.mono (fun _ _ hi => hi) fun j _ => by simp [List.Cursor.pos], ‹_›⟩
  case vc3.post.success =>
    rename_i hinv
    refine ⟨hinv.1.mono (fun _ _ hi => hi) fun j _ => ?_, hinv.2⟩
    simp only [List.Cursor.pos, length_range_toList]
    exact or_congr_right (by omega)

omit hd in
/-- Removing the previous items of a range none of whose positions is taken: each is there to be
taken, and the pending and next items stay. -/
theorem removeRange_consistent (parent : NodeId) {aStart aEnd : Nat}
    (h : Tables.Consistent spec.template prev next taken placed t)
    (hfree : ∀ i, aStart ≤ i → i < aEnd → ¬ taken i) (haEnd : aEnd ≤ prev.length) :
    ⦃fun r => ⌜r.fibers = fs⌝⦄ removeRange sub parent aStart aEnd t
    ⦃Outcome fs (Tables.Consistent spec.template prev next (fun _ => True) placed)⦄ := by
  mvcgen [removeRange] invariants
  · post⟨fun q r => ⌜(∀ i (hi : i < prev.length), aStart + q.1.pos ≤ i → i < aEnd →
        q.2[i]? = some (some prev[i])) ∧ r.fibers = fs⌝,
      fun e r => ⌜e.isDefensive = false ∧ r.fibers = fs⌝⟩
  case vc1.step =>
    rename_i pref cur suff hcur u _ hinv
    obtain ⟨hleft, hfs⟩ := hinv
    simp only [List.Cursor.pos] at hleft
    obtain ⟨rfl, hlt⟩ := range_cursor hcur
    have hi : aStart + pref.length < prev.length := by omega
    rw [take_eq (hleft _ hi (le_refl _) hlt)]
    have hremove := removeItem_spec hsub fs parent prev[aStart + pref.length]
    mvcgen [hremove]
    refine ⟨fun i hi' hle hlt' => ?_, ‹_›⟩
    simp only [List.Cursor.pos, List.length_append, List.length_singleton] at hle
    rw [Array.getElem?_setIfInBounds_ne (by omega)]
    exact hleft i hi' (by omega) hlt'
  case vc2.pre =>
    exact ⟨fun i hi hle hlt => h.left i hi (hfree i (by simpa [List.Cursor.pos] using hle) hlt), ‹_›⟩
  case vc3.post.success =>
    rename_i hinv
    exact ⟨h.forget rfl rfl, hinv.2⟩

include hprev in
/-- Patching the pairs of a valid matching of free ranges: each pair's previous position is
taken and its next position placed. -/
theorem patchPairs_consistent {aKeys bKeys : Array Key}
    (haKeys : aKeys = (prev.map (·.key)).toArray) (hbKeys : bKeys = (next.map (·.key)).toArray)
    {aStart aEnd bStart bEnd : Nat} (haEnd : aEnd ≤ prev.length) (hbEnd : bEnd ≤ next.length)
    {m : Matching} (hm : Matching.Valid aKeys bKeys aStart aEnd bStart bEnd m)
    (h : Tables.Consistent spec.template prev next taken placed t)
    (hta : ∀ i, aStart ≤ i → i < aEnd → ¬ taken i)
    (hpb : ∀ j, bStart ≤ j → j < bEnd → ¬ placed j) :
    ⦃fun r => ⌜r.fibers = fs⌝⦄ patchPairs sub spec env m.pairs t
    ⦃Outcome fs (Tables.Consistent spec.template prev next
      (fun i => taken i ∨ i ∈ m.pairs.map Prod.fst) (fun j => placed j ∨ j ∈ m.pairs.map Prod.snd))⦄ := by
  mvcgen [patchPairs] invariants
  · post⟨fun q r => ⌜Tables.Consistent spec.template prev next
        (fun i => taken i ∨ i ∈ (m.pairs.take q.1.pos).map Prod.fst)
        (fun j => placed j ∨ j ∈ (m.pairs.take q.1.pos).map Prod.snd) q.2 ∧ r.fibers = fs⌝,
      fun e r => ⌜e.isDefensive = false ∧ r.fibers = fs⌝⟩
  case vc1.step =>
    rename_i pref cur suff hsplit u _ hinv
    obtain ⟨hcons, hfs⟩ := hinv
    simp only [List.Cursor.pos, (take_cursor hsplit).1] at hcons
    have hmem : cur ∈ m.pairs := by simp [hsplit]
    obtain ⟨hia, hie, hjb, hje⟩ := hm.range cur hmem
    -- neither position of the pair was met before
    have hfst : cur.1 ∉ pref.map Prod.fst := by
      have hnd := hm.fst_nodup
      rw [hsplit, List.map_append, List.map_cons] at hnd
      exact not_mem_of_nodup_middle hnd
    have hsnd : cur.2 ∉ pref.map Prod.snd := by
      have hnd := hm.snd_nodup
      rw [hsplit, List.map_append, List.map_cons] at hnd
      exact not_mem_of_nodup_middle hnd
    have hstep := patchAt_consistent hsub fs env hprev hd hcons (i := cur.1) (j := cur.2)
      (by omega) (by omega) (by simp [hta _ hia hie, hfst]) (by simp [hpb _ hjb hje, hsnd])
      (key_eq_of_keys haKeys hbKeys (by omega) (by omega) (hm.key cur hmem))
    mvcgen [hstep]
    rename_i hpost
    refine ⟨hpost.1.mono (fun i _ hi => ?_) (fun j _ => ?_), hpost.2⟩
    · simp only [List.Cursor.pos, (take_cursor hsplit).2, List.map_append, List.map_singleton,
        List.mem_append, List.mem_singleton]
      tauto
    · simp only [List.Cursor.pos, (take_cursor hsplit).2, List.map_append, List.map_singleton,
        List.mem_append, List.mem_singleton, or_assoc]
  case vc2.pre => exact ⟨h.mono (fun _ _ hi => .inl hi) fun _ _ => by simp [List.Cursor.pos], ‹_›⟩
  case vc3.post.success =>
    rename_i hinv
    simpa only [List.Cursor.pos, List.take_length] using hinv

omit hd in
theorem removeLeft_consistent (parent : NodeId) (aStart aEnd : Nat)
    (h : Tables.Consistent spec.template prev next taken placed t) :
    ⦃fun r => ⌜r.fibers = fs⌝⦄ removeLeft sub parent aStart aEnd t
    ⦃Outcome fs (Tables.Consistent spec.template prev next (fun _ => True) placed)⦄ := by
  have hremove := removeItem_spec hsub fs parent
  mvcgen [removeLeft, hremove] invariants
  · Keeps fs
  exact ⟨h.forget rfl rfl, ‹_›⟩

include hT in
/-- The walk of the middle range from its end: each position whose item is not matched is free
and gets a mounted item, and the position of each matched item is placed already. -/
theorem placeMiddle_consistent (site : List Nat) (parent : NodeId) {m : Matching}
    {bStart bLen : Nat} (hbEnd : bStart + bLen ≤ next.length) (hsize : m.sources.size = bLen)
    (h : Tables.Consistent spec.template prev next taken placed t)
    (hfresh : ∀ o < bLen, m.sources[o]? = some none → ¬ placed (bStart + o))
    (hmatched : ∀ o < bLen, ∀ i, m.sources[o]? = some (some i) → placed (bStart + o)) :
    ⦃fun r => ⌜r.fibers = fs⌝⦄ placeMiddle sub site spec env parent m bStart bLen t
    ⦃Outcome fs (Tables.Consistent spec.template prev next taken
      (fun j => placed j ∨ (bStart ≤ j ∧ j < bStart + bLen)))⦄ := by
  have hinsert := fun ns anchor => insertNodes_spec fs parent ns anchor
  mvcgen [placeMiddle, hinsert] invariants
  · post⟨fun q r => ⌜Tables.Consistent spec.template prev next taken
        (fun j => placed j ∨ (bStart + bLen - q.1.pos ≤ j ∧ j < bStart + bLen)) q.2.1 ∧
        r.fibers = fs⌝,
      fun e r => ⌜e.isDefensive = false ∧ r.fibers = fs⌝⟩
  case vc1.step.h_1 =>
    rename_i pref cur suff hsplit _ u _ j anchor hsrc _ hinv
    have hcur := reverse_range_cursor hsplit
    have hj : j = bStart + cur := rfl
    have hcons : Tables.Consistent spec.template prev next taken
        (fun j => placed j ∨ (bStart + bLen - pref.length ≤ j ∧ j < bStart + bLen)) u := hinv.1
    have hstep := mountAt_consistent hsub fs env hT hd site parent hcons (j := j) (by omega)
      (by simp only [not_or, not_and, not_lt]; exact ⟨hfresh cur (by omega) hsrc, by omega⟩) anchor
    have hfs := hinv.2
    mvcgen [hstep]
    rename_i hpost
    refine ⟨hpost.1.mono (fun _ _ h => h) fun y _ => ?_, hpost.2⟩
    simp only [List.Cursor.pos, List.length_append, List.length_singleton, or_assoc]
    exact or_congr_right (by omega)
  -- a matched position is placed already, whether its item moves or not
  case vc2.step.h_2.isTrue.isTrue =>
    exact ⟨Tables.Consistent.visit_matched hmatched ‹_› ‹_› ‹_ ∧ _›.1, ‹_ ∧ _›.2⟩
  case vc3.step.h_2.isTrue.isFalse.h_1.pre => exact ‹_ ∧ _›.2
  case vc4.step.h_2.isTrue.isFalse.h_1.post.success =>
    exact ⟨Tables.Consistent.visit_matched hmatched ‹_› ‹_› ‹_ ∧ _›.1, ‹_›⟩
  case vc6.step.h_2.isTrue.isFalse.h_2 =>
    exact ⟨Tables.Consistent.visit_matched hmatched ‹_› ‹_› ‹_ ∧ _›.1, ‹_ ∧ _›.2⟩
  case vc7.step.h_2.isFalse =>
    exact ⟨Tables.Consistent.visit_matched hmatched ‹_› ‹_› ‹_ ∧ _›.1, ‹_ ∧ _›.2⟩
  case vc8.step.h_3 =>
    rename_i pref cur suff hsplit _ _ _ _ _ hsrc _ _
    have hcur := reverse_range_cursor hsplit
    rw [Array.getElem?_eq_none_iff, hsize] at hsrc
    omega
  case vc9.pre =>
    exact ⟨h.mono (fun _ _ h => h) fun _ _ => or_iff_left (by simp [List.Cursor.pos]), ‹_›⟩
  case vc10.post.success =>
    rename_i hinv
    refine ⟨hinv.1.mono (fun _ _ h => h) fun j _ => ?_, hinv.2⟩
    simp only [List.Cursor.pos, List.length_reverse, List.length_range]
    exact or_congr_right (by omega)

omit hsub hd in
/-- Once every next position is placed, the next items come back, one item of the template for
each projected item; with distinct projected keys they fit the loop. -/
theorem collect_fits (hnext : (next.map (·.key)).Nodup)
    (h : Tables.Consistent spec.template prev next taken placed t)
    (hall : ∀ j < next.length, placed j) :
    ⦃fun r => ⌜r.fibers = fs⌝⦄ collect t ⦃Outcome fs (ItemsFit spec.template)⦄ := by
  obtain ⟨items, hitems, hfor⟩ := mapM_id_forall₂ next t.b.toList (by simpa using h.size)
    fun j hj => by
      obtain ⟨it, hit⟩ := h.filled j hj (hall j hj)
      obtain ⟨p, hp, hfit⟩ := h.fits j it hit
      rw [List.getElem?_eq_getElem hj, Option.some.injEq] at hp
      exact ⟨it, by simpa using hit, hp ▸ hfit⟩
  simp only [collect, hitems]
  mvcgen
  exact ⟨ItemsFit.of_forall₂ hnext hfor, ‹_›⟩

include hT in
/-- Replacing the whole list: the previous items left are cleared, and each projected item still
pending is mounted afresh, in order. -/
theorem replaceAll_consistent (site : List Nat) (parent : NodeId)
    (hnext : (next.map (·.key)).Nodup) (h : Tables.Consistent spec.template prev next taken placed t) :
    ⦃fun r => ⌜r.fibers = fs⌝⦄ replaceAll sub site spec env parent t
    ⦃Outcome fs (ItemsFit spec.template)⦄ := by
  have hclear := clearItems_spec hsub fs spec parent
  have hmount := fun p => mountItem_spec hsub.mount fs site hT hd env parent p none
  -- the projected items still pending stand in order among the projected items
  have hsub' : ((t.pending.toList.filterMap id).map (·.key)).Sublist (next.map (·.key)) :=
    (filterMap_id_sublist _ _ fun j p hp => h.pending_next j p (by simpa using hp)).map _
  mvcgen [replaceAll, hclear, hmount] invariants
  · post⟨fun q r => ⌜List.Forall₂ (ItemFor spec.template)
        ((t.pending.toList.filterMap id).take q.1.pos) q.2.toList ∧ r.fibers = fs⌝,
      fun e r => ⌜e.isDefensive = false ∧ r.fibers = fs⌝⟩
  case vc2.step.pre => exact ‹_ ∧ _›.2
  case vc3.step.post.success =>
    rename_i hsplit _ _ hinv _ _ _ hit
    refine ⟨?_, hit.2⟩
    simp only [List.Cursor.pos, (take_cursor hsplit).1] at hinv
    rw [List.Cursor.pos, (take_cursor hsplit).2, Array.toList_push]
    exact List.rel_append hinv.1 (.cons hit.1 .nil)
  case vc5.post.success.pre => exact ⟨.nil, ‹_›⟩
  case vc6.post.success.post.success =>
    rename_i hinv
    rw [List.Cursor.pos, List.take_length] at hinv
    exact ⟨ItemsFit.of_forall₂ (hsub'.nodup hnext) hinv.1, hinv.2⟩

include hprev hT in
/-- Reconciling items of the template with distinct keys with a projection with distinct keys
finds every previous position it takes and fills every next position: no table is found broken,
and the items it hands back fit the loop. -/
theorem reconcile_fits (site : List Nat) (parent : NodeId) (hprevKeys : (prev.map (·.key)).Nodup)
    (hnext : (next.map (·.key)).Nodup) :
    ⦃fun r => ⌜r.fibers = fs⌝⦄ reconcile sub site spec env parent prev next
    ⦃Outcome fs (ItemsFit spec.template)⦄ := by
  have hstart : Tables.Consistent spec.template prev next (· < 0) (· < 0) (Tables.start prev next) :=
    Tables.Consistent.start.mono (fun _ _ h => h.elim) fun _ _ => by simp
  have hfront := trimPrefix_consistent hsub fs env hprev hd rfl rfl (le_refl _) (le_refl _)
    prev.length hstart
  mvcgen [reconcile, hfront]
  rename_i prevLen aKeys bKeys _ _ res _ hres
  obtain ⟨⟨hpq, hp, hq, hcons⟩, hfs⟩ := hres
  have haKeys : aKeys = (prev.map (·.key)).toArray := rfl
  have hbKeys : bKeys = (next.map (·.key)).toArray := rfl
  have hback := trimSuffix_consistent hsub fs env hprev hd haKeys hbKeys
    (show prevLen ≤ prev.length from le_refl _) (le_refl next.length) hp hq prevLen
    (hcons.mono (fun _ _ h => .inl h) fun j hj => ⟨fun h => h.resolve_right (by omega), .inl⟩)
  mvcgen [hback]
  · -- only insertions are left: the next range is mounted
    rename_i res' _ _ hres'
    obtain ⟨⟨-, -, hbS, hbE, hcons'⟩, hfs'⟩ := hres'
    have hinsert := insertRange_consistent hsub fs env hT hd site parent hbE hcons'
      fun j (h₁ : res.2.2 ≤ j) h₂ => by omega
    mvcgen [hinsert]
    rename_i t'
    intro s ht' hfs''
    have hcollect := collect_fits fs hnext ht' fun j _ => by omega
    mvcgen [hcollect]
  · -- only removals are left: the previous range is removed
    rename_i res' _ hbranch _ hres'
    obtain ⟨⟨haS, haE, -, -, hcons'⟩, hfs'⟩ := hres'
    have hremove := removeRange_consistent hsub fs parent hcons'
      (fun i (h₁ : res.2.1 ≤ i) h₂ => by omega) haE
    mvcgen [hremove]
    rename_i t'
    intro s ht' hfs''
    have hb : res.2.2 = res'.2.2 := by simpa using hbranch
    have hall : ∀ j < next.length, j < res.2.2 ∨ res'.2.2 ≤ j := fun j _ => by omega
    have hcollect := collect_fits fs hnext ht' hall
    mvcgen [hcollect]
  · -- both ranges are left: their middles are matched by key
    rename_i res' hne₁ hne₂ _ hres'
    obtain ⟨⟨haS, haE, hbS, hbE, hcons'⟩, hfs'⟩ := hres'
    have hvalid : Matching.Valid aKeys bKeys res.2.1 res'.2.1 res.2.2 res'.2.2
        (if Matching.probesLinearly (res'.2.1 - res.2.1) (res'.2.2 - res.2.2) = true then
          Matching.linear aKeys bKeys res.2.1 res'.2.1 res.2.2 res'.2.2
        else Matching.indexed aKeys bKeys res.2.1 res'.2.1 res.2.2 res'.2.2) := by
      split
      · exact Matching.linear_valid
      · exact Matching.indexed_valid (by simpa [haKeys] using hprevKeys)
    generalize (if Matching.probesLinearly (res'.2.1 - res.2.1) (res'.2.2 - res.2.2) = true then
        Matching.linear aKeys bKeys res.2.1 res'.2.1 res.2.2 res'.2.2
      else Matching.indexed aKeys bKeys res.2.1 res'.2.1 res.2.2 res'.2.2) = m at hvalid ⊢
    have hpairs := patchPairs_consistent hsub fs env hprev hd haKeys hbKeys haE hbE hvalid hcons'
      (fun i (h₁ : res.2.1 ≤ i) h₂ => by omega) (fun j (h₁ : res.2.2 ≤ j) h₂ => by omega)
    mvcgen [hpairs]
    · -- no previous item is kept: the whole list is replaced
      intro s ht hfs''
      have hreplace := replaceAll_consistent hsub fs env hT hd site parent hnext ht
      mvcgen [hreplace]
    · -- the previous items left are removed, and the middle is walked from its end
      rename_i ht
      have hleft := removeLeft_consistent hsub fs parent res.2.1 res'.2.1 ht.1
      have hfs'' := ht.2
      mvcgen [hleft]
      rename_i t' _ ht'
      have hfs''' := ht'.2
      have hmiddle := placeMiddle_consistent hsub fs env hT hd site parent
        (show res.2.2 + (res'.2.2 - res.2.2) ≤ next.length by omega) hvalid.size ht'.1
        (fun o ho hsrc hplaced => by
          rcases hplaced with hout | hin
          · omega
          · obtain ⟨p, hp, hpj⟩ := List.mem_map.1 hin
            have := (hvalid.sources p.1 (res.2.2 + o) (by omega) (by omega)).2 (hpj ▸ hp)
            simp [hsrc] at this)
        (fun o ho i hsrc => .inr (List.mem_map.2 ⟨(i, res.2.2 + o),
          (hvalid.sources i (res.2.2 + o) (by omega) (by omega)).1 (by simpa using hsrc), rfl⟩))
      mvcgen [hmiddle]
      rename_i t''
      intro s'' ht'' hfs''''
      have hcollect := collect_fits fs hnext ht'' fun j _ =>
        (show (j < res.2.2 ∨ res'.2.2 ≤ j) ∨ (res.2.2 ≤ j ∧ j < res.2.2 + (res'.2.2 - res.2.2))
          by omega).imp_left .inl
      mvcgen [hcollect]

include hprev hT in
/-- Bringing a loop's items up to date, whichever of the lists is empty, hands back items that
fit the loop. -/
theorem reconcileAll_fits (site : List Nat) (parent : NodeId)
    (hprevKeys : (prev.map (·.key)).Nodup) (hnext : (next.map (·.key)).Nodup) :
    ⦃fun r => ⌜r.fibers = fs⌝⦄ reconcileAll sub site spec env parent prev next
    ⦃Outcome fs (ItemsFit spec.template)⦄ := by
  unfold reconcileAll
  split
  · mvcgen
  · have hitems := mapM_spec fs (fun p => mountItem_spec hsub.mount fs site hT hd env parent p none)
    mvcgen [hitems]
    intro hitems' hfs
    exact ⟨ItemsFit.of_forall₂ hnext hitems', hfs⟩
  · have hclear := clearItems_spec hsub fs spec parent
    mvcgen [hclear]
    exact ⟨ItemsFit.nil _, ‹_›⟩
  · exact reconcile_fits hsub fs env hprev hT hd site parent hprevKeys hnext

end Tables

end Pass

end Canopy
