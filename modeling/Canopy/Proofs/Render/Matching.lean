import Canopy.Render.Loop
import Mathlib.Data.List.Nodup

/-!
# Matching a loop's middle ranges

When a loop is reconciled, the previous and next items left between the common prefix and
suffix are matched by key. A matching is valid (`Matching.Valid`) when every pair matches a
previous and a next position in range with the same key, no position is matched twice, the
`sources` of each next position record exactly its pair, and `synced` counts the pairs.

Both ways of matching give valid matchings: probing the next keys from the left always, and
looking keys up in an index of the next keys when the previous keys are distinct. In the index
a key stands for its last next position; with distinct previous keys that position is never
proposed twice. With distinct keys on both sides both are also complete (`Matching.Complete`):
every previous position of the range whose key the next range has is matched. A walk that
never met a pair out of order lists its pairs in increasing order of both positions, so the
previous positions it records for the next range increase.

Every walk is one induction (`run_inv`): what a visit does is said once, by the three things
it can do: stop matching once every next position is taken, add the pair `find` proposes, or
add nothing.
-/

namespace Canopy

namespace Matching

variable {aKeys bKeys : Array Key} {aStart aEnd bStart bEnd : Nat}

/-- A matching of the previous range `[aStart, aEnd)` against the next range `[bStart, bEnd)`:
each pair matches a previous position and a next position in range with the same key, no
position is matched twice, `sources` records exactly the pairs, and `synced` counts them. -/
structure Valid (aKeys bKeys : Array Key) (aStart aEnd bStart bEnd : Nat) (m : Matching) :
    Prop where
  size : m.sources.size = bEnd - bStart
  range : ∀ p ∈ m.pairs, aStart ≤ p.1 ∧ p.1 < aEnd ∧ bStart ≤ p.2 ∧ p.2 < bEnd
  key : ∀ p ∈ m.pairs, aKeys[p.1]? = bKeys[p.2]?
  fst_nodup : (m.pairs.map Prod.fst).Nodup
  snd_nodup : (m.pairs.map Prod.snd).Nodup
  sources : ∀ i j, bStart ≤ j → j < bEnd →
    (m.sources[j - bStart]? = some (some i) ↔ (i, j) ∈ m.pairs)
  synced : m.synced = m.pairs.length

theorem valid_start :
    Valid aKeys bKeys aStart aEnd bStart bEnd { sources := Array.replicate (bEnd - bStart) none } where
  size := Array.size_replicate
  range := fun _ h => absurd h List.not_mem_nil
  key := fun _ h => absurd h List.not_mem_nil
  fst_nodup := List.nodup_nil
  snd_nodup := List.nodup_nil
  sources := by
    intro i j hj hjb
    simp [show j - bStart < bEnd - bStart by omega]
  synced := rfl

@[simp]
theorem add_pairs (m : Matching) (bStart i j last : Nat) :
    (m.add bStart i j last).1.pairs = m.pairs ++ [(i, j)] := by
  unfold Matching.add
  split
  rfl

theorem add_moved (m : Matching) (bStart i j last : Nat) :
    (m.add bStart i j last).1.moved = (decide (j < last) || m.moved) := by
  unfold Matching.add
  by_cases h : j < last <;> simp [h]

theorem add_last (m : Matching) (bStart i j last : Nat) :
    (m.add bStart i j last).2 = if j < last then last else j := by
  unfold Matching.add
  by_cases h : j < last <;> simp [h]

/-- Matching one more pair of unmatched positions with the same key keeps a matching valid. -/
theorem Valid.add {m : Matching} (h : Valid aKeys bKeys aStart aEnd bStart bEnd m) {i j : Nat}
    (hi : aStart ≤ i ∧ i < aEnd) (hj : bStart ≤ j ∧ j < bEnd) (hkey : aKeys[i]? = bKeys[j]?)
    (hfi : ∀ p ∈ m.pairs, p.1 ≠ i) (hfj : ∀ p ∈ m.pairs, p.2 ≠ j) (last : Nat) :
    Valid aKeys bKeys aStart aEnd bStart bEnd (m.add bStart i j last).1 := by
  simp only [Matching.add]
  constructor
  · simp [h.size]
  · intro p hp
    rcases List.mem_append.1 hp with hp | hp
    · exact h.range p hp
    · rw [List.mem_singleton.1 hp]
      exact ⟨hi.1, hi.2, hj.1, hj.2⟩
  · intro p hp
    rcases List.mem_append.1 hp with hp | hp
    · exact h.key p hp
    · rw [List.mem_singleton.1 hp]
      exact hkey
  · simp only [List.map_append, List.map_cons, List.map_nil]
    exact List.nodup_append.2 ⟨h.fst_nodup, List.nodup_singleton _,
      fun x hx y hy => by
        obtain ⟨p, hp, rfl⟩ := List.mem_map.1 hx
        rw [List.mem_singleton.1 hy]
        exact hfi p hp⟩
  · simp only [List.map_append, List.map_cons, List.map_nil]
    exact List.nodup_append.2 ⟨h.snd_nodup, List.nodup_singleton _,
      fun x hx y hy => by
        obtain ⟨p, hp, rfl⟩ := List.mem_map.1 hx
        rw [List.mem_singleton.1 hy]
        exact hfj p hp⟩
  · intro i' j' hj' hj'b
    by_cases hjj : j' = j
    · subst hjj
      have hlt : j' - bStart < m.sources.size := by rw [h.size]; omega
      rw [Array.getElem?_setIfInBounds_self_of_lt hlt]
      constructor
      · intro heq
        simp only [Option.some.injEq] at heq
        subst heq
        simp
      · intro hp
        rcases List.mem_append.1 hp with hp | hp
        · exact absurd rfl (hfj _ hp)
        · simp only [List.mem_singleton, Prod.mk.injEq] at hp
          rw [hp.1]
    · have hne : j - bStart ≠ j' - bStart := by omega
      rw [Array.getElem?_setIfInBounds_ne hne, h.sources i' j' hj' hj'b]
      simp [hjj]
  · simp [h.synced]

/-! ## Walks over the previous range -/

theorem walk_inv {step : Matching × Nat → Nat → Matching × Nat} (Inv : Nat → Matching × Nat → Prop)
    (hstep : ∀ acc i, aStart ≤ i → i < aEnd → Inv i acc → Inv (i + 1) (step acc i)) :
    ∀ n, n ≤ aEnd - aStart → ∀ acc, Inv aStart acc →
      Inv (aStart + n) ((List.range' aStart n).foldl step acc)
  | 0, _, _, h => h
  | n + 1, hn, acc, h => by
    rw [List.range'_concat, List.foldl_concat, Nat.one_mul, ← Nat.add_assoc]
    exact hstep _ _ (by omega) (by omega) (walk_inv Inv hstep n (by omega) acc h)

section Run

variable {find : Matching → Nat → Option Nat}

/-- What a `find` may propose for previous position `i`: only an unmatched next position in range
with its key. -/
def Proposes (aKeys bKeys : Array Key) (aStart aEnd bStart bEnd : Nat)
    (find : Matching → Nat → Option Nat) : Prop :=
  ∀ m i j, Valid aKeys bKeys aStart aEnd bStart bEnd m → (∀ p ∈ m.pairs, p.1 < i) →
    aStart ≤ i → i < aEnd → find m i = some j →
    bStart ≤ j ∧ j < bEnd ∧ aKeys[i]? = bKeys[j]? ∧ ∀ p ∈ m.pairs, p.2 ≠ j

/-- The walk of `run`, by what one visit can do. An invariant that holds at the start and is kept
when a visit stops matching because every next position is taken, adds the proposed pair, or
finds nothing, holds at the end, where the matching is valid. -/
theorem run_inv (hfind : Proposes aKeys bKeys aStart aEnd bStart bEnd find)
    (Inv : Nat → Matching × Nat → Prop)
    (hstart : Inv aStart ({ sources := Array.replicate (bEnd - bStart) none }, 0))
    (hfull : ∀ m last i, Valid aKeys bKeys aStart aEnd bStart bEnd m → (∀ p ∈ m.pairs, p.1 < i) →
      aStart ≤ i → i < aEnd → m.synced = bEnd - bStart → Inv i (m, last) → Inv (i + 1) (m, last))
    (hadd : ∀ m last i j, Valid aKeys bKeys aStart aEnd bStart bEnd m → (∀ p ∈ m.pairs, p.1 < i) →
      aStart ≤ i → i < aEnd → m.synced ≠ bEnd - bStart → find m i = some j →
      bStart ≤ j → j < bEnd → aKeys[i]? = bKeys[j]? → (∀ p ∈ m.pairs, p.2 ≠ j) →
      Inv i (m, last) → Inv (i + 1) (m.add bStart i j last))
    (hnone : ∀ m last i, Valid aKeys bKeys aStart aEnd bStart bEnd m → (∀ p ∈ m.pairs, p.1 < i) →
      aStart ≤ i → i < aEnd → m.synced ≠ bEnd - bStart → find m i = none →
      Inv i (m, last) → Inv (i + 1) (m, last)) :
    Valid aKeys bKeys aStart aEnd bStart bEnd (run find aStart aEnd bStart bEnd) ∧
      ∃ last, Inv (aStart + (aEnd - aStart)) (run find aStart aEnd bStart bEnd, last) := by
  unfold run
  -- carry validity and "pairs only of visited positions" along with the invariant
  refine (fun h => ⟨h.1, _, h.2.2⟩) (walk_inv (fun i acc =>
    Valid aKeys bKeys aStart aEnd bStart bEnd acc.1 ∧ (∀ p ∈ acc.1.pairs, p.1 < i) ∧ Inv i acc)
    ?_ (aEnd - aStart) (Nat.le_refl _) _ ⟨valid_start, by simp, hstart⟩)
  rintro ⟨m, last⟩ i hi hi' ⟨hv, hlt, hinv⟩
  have hlt₁ : ∀ p ∈ m.pairs, p.1 < i + 1 := fun p hp => Nat.lt_succ_of_lt (hlt p hp)
  dsimp only
  split
  · exact ⟨hv, hlt₁, hfull m last i hv hlt hi hi' ‹_› hinv⟩
  · rename_i hs
    split
    · rename_i j hj
      obtain ⟨hj₁, hj₂, hkey, hfree⟩ := hfind m i j hv hlt hi hi' hj
      refine ⟨hv.add ⟨hi, hi'⟩ ⟨hj₁, hj₂⟩ hkey (fun p hp => Nat.ne_of_lt (hlt p hp)) hfree last,
        ?_, hadd m last i j hv hlt hi hi' hs hj hj₁ hj₂ hkey hfree hinv⟩
      intro p hp
      rcases List.mem_append.1 (add_pairs m bStart i j last ▸ hp) with hp | hp
      · exact hlt₁ p hp
      · rw [List.mem_singleton.1 hp]
        exact Nat.lt_succ_self i
    · rename_i hj
      exact ⟨hv, hlt₁, hnone m last i hv hlt hi hi' hs hj hinv⟩

/-- Walking the previous range with a `find` that proposes only unmatched next positions in range
with the key of the previous position gives a valid matching. -/
theorem run_valid (hfind : Proposes aKeys bKeys aStart aEnd bStart bEnd find) :
    Valid aKeys bKeys aStart aEnd bStart bEnd (run find aStart aEnd bStart bEnd) :=
  (run_inv hfind (fun _ _ => True) trivial (fun _ _ _ _ _ _ _ _ h => h)
    (fun _ _ _ _ _ _ _ _ _ _ _ _ _ _ h => h) (fun _ _ _ _ _ _ _ _ _ h => h)).1

end Run

/-! ## Distinct keys -/

/-- With distinct previous keys, a next position matched to one previous position is matched to
no other previous position with its key. -/
theorem Valid.fst_eq_of_key {m : Matching} (h : Valid aKeys bKeys aStart aEnd bStart bEnd m)
    (hA : aKeys.toList.Nodup) {i i' j : Nat} (hp : (i', j) ∈ m.pairs) (hi : i < aKeys.size)
    (hkey : aKeys[i]? = bKeys[j]?) : i' = i := by
  have heq : aKeys.toList[i]? = aKeys.toList[i']? := by
    rw [Array.getElem?_toList, Array.getElem?_toList, hkey, h.key _ hp]
  exact ((List.getElem?_inj (by simpa using hi) hA).1 heq).symm

/-- With distinct previous keys, a next position with the key of a previous position not visited
yet is still unmatched. -/
theorem Valid.fresh_of_key {m : Matching} (h : Valid aKeys bKeys aStart aEnd bStart bEnd m)
    (hA : aKeys.toList.Nodup) {i j : Nat} (hlt : ∀ p ∈ m.pairs, p.1 < i) (hi : i < aKeys.size)
    (hkey : aKeys[i]? = bKeys[j]?) : ∀ p ∈ m.pairs, p.2 ≠ j := by
  rintro ⟨i', j'⟩ hp rfl
  exact Nat.ne_of_lt (hlt _ hp) (h.fst_eq_of_key hA hp hi hkey)

/-- Once as many pairs are matched as the next range is long, every next position is matched. -/
theorem Valid.matched_of_synced {m : Matching} (h : Valid aKeys bKeys aStart aEnd bStart bEnd m)
    (hs : m.synced = bEnd - bStart) {j : Nat} (hj : bStart ≤ j) (hj' : j < bEnd) :
    ∃ i, (i, j) ∈ m.pairs := by
  by_cases hmem : j ∈ m.pairs.map Prod.snd
  · obtain ⟨⟨i, _⟩, hp, rfl⟩ := List.mem_map.1 hmem
    exact ⟨i, hp⟩
  · -- otherwise `j` and the matched next positions are more positions than the range has
    have hnodup : (j :: m.pairs.map Prod.snd).Nodup := List.nodup_cons.2 ⟨hmem, h.snd_nodup⟩
    have hsub : j :: m.pairs.map Prod.snd ⊆ List.range' bStart (bEnd - bStart) := by
      intro x hx
      rcases List.mem_cons.1 hx with rfl | hx
      · exact List.mem_range'_1.2 ⟨hj, by omega⟩
      · obtain ⟨p, hp, rfl⟩ := List.mem_map.1 hx
        have hr := h.range p hp
        exact List.mem_range'_1.2 ⟨hr.2.2.1, by omega⟩
    have hlen := hnodup.length_le_of_subset hsub
    rw [List.length_cons, List.length_map, List.length_range', ← h.synced, hs] at hlen
    omega

/-- The keys at the positions `[start, stop)` of an array are pairwise distinct. -/
def KeysDistinct (keys : Array Key) (start stop : Nat) : Prop :=
  ∀ i i', start ≤ i → i < stop → start ≤ i' → i' < stop → keys[i]? = keys[i']? → i = i'

theorem keysDistinct_of_nodup {keys : Array Key} (h : keys.toList.Nodup) {start stop : Nat}
    (hstop : stop ≤ keys.size) : KeysDistinct keys start stop := by
  intro i i' _ hi _ _ heq
  exact (List.getElem?_inj (by simp; omega) h).1 (by rwa [Array.getElem?_toList, Array.getElem?_toList])

/-- The keys of a slice are distinct at the slice's positions when the slice has no repeated key. -/
theorem keysDistinct_of_nodup_extract {keys : Array Key} {start stop : Nat}
    (hstop : stop ≤ keys.size) (h : (keys.extract start stop).toList.Nodup) :
    KeysDistinct keys start stop := by
  intro i i' hi hi' hi'' hi''' heq
  -- position `o` of the slice is position `start + o` of the array
  have hget : ∀ o, o < stop - start → (keys.extract start stop).toList[o]? = keys[start + o]? := by
    intro o ho
    rw [Array.toList_extract, List.extract_eq_take_drop, List.getElem?_take, if_pos ho,
      List.getElem?_drop, Array.getElem?_toList]
  have hlen : i - start < (keys.extract start stop).toList.length := by simp; omega
  have hslice : i - start = i' - start := (List.getElem?_inj hlen h).1 (by
    rw [hget _ (by omega), hget _ (by omega), Nat.add_sub_cancel' hi, Nat.add_sub_cancel' hi'', heq])
  omega

/-- With distinct previous keys in the range, a next position with the key of a previous position
not visited yet is still unmatched. -/
theorem Valid.fresh_of_distinct {m : Matching} (h : Valid aKeys bKeys aStart aEnd bStart bEnd m)
    (hA : KeysDistinct aKeys aStart aEnd) {i j : Nat} (hlt : ∀ p ∈ m.pairs, p.1 < i)
    (hi : aStart ≤ i) (hi' : i < aEnd) (hkey : aKeys[i]? = bKeys[j]?) :
    ∀ p ∈ m.pairs, p.2 ≠ j := by
  rintro ⟨i', j'⟩ hp rfl
  have hr := h.range _ hp
  exact Nat.ne_of_lt (hlt _ hp) (hA i' i hr.1 hr.2.1 hi hi' ((h.key _ hp).trans hkey.symm))

/-! ## Completeness and order -/

/-- Every previous position of the range whose key a next position of the range has is matched
with it. -/
def Complete (aKeys bKeys : Array Key) (aStart aEnd bStart bEnd : Nat) (m : Matching) : Prop :=
  ∀ i j, aStart ≤ i → i < aEnd → bStart ≤ j → j < bEnd → aKeys[i]? = bKeys[j]? → (i, j) ∈ m.pairs

section Run

variable {find : Matching → Nat → Option Nat}

/-- A walk whose `find` proposes every unmatched next position with the key of the previous
position is complete when the previous keys are distinct. -/
theorem run_complete (hA : aKeys.toList.Nodup) (haEnd : aEnd ≤ aKeys.size)
    (hfind : Proposes aKeys bKeys aStart aEnd bStart bEnd find)
    (hfound : ∀ m i j, Valid aKeys bKeys aStart aEnd bStart bEnd m → (∀ p ∈ m.pairs, p.1 < i) →
      aStart ≤ i → i < aEnd → bStart ≤ j → j < bEnd → aKeys[i]? = bKeys[j]? →
      (∀ p ∈ m.pairs, p.2 ≠ j) → find m i = some j) :
    Complete aKeys bKeys aStart aEnd bStart bEnd (run find aStart aEnd bStart bEnd) := by
  -- before visiting `i`, every earlier position with a partner is matched to it
  have hrun := run_inv hfind (fun i acc => ∀ i' j, aStart ≤ i' → i' < i →
      bStart ≤ j → j < bEnd → aKeys[i']? = bKeys[j]? → (i', j) ∈ acc.1.pairs)
    (fun i' _ hi' hi'' => absurd hi'' (Nat.not_lt.2 hi')) ?full ?add ?none
  · obtain ⟨-, last, hdone⟩ := hrun
    exact fun i j hi hi' => hdone i j hi (by omega)
  -- the earlier positions keep their pairs, so each case only has to match `i` itself
  case full =>
    intro m _ i hv hlt _ hi' hs hinv i' j h₁ h₂ h₃ h₄ hkey
    rcases Nat.lt_or_ge i' i with h | h
    · exact hinv i' j h₁ h h₃ h₄ hkey
    · -- every next position is taken, so `i` has no partner left
      obtain rfl : i' = i := by omega
      obtain ⟨_, hp⟩ := hv.matched_of_synced hs h₃ h₄
      exact absurd rfl (hv.fresh_of_key hA hlt (by omega) hkey _ hp)
  case add =>
    intro m _ i j₀ hv hlt _ hi' _ hj₀ _ _ _ _ hinv i' j h₁ h₂ h₃ h₄ hkey
    rw [add_pairs]
    rcases Nat.lt_or_ge i' i with h | h
    · exact List.mem_append_left _ (hinv i' j h₁ h h₃ h₄ hkey)
    · obtain rfl : i' = i := by omega
      have hj := hfound m i' j hv hlt h₁ hi' h₃ h₄ hkey (hv.fresh_of_key hA hlt (by omega) hkey)
      rw [hj₀, Option.some.injEq] at hj
      simp [hj]
  case none =>
    intro m _ i hv hlt _ hi' _ hnone hinv i' j h₁ h₂ h₃ h₄ hkey
    rcases Nat.lt_or_ge i' i with h | h
    · exact hinv i' j h₁ h h₃ h₄ hkey
    · obtain rfl : i' = i := by omega
      have hj := hfound m i' j hv hlt h₁ hi' h₃ h₄ hkey (hv.fresh_of_key hA hlt (by omega) hkey)
      rw [hnone] at hj
      exact absurd hj (by simp)

/-- A walk that met no pair out of order lists its pairs in increasing order of both positions. -/
theorem run_sorted (hfind : Proposes aKeys bKeys aStart aEnd bStart bEnd find)
    (hmoved : (run find aStart aEnd bStart bEnd).moved = false) :
    (run find aStart aEnd bStart bEnd).pairs.Pairwise fun p q => p.1 < q.1 ∧ p.2 < q.2 := by
  -- while nothing moved, the pairs are in order and none lies beyond the last next position
  have hrun := run_inv hfind (fun i acc => (∀ p ∈ acc.1.pairs, p.1 < i) →
      acc.1.moved = false →
      acc.1.pairs.Pairwise (fun p q => p.1 < q.1 ∧ p.2 < q.2) ∧ ∀ p ∈ acc.1.pairs, p.2 ≤ acc.2)
    (fun _ _ => ⟨List.Pairwise.nil, by simp⟩) (fun _ _ _ _ hlt _ _ _ hinv _ => hinv hlt) ?add
    (fun _ _ _ _ hlt _ _ _ _ hinv _ => hinv hlt)
  · obtain ⟨-, last, hdone⟩ := hrun
    exact (hdone (fun p hp => by have := ((run_valid hfind).range p hp).2.1; omega) hmoved).1
  case add =>
    intro m last i j _ hlt _ _ _ _ _ _ _ hfree hinv _ hm
    rw [add_moved, Bool.or_eq_false_iff, decide_eq_false_iff_not] at hm
    obtain ⟨hsorted, hle⟩ := hinv hlt hm.2
    rw [add_pairs, add_last, if_neg hm.1]
    refine ⟨List.pairwise_append.2 ⟨hsorted, List.pairwise_singleton _ _, ?_⟩, ?_⟩
    · intro p hp q hq
      rw [List.mem_singleton.1 hq]
      exact ⟨hlt p hp, Nat.lt_of_le_of_ne (Nat.le_trans (hle p hp) (Nat.not_lt.1 hm.1)) (hfree p hp)⟩
    · intro p hp
      rcases List.mem_append.1 hp with hp | hp
      · exact Nat.le_trans (hle p hp) (Nat.not_lt.1 hm.1)
      · obtain rfl := List.mem_singleton.1 hp
        exact Nat.le_refl _

end Run

/-- A matching whose pairs are in increasing order of both positions records increasing previous
positions along the next range. -/
theorem Valid.sources_increasing {m : Matching} (h : Valid aKeys bKeys aStart aEnd bStart bEnd m)
    (hsorted : m.pairs.Pairwise fun p q => p.1 < q.1 ∧ p.2 < q.2) :
    (m.sources.toList.filterMap id).Pairwise (· < ·) := by
  -- of two pairs, the one at the earlier next position is at the earlier previous position
  have hmono : ∀ p ∈ m.pairs, ∀ q ∈ m.pairs, p.2 < q.2 → p.1 < q.1 :=
    List.Pairwise.forall_of_forall_of_flip (fun p _ hp => absurd hp (Nat.lt_irrefl _))
      (hsorted.imp fun hpq _ => hpq.1) (hsorted.imp fun hpq hqp => absurd hpq.2 (Nat.lt_asymm hqp))
  rw [List.pairwise_filterMap, List.pairwise_iff_getElem]
  intro o o' ho ho' hoo' v hv v' hv'
  have hsize : m.sources.toList.length = bEnd - bStart := by rw [Array.length_toList, h.size]
  have hp := (h.sources v (bStart + o) (by omega) (by omega)).1 (by
    rw [Nat.add_sub_cancel_left, ← Array.getElem?_toList, List.getElem?_eq_getElem ho]
    exact congrArg some hv)
  have hp' := (h.sources v' (bStart + o') (by omega) (by omega)).1 (by
    rw [Nat.add_sub_cancel_left, ← Array.getElem?_toList, List.getElem?_eq_getElem ho']
    exact congrArg some hv')
  exact hmono _ hp _ hp' (by simp only; omega)

/-! ## Probing and looking up -/

/-- The left-to-right probe proposes an unmatched next position in range with the key. -/
theorem probe_some {m : Matching} (hv : Valid aKeys bKeys aStart aEnd bStart bEnd m) {i j : Nat}
    (hj : (List.range' bStart (bEnd - bStart)).find?
      (fun j => (m.sources[j - bStart]?).join.isNone && bKeys[j]? == aKeys[i]?) = some j) :
    bStart ≤ j ∧ j < bEnd ∧ aKeys[i]? = bKeys[j]? ∧ ∀ p ∈ m.pairs, p.2 ≠ j := by
  have hmem := List.mem_range'_1.1 (List.mem_of_find?_eq_some hj)
  have hp := List.find?_some hj
  simp only [Bool.and_eq_true, Option.isNone_iff_eq_none, beq_iff_eq] at hp
  refine ⟨hmem.1, by omega, hp.2.symm, ?_⟩
  -- the next position probed is not matched yet
  rintro ⟨i', j'⟩ hpair rfl
  have hs := (hv.sources i' j' hmem.1 (by omega)).2 hpair
  simp [hs] at hp

/-- The probe finds an unmatched next position with the key when the next keys of the range are
distinct. -/
theorem probe_eq_of_distinct {m : Matching} (hv : Valid aKeys bKeys aStart aEnd bStart bEnd m)
    (hB : KeysDistinct bKeys bStart bEnd) {i j : Nat} (hj : bStart ≤ j) (hj' : j < bEnd)
    (hkey : aKeys[i]? = bKeys[j]?) (hfree : ∀ p ∈ m.pairs, p.2 ≠ j) :
    (List.range' bStart (bEnd - bStart)).find?
      (fun j => (m.sources[j - bStart]?).join.isNone && bKeys[j]? == aKeys[i]?) = some j := by
  -- `j` qualifies, so a position is found; it has the key of `j`, so it is `j`
  have hnone : (m.sources[j - bStart]?).join = none := by
    rcases hs : m.sources[j - bStart]? with _ | _ | i'
    · rfl
    · rfl
    · exact absurd rfl (hfree _ ((hv.sources i' j hj hj').1 hs))
  obtain ⟨j₀, hj₀⟩ := Option.isSome_iff_exists.1 (List.find?_isSome.2
    ⟨j, List.mem_range'_1.2 ⟨hj, by omega⟩, by simp [hnone, hkey]⟩ :
      ((List.range' bStart (bEnd - bStart)).find?
        fun j => (m.sources[j - bStart]?).join.isNone && bKeys[j]? == aKeys[i]?).isSome)
  obtain ⟨hj₀s, hj₀', hkey₀, -⟩ := probe_some hv hj₀
  rw [hj₀, hB j₀ j hj₀s hj₀' hj hj' (hkey₀.symm.trans hkey)]

theorem probe_eq {m : Matching} (hv : Valid aKeys bKeys aStart aEnd bStart bEnd m)
    (hB : bKeys.toList.Nodup) (hbEnd : bEnd ≤ bKeys.size) {i j : Nat} (hj : bStart ≤ j)
    (hj' : j < bEnd) (hkey : aKeys[i]? = bKeys[j]?) (hfree : ∀ p ∈ m.pairs, p.2 ≠ j) :
    (List.range' bStart (bEnd - bStart)).find?
      (fun j => (m.sources[j - bStart]?).join.isNone && bKeys[j]? == aKeys[i]?) = some j :=
  probe_eq_of_distinct hv (keysDistinct_of_nodup hB hbEnd) hj hj' hkey hfree

theorem linear_proposes :
    Proposes aKeys bKeys aStart aEnd bStart bEnd fun m i =>
      (List.range' bStart (bEnd - bStart)).find? fun j =>
        (m.sources[j - bStart]?).join.isNone && bKeys[j]? == aKeys[i]? :=
  fun _ _ _ hv _ _ _ hj => probe_some hv hj

theorem linear_valid :
    Valid aKeys bKeys aStart aEnd bStart bEnd (linear aKeys bKeys aStart aEnd bStart bEnd) :=
  run_valid linear_proposes

theorem linear_complete (hA : aKeys.toList.Nodup) (hB : bKeys.toList.Nodup)
    (haEnd : aEnd ≤ aKeys.size) (hbEnd : bEnd ≤ bKeys.size) :
    Complete aKeys bKeys aStart aEnd bStart bEnd (linear aKeys bKeys aStart aEnd bStart bEnd) :=
  run_complete hA haEnd linear_proposes
    fun _ _ _ hv _ _ _ hj hj' hkey hfree => probe_eq hv hB hbEnd hj hj' hkey hfree

/-- The index of a next range lists its positions with their keys. -/
theorem mem_index {e : Key × Nat} :
    e ∈ (List.range' bStart (bEnd - bStart)).filterMap (fun j => (bKeys[j]?).map (·, j)) ↔
      bStart ≤ e.2 ∧ e.2 < bEnd ∧ bKeys[e.2]? = some e.1 := by
  constructor
  · intro he
    obtain ⟨j, hj, hentry⟩ := List.mem_filterMap.1 he
    obtain ⟨k, hk, rfl⟩ := Option.map_eq_some_iff.1 hentry
    have hmem := List.mem_range'_1.1 hj
    exact ⟨hmem.1, by omega, hk⟩
  · rintro ⟨h₁, h₂, hk⟩
    exact List.mem_filterMap.2 ⟨e.2, List.mem_range'_1.2 ⟨h₁, by omega⟩, by simp [hk]⟩

/-- Looking a key up in the index of a next range gives a position of the range with the key. -/
theorem lookup_some {k : Key} {j : Nat}
    (h : (((List.range' bStart (bEnd - bStart)).filterMap (fun j => (bKeys[j]?).map (·, j))).reverse.find?
      (·.1 == k)).map (·.2) = some j) :
    bStart ≤ j ∧ j < bEnd ∧ bKeys[j]? = some k := by
  obtain ⟨⟨k', j'⟩, hfind, rfl⟩ := Option.map_eq_some_iff.1 h
  have hk' := List.find?_some hfind
  simp only [beq_iff_eq] at hk'
  subst hk'
  exact mem_index.1 (List.mem_reverse.1 (List.mem_of_find?_eq_some hfind))

/-- Looking a key up in the index finds its next position when the next keys of the range are
distinct. -/
theorem lookup_eq_of_distinct (hB : KeysDistinct bKeys bStart bEnd) {k : Key} {j : Nat}
    (hj : bStart ≤ j) (hj' : j < bEnd) (hk : bKeys[j]? = some k) :
    (((List.range' bStart (bEnd - bStart)).filterMap (fun j => (bKeys[j]?).map (·, j))).reverse.find?
      (·.1 == k)).map (·.2) = some j := by
  -- the entry of `j` qualifies, so an entry is found; it has the key of `j`, so it is `j`'s
  obtain ⟨e, he⟩ := Option.isSome_iff_exists.1 (List.find?_isSome.2
    ⟨(k, j), List.mem_reverse.2 (mem_index.2 ⟨hj, hj', hk⟩), beq_self_eq_true k⟩ :
      (((List.range' bStart (bEnd - bStart)).filterMap
        (fun j => (bKeys[j]?).map (·, j))).reverse.find? (·.1 == k)).isSome)
  have hke : e.1 = k := by simpa using List.find?_some he
  obtain ⟨he₁, he', hkey⟩ := mem_index.1 (List.mem_reverse.1 (List.mem_of_find?_eq_some he))
  rw [he, Option.map_some, hB e.2 j he₁ he' hj hj' (by rw [hkey, hke, hk])]

theorem lookup_eq (hB : bKeys.toList.Nodup) (hbEnd : bEnd ≤ bKeys.size) {k : Key} {j : Nat}
    (hj : bStart ≤ j) (hj' : j < bEnd) (hk : bKeys[j]? = some k) :
    (((List.range' bStart (bEnd - bStart)).filterMap (fun j => (bKeys[j]?).map (·, j))).reverse.find?
      (·.1 == k)).map (·.2) = some j :=
  lookup_eq_of_distinct (keysDistinct_of_nodup hB hbEnd) hj hj' hk

/-- Looking previous keys up in an index of the next keys proposes only unmatched next positions
with the key, when the previous keys are distinct. -/
theorem indexed_proposes (hA : aKeys.toList.Nodup) :
    Proposes aKeys bKeys aStart aEnd bStart bEnd fun _ i => match aKeys[i]? with
      | some k =>
        (((List.range' bStart (bEnd - bStart)).filterMap (fun j => (bKeys[j]?).map (·, j))).reverse.find?
          (·.1 == k)).map (·.2)
      | none => none := by
  intro m i j hv hlt _ _ hj
  dsimp only at hj
  split at hj
  · rename_i k hk
    obtain ⟨hj₁, hj₂, hkj⟩ := lookup_some hj
    have hkey : aKeys[i]? = bKeys[j]? := by rw [hk, hkj]
    exact ⟨hj₁, hj₂, hkey, hv.fresh_of_key hA hlt (Array.getElem?_eq_some_iff.1 hk).1 hkey⟩
  · simp at hj

/-- Looking previous keys up in an index of the next keys gives a valid matching when the
previous keys are distinct. -/
theorem indexed_valid (hnodup : aKeys.toList.Nodup) :
    Valid aKeys bKeys aStart aEnd bStart bEnd (indexed aKeys bKeys aStart aEnd bStart bEnd) :=
  run_valid (indexed_proposes hnodup)

/-- Looking previous keys up in an index of the next keys is complete when the keys are distinct
on both sides. -/
theorem indexed_complete (hA : aKeys.toList.Nodup) (hB : bKeys.toList.Nodup)
    (haEnd : aEnd ≤ aKeys.size) (hbEnd : bEnd ≤ bKeys.size) :
    Complete aKeys bKeys aStart aEnd bStart bEnd (indexed aKeys bKeys aStart aEnd bStart bEnd) := by
  refine run_complete hA haEnd (indexed_proposes hA) fun _ i j _ _ _ _ hj hj' hkey _ => ?_
  obtain ⟨k, hk⟩ : ∃ k, bKeys[j]? = some k := ⟨_, Array.getElem?_eq_getElem (by omega)⟩
  rw [hkey, hk]
  exact lookup_eq hB hbEnd hj hj' hk

/-- Either way of matching is valid and complete when the keys are distinct on both sides, and
when nothing moved, the previous positions it records increase along the next range. -/
theorem sound_of_linear_or_indexed (hA : aKeys.toList.Nodup) (hB : bKeys.toList.Nodup)
    (haEnd : aEnd ≤ aKeys.size) (hbEnd : bEnd ≤ bKeys.size) {m : Matching}
    (hm : m = linear aKeys bKeys aStart aEnd bStart bEnd ∨
      m = indexed aKeys bKeys aStart aEnd bStart bEnd) :
    Valid aKeys bKeys aStart aEnd bStart bEnd m ∧ Complete aKeys bKeys aStart aEnd bStart bEnd m ∧
      (m.moved = false → (m.sources.toList.filterMap id).Pairwise (· < ·)) := by
  rcases hm with rfl | rfl
  · exact ⟨linear_valid, linear_complete hA hB haEnd hbEnd,
      fun h => linear_valid.sources_increasing (run_sorted linear_proposes h)⟩
  · exact ⟨indexed_valid hA, indexed_complete hA hB haEnd hbEnd,
      fun h => (indexed_valid hA).sources_increasing (run_sorted (indexed_proposes hA) h)⟩

/-! ## The two ways of matching agree -/

/-- One visit of the walk of `run`: stop matching once every next position is taken, else add
the pair `find` proposes, if any. -/
def visit (find : Matching → Nat → Option Nat) (bStart bLen : Nat) (acc : Matching × Nat)
    (i : Nat) : Matching × Nat :=
  let (m, last) := acc
  if m.synced = bLen then acc
  else match find m i with
    | some j => m.add bStart i j last
    | none => acc

theorem run_eq_foldl_visit (find : Matching → Nat → Option Nat) :
    run find aStart aEnd bStart bEnd = ((List.range' aStart (aEnd - aStart)).foldl
      (visit find bStart (bEnd - bStart)) ({ sources := Array.replicate (bEnd - bStart) none }, 0)).1 :=
  rfl

theorem foldl_visit_succ {find : Matching → Nat → Option Nat} {bLen i : Nat} {init : Matching × Nat}
    (hi : aStart ≤ i) :
    (List.range' aStart (i + 1 - aStart)).foldl (visit find bStart bLen) init =
      visit find bStart bLen ((List.range' aStart (i - aStart)).foldl (visit find bStart bLen) init) i := by
  rw [show i + 1 - aStart = i - aStart + 1 by omega, List.range'_concat, List.foldl_concat,
    Nat.one_mul, Nat.add_sub_cancel' hi]

/-- Two ways of proposing next positions that agree on every matching the walk of the first can
reach give the same matching. -/
theorem run_congr {find find' : Matching → Nat → Option Nat}
    (hfind : Proposes aKeys bKeys aStart aEnd bStart bEnd find)
    (hagree : ∀ m i, Valid aKeys bKeys aStart aEnd bStart bEnd m → (∀ p ∈ m.pairs, p.1 < i) →
      aStart ≤ i → i < aEnd → find m i = find' m i) :
    run find aStart aEnd bStart bEnd = run find' aStart aEnd bStart bEnd := by
  -- visit by visit, the walk of `find` is the walk of `find'`
  have hrun := run_inv hfind (fun i acc => acc = (List.range' aStart (i - aStart)).foldl
      (visit find' bStart (bEnd - bStart)) ({ sources := Array.replicate (bEnd - bStart) none }, 0))
    (by simp) ?full ?add ?none
  · obtain ⟨-, last, hdone⟩ := hrun
    rw [Nat.add_sub_cancel_left] at hdone
    rw [run_eq_foldl_visit find', ← hdone]
  case full =>
    intro m last i _ _ hi _ hs hinv
    rw [foldl_visit_succ hi, ← hinv]
    simp [visit, hs]
  case add =>
    intro m last i j hv hlt hi hi' hs hj _ _ _ _ hinv
    rw [foldl_visit_succ hi, ← hinv]
    simp [visit, hs, ← hagree m i hv hlt hi hi', hj]
  case none =>
    intro m last i hv hlt hi hi' hs hj hinv
    rw [foldl_visit_succ hi, ← hinv]
    simp [visit, hs, ← hagree m i hv hlt hi hi', hj]

/-- With distinct keys on both sides, probing from the left and looking up the index propose the
same next position on every matching the walk can reach: the one of the range with the key. -/
theorem probe_eq_lookup {m : Matching} (hv : Valid aKeys bKeys aStart aEnd bStart bEnd m)
    (hA : KeysDistinct aKeys aStart aEnd) (hB : KeysDistinct bKeys bStart bEnd)
    (haEnd : aEnd ≤ aKeys.size) {i : Nat} (hlt : ∀ p ∈ m.pairs, p.1 < i) (hi : aStart ≤ i)
    (hi' : i < aEnd) :
    (List.range' bStart (bEnd - bStart)).find?
        (fun j => (m.sources[j - bStart]?).join.isNone && bKeys[j]? == aKeys[i]?) =
      match aKeys[i]? with
      | some k =>
        (((List.range' bStart (bEnd - bStart)).filterMap (fun j => (bKeys[j]?).map (·, j))).reverse.find?
          (·.1 == k)).map (·.2)
      | none => none := by
  obtain ⟨k, hk⟩ : ∃ k, aKeys[i]? = some k := ⟨_, Array.getElem?_eq_getElem (by omega)⟩
  rw [Option.ext_iff]
  intro j
  constructor
  · intro hj
    obtain ⟨hj₁, hj₂, hkey, -⟩ := probe_some hv hj
    rw [hk]
    exact lookup_eq_of_distinct hB hj₁ hj₂ (hkey.symm.trans hk)
  · intro hj
    simp only [hk] at hj
    obtain ⟨hj₁, hj₂, hkj⟩ := lookup_some hj
    have hkey : aKeys[i]? = bKeys[j]? := hk.trans hkj.symm
    exact probe_eq_of_distinct hv hB hj₁ hj₂ hkey (hv.fresh_of_distinct hA hlt hi hi' hkey)

/-- The matching tier never changes the matching: on previous and next ranges whose keys are
each pairwise distinct, probing the next keys from the left and looking them up in an index give
the same sources, the same moved flag, the same count and the same pairs in the same order. So
whichever way the reconciler picks by the ranges' sizes, it patches the same items. -/
theorem linear_eq_indexed (haEnd : aEnd ≤ aKeys.size) (hbEnd : bEnd ≤ bKeys.size)
    (hA : (aKeys.extract aStart aEnd).toList.Nodup) (hB : (bKeys.extract bStart bEnd).toList.Nodup) :
    linear aKeys bKeys aStart aEnd bStart bEnd = indexed aKeys bKeys aStart aEnd bStart bEnd :=
  run_congr linear_proposes fun _ _ hv hlt hi hi' =>
    probe_eq_lookup hv (keysDistinct_of_nodup_extract haEnd hA)
      (keysDistinct_of_nodup_extract hbEnd hB) haEnd hlt hi hi'

/-- The tiers agree on a swap in the middle of a list: `a b c d` against `a c b d`. -/
theorem linear_eq_indexed_swap :
    let aKeys := #[Key.str "a", .str "b", .str "c", .str "d"]
    let bKeys := #[Key.str "a", .str "c", .str "b", .str "d"]
    3 ≤ aKeys.size ∧ 3 ≤ bKeys.size ∧ (aKeys.extract 1 3).toList.Nodup ∧
      (bKeys.extract 1 3).toList.Nodup ∧ linear aKeys bKeys 1 3 1 3 = indexed aKeys bKeys 1 3 1 3 :=
  ⟨by decide, by decide, by decide, by decide,
    linear_eq_indexed (by decide) (by decide) (by decide) (by decide)⟩

end Matching

end Canopy
