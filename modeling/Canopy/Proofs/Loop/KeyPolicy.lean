import Mathlib
import Canopy.Render.Loop

/-!
# Duplicate-key policies

A loop's projected items go through the configured duplicate-key policy
(`Projected.dedupe`). Refusing scans the items with the set of keys seen so far and fails with
the first key it has seen before, which is the first key of the list that repeats an earlier one
(`dedupe_reject_eq_error_iff`); when no key repeats, every item is kept
(`dedupe_reject_eq_ok_iff`).

Keeping the last records the position of every item under its key, so that the table ends
holding the last position of each key (`getElem?_lastPositions`); the table has as many entries
as there are items only when the keys are distinct (`nodup_of_size_lastPositions`). The items are
then kept, counting positions as they go by, when the table holds their own position. So the
items kept are, in order, exactly those at the positions that no later position shares a key
with (`dedupe_keepLast_eq`), one item for each key, and either policy leaves distinct keys
(`dedupe_nodup`).
-/

namespace Canopy

/-! ## Tables of positions -/

namespace KeyPositions

variable (t : KeyPositions) (k : Key) (i : Nat)

@[simp]
theorem get?_empty : (⟨[]⟩ : KeyPositions).get? k = none := rfl

/-- Inserting a key sets its position and leaves every other key's. -/
theorem get?_insert (k' : Key) :
    (t.insert k i).get? k' = if k = k' then some i else t.get? k' := by
  by_cases h : k = k'
  · simp [get?, insert, h]
  · -- the filter drops only `k`'s entries, which the lookup of `k'` passes over anyway
    have hkeep : ∀ e : Key × Nat, (¬e.1 = k ∧ e.1 = k') ↔ e.1 = k' :=
      fun e => ⟨And.right, fun he => ⟨fun hk => h (hk.symm.trans he), he⟩⟩
    simp [get?, insert, h, List.find?_filter, hkeep]
    rfl

theorem get?_eq_none_iff : t.get? k = none ↔ ∀ e ∈ t.entries, e.1 ≠ k := by
  simp [get?, List.find?_eq_none]

theorem size_insert : (t.insert k i).size ≤ t.size + 1 ∧
    ((t.insert k i).size = t.size + 1 → t.get? k = none) := by
  have hle := List.length_filter_le (·.1 != k) t.entries
  simp only [size, insert, List.length_cons]
  refine ⟨by omega, fun h => (get?_eq_none_iff t k).2 fun e he hek => ?_⟩
  have hlt : (t.entries.filter (·.1 != k)).length < t.entries.length :=
    List.length_filter_lt_length_iff_exists.2 ⟨e, he, by simp [hek]⟩
  omega

end KeyPositions

namespace Projected

/-- `x` is the first value of a list that an earlier position holds too: the values before it
are distinct and include it. -/
def FirstRepeat {α : Type} (xs : List α) (x : α) : Prop :=
  ∃ pre rest, xs = pre ++ x :: rest ∧ pre.Nodup ∧ x ∈ pre

/-- Position `i` of a list holds a value that no later position holds. -/
def IsLast {α : Type} (xs : List α) (i : Nat) : Prop :=
  i < xs.length ∧ ∀ j < xs.length, i < j → xs[j]? ≠ xs[i]?

instance {α : Type} [DecidableEq α] (xs : List α) (i : Nat) : Decidable (IsLast xs i) :=
  inferInstanceAs (Decidable (i < xs.length ∧ ∀ j < xs.length, i < j → xs[j]? ≠ xs[i]?))

variable {ps : List Projected} {k : Key}

/-! ## Refusing repeated keys -/

/-- The scan stops with a key exactly at the first item whose key it has seen: before that item
the keys are new and distinct. -/
theorem firstRepeat?_eq_some_iff (seen : List Key) (ps : List Projected) (k : Key) :
    firstRepeat? seen ps = some k ↔ ∃ pre rest, ps.map (·.key) = pre ++ k :: rest ∧
      (∀ x ∈ pre, x ∉ seen) ∧ pre.Nodup ∧ (k ∈ seen ∨ k ∈ pre) := by
  induction ps generalizing seen with
  | nil => simp [firstRepeat?]
  | cons p ps ih =>
    by_cases hp : p.key ∈ seen
    · -- the scan stops at `p`, and no split may put `p` before the repeat
      have hc : seen.contains p.key = true := List.contains_iff_mem.2 hp
      simp only [firstRepeat?, hc, if_true, Option.some.injEq, List.map_cons]
      constructor
      · rintro rfl
        exact ⟨[], ps.map (·.key), rfl, by simp, List.nodup_nil, .inl hp⟩
      · rintro ⟨_ | ⟨y, pre⟩, rest, heq, hnew, -, -⟩
        · exact (List.cons.inj heq).1
        · obtain ⟨rfl, -⟩ := List.cons.inj heq
          exact absurd hp (hnew _ List.mem_cons_self)
    · have hc : seen.contains p.key = false := by
        simpa [List.contains_iff_mem] using hp
      simp only [firstRepeat?, hc, Bool.false_eq_true, if_false, List.map_cons, ih,
        List.mem_cons]
      constructor
      · rintro ⟨pre, rest, heq, hnew, hnd, hk⟩
        refine ⟨p.key :: pre, rest, by rw [heq]; rfl, ?_, ?_, ?_⟩
        · intro x hx
          rcases List.mem_cons.1 hx with rfl | hx
          · exact hp
          · exact fun h => hnew x hx (.inr h)
        · exact List.nodup_cons.2 ⟨fun h => hnew _ h (.inl rfl), hnd⟩
        · rcases hk with (rfl | hk) | hk
          · exact .inr List.mem_cons_self
          · exact .inl hk
          · exact .inr (List.mem_cons_of_mem _ hk)
      · rintro ⟨_ | ⟨y, pre⟩, rest, heq, hnew, hnd, hk⟩
        · -- a repeat at `p` would need `p`'s key to have been seen
          obtain ⟨rfl, -⟩ := List.cons.inj heq
          simp only [List.not_mem_nil, or_false] at hk
          exact absurd hk hp
        · simp only [List.cons_append, List.cons.injEq] at heq
          obtain ⟨rfl, htail⟩ := heq
          obtain ⟨hy, hnd⟩ := List.nodup_cons.1 hnd
          refine ⟨pre, rest, htail, fun x hx => ?_, hnd, ?_⟩
          · rintro (rfl | h)
            · exact hy hx
            · exact hnew x (List.mem_cons_of_mem _ hx) h
          · rcases hk with hk | hk
            · exact .inl (.inr hk)
            · rcases List.mem_cons.1 hk with rfl | hk
              · exact .inl (.inl rfl)
              · exact .inr hk

/-- The scan goes through when every key is new and no two are equal. -/
theorem firstRepeat?_eq_none_iff (seen : List Key) (ps : List Projected) :
    firstRepeat? seen ps = none ↔ (∀ x ∈ ps.map (·.key), x ∉ seen) ∧ (ps.map (·.key)).Nodup := by
  induction ps generalizing seen with
  | nil => simp [firstRepeat?]
  | cons p ps ih =>
    by_cases hp : p.key ∈ seen
    · simp [firstRepeat?, hp]
    · have hc : seen.contains p.key = false := by
        simpa [List.contains_iff_mem] using hp
      simp only [firstRepeat?, hc, Bool.false_eq_true, if_false, ih, List.map_cons,
        List.mem_cons, forall_eq_or_imp, List.nodup_cons]
      constructor
      · rintro ⟨hnew, hnd⟩
        exact ⟨⟨hp, fun x hx h => hnew x hx (.inr h)⟩, fun h => hnew _ h (.inl rfl), hnd⟩
      · rintro ⟨⟨-, hnew⟩, hnot, hnd⟩
        refine ⟨fun x hx => ?_, hnd⟩
        rintro (rfl | h)
        · exact hnot hx
        · exact hnew x hx h

theorem firstRepeat?_nil_eq_some_iff :
    firstRepeat? [] ps = some k ↔ FirstRepeat (ps.map (·.key)) k := by
  simp [firstRepeat?_eq_some_iff, FirstRepeat]

theorem firstRepeat?_nil_eq_none_iff : firstRepeat? [] ps = none ↔ (ps.map (·.key)).Nodup := by
  simp [firstRepeat?_eq_none_iff]

/-- Refusing duplicate keys fails with a key exactly when that key is the first to repeat an
earlier one. -/
theorem dedupe_reject_eq_error_iff :
    dedupe .reject ps = .error k ↔ FirstRepeat (ps.map (·.key)) k := by
  rw [← firstRepeat?_nil_eq_some_iff]
  cases h : firstRepeat? [] ps with
  | none => simp [dedupe, h]
  | some k' => simp [dedupe, h]

/-- Refusing duplicate keys keeps every item, in order, exactly when the keys are pairwise
distinct. -/
theorem dedupe_reject_eq_ok_iff {qs : List Projected} :
    dedupe .reject ps = .ok qs ↔ qs = ps ∧ (ps.map (·.key)).Nodup := by
  rw [← firstRepeat?_nil_eq_none_iff]
  cases h : firstRepeat? [] ps with
  | none => simp [dedupe, h, eq_comm]
  | some k' => simp [dedupe, h]

theorem exists_firstRepeat_iff : (∃ k, FirstRepeat (ps.map (·.key)) k) ↔ ¬ (ps.map (·.key)).Nodup := by
  simp only [← firstRepeat?_nil_eq_some_iff, ← firstRepeat?_nil_eq_none_iff]
  cases firstRepeat? [] ps <;> simp

/-! ## Keeping the last item of each key -/

/-- Recording the positions `n, n + 1, …` of items into a table gives a key of the items the
position of its last occurrence, and leaves any other key as the table had it. -/
theorem get?_foldl_insert (ps : List Projected) (n : Nat) (m : KeyPositions) (k : Key)
    (i : Nat) :
    ((ps.zipIdx n).foldl (fun last x => last.insert x.1.key x.2) m).get? k = some i ↔
      (∃ j, i = n + j ∧ (ps.map (·.key))[j]? = some k ∧
        ∀ j', j < j' → (ps.map (·.key))[j']? ≠ some k) ∨
      (k ∉ ps.map (·.key) ∧ m.get? k = some i) := by
  induction ps generalizing n m with
  | nil => simp
  | cons p ps ih =>
    rw [List.zipIdx_cons, List.foldl_cons, ih, KeyPositions.get?_insert]
    by_cases hk : k ∈ ps.map (·.key)
    · -- a later occurrence decides, and it is one position further in the longer list
      have hlater : ∀ j, (∀ j', j < j' → ((p :: ps).map (·.key))[j']? ≠ some k) → 0 < j := by
        intro j hj
        obtain ⟨j₀, hj₀⟩ := List.mem_iff_getElem?.1 hk
        rcases Nat.eq_zero_or_pos j with rfl | hpos
        · exact absurd (by simpa using hj₀) (hj (j₀ + 1) (Nat.succ_pos _))
        · exact hpos
      simp only [hk, not_true_eq_false, false_and, or_false, List.map_cons, List.mem_cons,
        or_true]
      constructor
      · rintro ⟨j, rfl, hj, hlast⟩
        refine ⟨j + 1, by omega, by simpa using hj, fun j' hj' => ?_⟩
        obtain ⟨j', rfl⟩ : ∃ j'', j' = j'' + 1 := ⟨j' - 1, by omega⟩
        simpa using hlast j' (by omega)
      · rintro ⟨j, rfl, hj, hlast⟩
        obtain ⟨j, rfl⟩ : ∃ j'', j = j'' + 1 := ⟨j - 1, by have := hlater _ hlast; omega⟩
        refine ⟨j, by omega, by simpa using hj, fun j' hj' => ?_⟩
        simpa using hlast (j' + 1) (by omega)
    · -- no later occurrence: the key is `p`'s, at position `n`, or it is the table's
      have hnone : ∀ j, (ps.map (·.key))[j]? ≠ some k := fun j hj =>
        hk (List.mem_of_getElem? hj)
      simp only [hnone, false_and, and_false, exists_false, false_or, hk, not_false_eq_true,
        true_and, List.map_cons, List.mem_cons, or_false]
      by_cases hpk : p.key = k
      · subst hpk
        simp only [if_true, Option.some.injEq, not_true_eq_false, false_and, or_false]
        constructor
        · rintro rfl
          refine ⟨0, rfl, rfl, fun j' hj' => ?_⟩
          obtain ⟨j', rfl⟩ : ∃ j'', j' = j'' + 1 := ⟨j' - 1, by omega⟩
          simpa using hnone j'
        · rintro ⟨j, rfl, hj, -⟩
          cases j with
          | zero => rfl
          | succ j => exact absurd (by simpa using hj) (hnone j)
      · simp only [hpk, if_false, Ne.symm hpk, not_false_eq_true, true_and]
        constructor
        · exact fun h => .inr h
        · rintro (⟨j, -, hj, -⟩ | h)
          · cases j with
            | zero => exact absurd (by simpa using hj) hpk
            | succ j => exact absurd (by simpa using hj) (hnone j)
          · exact h

theorem get?_lastPositions (ps : List Projected) (k : Key) (i : Nat) :
    (lastPositions ps).get? k = some i ↔
      (ps.map (·.key))[i]? = some k ∧ ∀ j, i < j → (ps.map (·.key))[j]? ≠ some k := by
  rw [lastPositions, get?_foldl_insert]
  simp

/-- Recording positions adds at most one entry per item, and one per item only when the keys
are distinct and new to the table. -/
theorem size_foldl_insert (ps : List Projected) (n : Nat) (m : KeyPositions) :
    ((ps.zipIdx n).foldl (fun last x => last.insert x.1.key x.2) m).size ≤ m.size + ps.length ∧
      (((ps.zipIdx n).foldl (fun last x => last.insert x.1.key x.2) m).size =
          m.size + ps.length →
        (ps.map (·.key)).Nodup ∧ ∀ x ∈ ps.map (·.key), m.get? x = none) := by
  induction ps generalizing n m with
  | nil => simp
  | cons p ps ih =>
    rw [List.zipIdx_cons, List.foldl_cons]
    obtain ⟨hle, heq⟩ := ih (n + 1) (m.insert p.key n)
    obtain ⟨hsize, hnew⟩ := m.size_insert p.key n
    simp only [List.length_cons]
    refine ⟨by omega, fun h => ?_⟩
    have hins : (m.insert p.key n).size = m.size + 1 := by omega
    obtain ⟨hnd, hfresh⟩ := heq (by omega)
    refine ⟨List.nodup_cons.2 ⟨fun hp => ?_, hnd⟩, fun x hx => ?_⟩
    · simpa [KeyPositions.get?_insert] using hfresh _ hp
    · rcases List.mem_cons.1 hx with rfl | hx
      · exact hnew hins
      · have hx' := hfresh x hx
        rw [KeyPositions.get?_insert] at hx'
        split at hx'
        · cases hx'
        · exact hx'

theorem nodup_of_size_lastPositions (h : (lastPositions ps).size = ps.length) :
    (ps.map (·.key)).Nodup :=
  ((size_foldl_insert ps 0 ⟨[]⟩).2 (by simpa [lastPositions, KeyPositions.size] using h)).1

theorem retainLast_eq (last : KeyPositions) (n : Nat) (ps : List Projected) :
    retainLast last n ps =
      ((ps.zipIdx n).filter fun x => last.get? x.1.key == some x.2).map (·.1) := by
  induction ps generalizing n with
  | nil => rfl
  | cons p ps ih =>
    rw [retainLast, List.zipIdx_cons, List.filter_cons, ih]
    split <;> simp_all

/-- The item at a position passes the test of the table of last positions exactly when no later
position shares its key. -/
theorem lastPositions_test_iff {i : Nat} (hi : i < ps.length) :
    ((lastPositions ps).get? ps[i].key == some i) = true ↔ IsLast (ps.map (·.key)) i := by
  rw [beq_iff_eq, get?_lastPositions, IsLast, List.length_map, List.getElem?_map,
    List.getElem?_eq_getElem hi]
  simp only [Option.map_some, true_and, hi]
  exact ⟨fun h j _ hij => h j hij, fun h j hij hj => by
    have hj' : j < ps.length := by
      by_contra hn
      rw [List.getElem?_map, List.getElem?_eq_none (by omega)] at hj
      cases hj
    exact h j hj' hij hj⟩

/-- Whichever way it goes, keeping the last retains the items that pass the test of the table of
last positions: when the table has an entry per item, the keys are distinct and every item
passes. -/
theorem dedupe_keepLast_eq_retain (ps : List Projected) :
    dedupe .keepLast ps = .ok (retainLast (lastPositions ps) 0 ps) := by
  simp only [dedupe]
  split
  · rename_i hsize
    have hnd := nodup_of_size_lastPositions (beq_iff_eq.1 hsize)
    rw [retainLast_eq, List.filter_eq_self.2, List.zipIdx_map_fst]
    rintro ⟨p, i⟩ hx
    obtain ⟨-, hi, hp⟩ := List.mem_zipIdx hx
    simp only [Nat.zero_add, Nat.sub_zero] at hi hp
    show ((lastPositions ps).get? p.key == some i) = true
    rw [hp]
    -- distinct keys make every position the last of its key
    refine (lastPositions_test_iff hi).2 ⟨by simpa using hi, fun j hj hij heq => ?_⟩
    have := (List.nodup_iff_getElem?_ne_getElem?.1 hnd) i j hij hj
    exact this heq.symm
  · rfl

/-- Keeping the last item of each key keeps, in order, the items at exactly the positions that
no later position shares a key with. -/
theorem dedupe_keepLast_eq (ps : List Projected) :
    ∃ is : List Nat, is.Pairwise (· < ·) ∧ (∀ i, i ∈ is ↔ IsLast (ps.map (·.key)) i) ∧
      dedupe .keepLast ps = .ok (is.filterMap (ps[·]?)) := by
  let kept := ps.zipIdx.filter fun x => (lastPositions ps).get? x.1.key == some x.2
  have hmem : ∀ x ∈ kept, x.2 < ps.length ∧ ps[x.2]? = some x.1 := by
    rintro ⟨p, i⟩ hx
    obtain ⟨-, hi, hp⟩ := List.mem_zipIdx (List.mem_filter.1 hx).1
    simp only [Nat.zero_add, Nat.sub_zero] at hi hp
    exact ⟨hi, by simp [hp]⟩
  refine ⟨kept.map (·.2), ?_, fun i => ?_, ?_⟩
  · -- positions come out of the list in increasing order
    have hsub : List.Sublist (kept.map (·.2)) (ps.zipIdx.map (·.2)) := List.filter_sublist.map _
    rw [List.zipIdx_map_snd] at hsub
    exact (List.pairwise_lt_range' ..).sublist hsub
  · constructor
    · intro hi
      obtain ⟨⟨p, i'⟩, hx, rfl⟩ := List.mem_map.1 hi
      obtain ⟨hlt, hp⟩ := hmem _ hx
      have htest := (List.mem_filter.1 hx).2
      rw [List.getElem?_eq_getElem hlt, Option.some_inj] at hp
      rw [← hp] at htest
      exact (lastPositions_test_iff hlt).1 htest
    · intro hlast
      have hi : i < ps.length := by simpa using hlast.1
      refine List.mem_map.2 ⟨(ps[i], i), List.mem_filter.2 ⟨?_, ?_⟩, rfl⟩
      · exact List.mem_iff_getElem.2 ⟨i, by simpa using hi, by simp⟩
      · exact (lastPositions_test_iff hi).2 hlast
  · rw [dedupe_keepLast_eq_retain, retainLast_eq, Except.ok.injEq, List.filterMap_map,
      ← List.filterMap_eq_map]
    exact List.filterMap_congr fun x hx => (hmem x hx).2.symm

/-- Keeping the last item of each key keeps one item of every key. -/
theorem mem_keys_of_dedupe_keepLast {qs : List Projected} (h : dedupe .keepLast ps = .ok qs)
    (k : Key) : k ∈ qs.map (·.key) ↔ k ∈ ps.map (·.key) := by
  obtain ⟨is, -, his, hd⟩ := dedupe_keepLast_eq ps
  rw [hd, Except.ok.injEq] at h
  subst h
  constructor
  · intro hk
    obtain ⟨q, hq, rfl⟩ := List.mem_map.1 hk
    obtain ⟨i, -, hi⟩ := List.mem_filterMap.1 hq
    exact List.mem_map.2 ⟨q, List.mem_of_getElem? hi, rfl⟩
  · intro hk
    -- the last position that holds the key is kept
    obtain ⟨j, hj⟩ := List.mem_iff_getElem?.1 hk
    have hjlt : j < (ps.map (·.key)).length := (List.getElem?_eq_some_iff.1 hj).1
    let m := Nat.findGreatest (fun i => (ps.map (·.key))[i]? = some k) (ps.map (·.key)).length
    have hm : (ps.map (·.key))[m]? = some k :=
      Nat.findGreatest_spec (P := fun i => (ps.map (·.key))[i]? = some k) hjlt.le hj
    have hlast : IsLast (ps.map (·.key)) m :=
      ⟨(List.getElem?_eq_some_iff.1 hm).1, fun j' hj'len hj' heq =>
        Nat.findGreatest_is_greatest hj' hj'len.le (heq.trans hm)⟩
    rw [List.getElem?_map] at hm
    obtain ⟨q, hq, rfl⟩ := Option.map_eq_some_iff.1 hm
    exact List.mem_map.2 ⟨q, List.mem_filterMap.2 ⟨m, (his m).2 hlast, hq⟩, rfl⟩

/-- Either duplicate-key policy leaves items with pairwise distinct keys. -/
theorem dedupe_nodup {policy : DuplicateKeyPolicy} {qs : List Projected}
    (h : dedupe policy ps = .ok qs) : (qs.map (·.key)).Nodup := by
  cases policy with
  | reject =>
    obtain ⟨rfl, hnd⟩ := dedupe_reject_eq_ok_iff.1 h
    exact hnd
  | keepLast =>
    obtain ⟨is, hsorted, his, hd⟩ := dedupe_keepLast_eq ps
    rw [hd, Except.ok.injEq] at h
    subst h
    -- a kept position holds a key that no later kept position holds
    have hpair : is.Pairwise fun i j => i < j ∧ IsLast (ps.map (·.key)) i :=
      hsorted.imp_of_mem fun hi _ hij => ⟨hij, (his _).1 hi⟩
    rw [List.map_filterMap]
    refine hpair.filterMap _ fun i j ⟨hij, hlast⟩ a ha b hb heq => ?_
    simp only [Option.map_eq_some_iff] at ha hb
    obtain ⟨p, hp, rfl⟩ := ha
    obtain ⟨q, hq, rfl⟩ := hb
    have hj : j < ps.length := (List.getElem?_eq_some_iff.1 hq).1
    refine hlast.2 j (by simpa using hj) hij ?_
    simp [List.getElem?_map, hp, hq, heq]

end Projected

end Canopy
