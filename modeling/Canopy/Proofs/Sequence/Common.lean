import Canopy.Proofs.Sequence.Longest

/-!
# Positions of common items

`commonKeys A B` lists the items two sequences have in common, in the order of `B`, and
`(commonKeys A B).map A.idxOf` their positions in `A`. For a sequence `A` of distinct items these
positions are read off `B` directly, as `B.filterMap (A.idxOf? ·)` (`map_idxOf_commonKeys`).

When `A` and `B` are sequences of distinct items that agree on a prefix of length `p` and a
suffix of length `s`, the positions are those of the prefix, `0, …, p - 1`, then those of the items
in the middle of `B`, each between `p` and `|A| - s`, then those of the suffix
(`filterMap_idxOf?_split`). A longest increasing run of them is the prefix and the suffix around a
longest increasing run of the middle's positions (`longestLength_commonKeys`).
-/

namespace Canopy.Sequence

variable {α : Type} [DecidableEq α]

/-- The items two sequences have in common, in the order of the second. -/
def commonKeys (A B : List α) : List α :=
  B.filter (· ∈ A)

theorem idxOf?_eq_some_idxOf {A : List α} {k : α} (h : k ∈ A) :
    A.idxOf? k = some (A.idxOf k) := by
  induction A with
  | nil => simp at h
  | cons x xs ih =>
    rw [List.idxOf?_cons, List.idxOf_cons]
    by_cases hx : x = k
    · simp [hx]
    · have hk : k ∈ xs := (List.mem_cons.1 h).resolve_left (Ne.symm hx)
      simp [beq_false_of_ne hx, ih hk]

theorem idxOf?_getElem {A : List α} (hA : A.Nodup) {i : Nat} (hi : i < A.length) :
    A.idxOf? A[i] = some i := by
  rw [idxOf?_eq_some_idxOf (List.getElem_mem hi), hA.idxOf_getElem i hi]

/-- The positions in `A` of the items both sequences have, in the order of `B`. -/
theorem map_idxOf_commonKeys (A B : List α) :
    (commonKeys A B).map A.idxOf = B.filterMap (A.idxOf? ·) := by
  induction B with
  | nil => rfl
  | cons k B ih =>
    simp only [commonKeys] at ih ⊢
    by_cases hk : k ∈ A
    · simp [hk, idxOf?_eq_some_idxOf hk, ih]
    · have hnone : A.idxOf? k = none := List.idxOf?_eq_none_iff.2 hk
      simp [hk, hnone, ih]

/-- Items that stand in `A` from position `c` on are found at their positions there. -/
theorem filterMap_idxOf?_of_getElem? {A : List α} (hA : A.Nodup) :
    ∀ {l : List α} {c : Nat}, (∀ t < l.length, A[c + t]? = l[t]?) →
      l.filterMap (A.idxOf? ·) = List.range' c l.length
  | [], _, _ => rfl
  | k :: l, c, h => by
    obtain ⟨hc, hk⟩ := List.getElem?_eq_some_iff.1 (by simpa using h 0 (by simp))
    rw [List.filterMap_cons_some (hk ▸ idxOf?_getElem hA hc), List.length_cons, List.range'_succ]
    refine congrArg (c :: ·) (filterMap_idxOf?_of_getElem? hA fun t ht => ?_)
    simpa [Nat.add_assoc, Nat.add_comm 1 t] using h (t + 1) (by simp; omega)

section Split

variable {A B : List α} {p s : Nat}

/-- An item of the middle of `B`, between the prefix and the suffix that `B` shares with `A`,
stands in `A` between them too. -/
theorem idxOf?_middle (hB : B.Nodup) (hpre : ∀ t < p, A[t]? = B[t]?)
    (hsuf : ∀ t < s, A[A.length - s + t]? = B[B.length - s + t]?) {j i : Nat} {k : α}
    (hj : p ≤ j) (hj' : j < B.length - s) (hk : B[j]? = some k) (hi : A.idxOf? k = some i) :
    p ≤ i ∧ i < A.length - s := by
  obtain ⟨hiA, hAi, -⟩ := List.idxOf?_eq_some_iff.1 hi
  have hjB : j < B.length := by omega
  -- a position of `A` in the prefix or the suffix holds an item of `B` at another position
  have hne : ∀ j', B[j']? = some k → j' = j := fun j' h' =>
    ((List.getElem?_inj hjB hB).1 (by rw [hk, h'])).symm
  constructor
  · rcases Nat.lt_or_ge i p with h | h
    · have := hne i (by rw [← hpre i h, List.getElem?_eq_getElem hiA, hAi])
      omega
    · exact h
  · rcases Nat.lt_or_ge i (A.length - s) with h | h
    · exact h
    · have := hne (B.length - s + (i - (A.length - s))) (by
        rw [← hsuf _ (by omega), show A.length - s + (i - (A.length - s)) = i by omega,
          List.getElem?_eq_getElem hiA, hAi])
      omega

/-- The positions in `A` of the items of `B` that `A` has: the prefix's, the middle's and the
suffix's. -/
theorem filterMap_idxOf?_split (hA : A.Nodup) (hpB : p + s ≤ B.length)
    (hpre : ∀ t < p, A[t]? = B[t]?)
    (hsuf : ∀ t < s, A[A.length - s + t]? = B[B.length - s + t]?) :
    B.filterMap (A.idxOf? ·) = List.range p ++
      ((B.drop p).take (B.length - s - p)).filterMap (A.idxOf? ·) ++
        List.range' (A.length - s) s := by
  have hprefix : (B.take p).filterMap (A.idxOf? ·) = List.range p := by
    rw [filterMap_idxOf?_of_getElem? hA fun t ht => ?_, List.length_take_of_le (by omega),
      List.range_eq_range']
    rw [Nat.zero_add, List.getElem?_take, if_pos (by simp at ht; omega), hpre t (by simp at ht; omega)]
  have hsuffix : (B.drop (B.length - s)).filterMap (A.idxOf? ·) = List.range' (A.length - s) s := by
    rw [filterMap_idxOf?_of_getElem? hA fun t ht => ?_, List.length_drop, Nat.sub_sub_self (by omega)]
    rw [List.getElem?_drop, hsuf t (by simp at ht; omega)]
  conv_lhs => rw [← List.take_append_drop p B, ← List.take_append_drop (B.length - s - p) (B.drop p),
    List.drop_drop, show p + (B.length - s - p) = B.length - s by omega]
  rw [List.filterMap_append, List.filterMap_append, hprefix, hsuffix, List.append_assoc]

/-- The positions of the middle's items lie between the prefix and the suffix. -/
theorem mem_filterMap_middle (hB : B.Nodup) (hpre : ∀ t < p, A[t]? = B[t]?)
    (hsuf : ∀ t < s, A[A.length - s + t]? = B[B.length - s + t]?) {i : Nat}
    (hi : i ∈ ((B.drop p).take (B.length - s - p)).filterMap (A.idxOf? ·)) :
    p ≤ i ∧ i < A.length - s := by
  obtain ⟨k, hk, hki⟩ := List.mem_filterMap.1 hi
  obtain ⟨o, ho, rfl⟩ := List.getElem_of_mem hk
  simp only [List.length_take, List.length_drop] at ho
  have hk : B[p + o]? = some ((B.drop p).take (B.length - s - p))[o] := by
    rw [← List.getElem?_drop, ← List.getElem?_take_of_lt (by omega : o < B.length - s - p),
      List.getElem?_eq_getElem]
  exact idxOf?_middle hB hpre hsuf (by omega) (by omega) hk hki

end Split

/-- A longest increasing run of positions that are the first `p`, then some between `p` and `q`,
then `s` from `q` on, is the first and last ones around a longest run of the middle ones. -/
theorem longestLength_range_append {mid : List Nat} {p q s : Nat} (hpq : p ≤ q)
    (hmid : ∀ v ∈ mid, p ≤ v ∧ v < q) :
    longestLength (List.range p ++ mid ++ List.range' q s) = p + longestLength mid + s := by
  rw [List.append_assoc, longestLength_append, longestLength_append,
    longestLength_of_pairwise List.pairwise_lt_range, longestLength_of_pairwise List.pairwise_lt_range',
    List.length_range, List.length_range', Nat.add_assoc]
  · intro v hv w hw
    exact Nat.lt_of_lt_of_le (hmid v hv).2 (List.mem_range'_1.1 hw).1
  · intro v hv w hw
    have hv := List.mem_range.1 hv
    rcases List.mem_append.1 hw with hw | hw
    · exact Nat.lt_of_lt_of_le hv (hmid w hw).1
    · exact Nat.lt_of_lt_of_le hv (Nat.le_trans hpq (List.mem_range'_1.1 hw).1)

section Counts

variable {A B : List α} {p s : Nat}

/-- How many items are common: the prefix, the middle's common items and the suffix. -/
theorem length_commonKeys (hA : A.Nodup) (hpB : p + s ≤ B.length)
    (hpre : ∀ t < p, A[t]? = B[t]?)
    (hsuf : ∀ t < s, A[A.length - s + t]? = B[B.length - s + t]?) :
    (commonKeys A B).length =
      p + (((B.drop p).take (B.length - s - p)).filterMap (A.idxOf? ·)).length + s := by
  have hlen := congrArg List.length (map_idxOf_commonKeys A B)
  rw [List.length_map, filterMap_idxOf?_split hA hpB hpre hsuf] at hlen
  simp [hlen]
  omega

/-- A longest increasing run of the positions of the common items: the prefix and the suffix
around a longest increasing run of the middle's positions. -/
theorem longestLength_commonKeys (hA : A.Nodup) (hB : B.Nodup) (hpA : p + s ≤ A.length)
    (hpB : p + s ≤ B.length) (hpre : ∀ t < p, A[t]? = B[t]?)
    (hsuf : ∀ t < s, A[A.length - s + t]? = B[B.length - s + t]?) :
    longestLength ((commonKeys A B).map A.idxOf) =
      p + longestLength (((B.drop p).take (B.length - s - p)).filterMap (A.idxOf? ·)) + s := by
  rw [map_idxOf_commonKeys, filterMap_idxOf?_split hA hpB hpre hsuf]
  exact longestLength_range_append (by omega) fun v hv => mem_filterMap_middle hB hpre hsuf hv

end Counts

/-! ## Counting along a range of positions

A walk over the positions of a range counts those whose entry is present and those off a run.
The entries of an ascending run below a position are a prefix of it, so a cursor that counts them
points at the position exactly when the position is on the run (`cursor_hit_iff`).
-/

theorem countP_range_isSome (s : Array (Option Nat)) (n : Nat) :
    (List.range n).countP (fun o => (valueAt s o).isSome) = (presentValues s n).length := by
  induction n with
  | zero => rfl
  | succ n ih =>
    rw [List.range_succ, List.countP_append, ih, presentValues_succ, List.length_append]
    cases h : valueAt s n <;> simp [h]

/-- Leaving out the positions of a list without repeats, all below `n` and where `p` holds,
leaves that many fewer positions below `n` where `p` holds. -/
theorem countP_range_and_not_mem {p : Nat → Bool} {l : List Nat} {n : Nat} (hl : l.Nodup)
    (hsub : ∀ o ∈ l, o < n ∧ p o = true) :
    (List.range n).countP (fun o => p o ∧ o ∉ l) = (List.range n).countP p - l.length := by
  -- the positions where `p` holds are those of `l` and the others
  have hsplit : ∀ m, (List.range m).countP (fun o => p o ∧ o ∉ l) +
      (List.range m).countP (· ∈ l) = (List.range m).countP p := by
    intro m
    induction m with
    | zero => rfl
    | succ m ih =>
      rw [List.range_succ, List.countP_append, List.countP_append, List.countP_append, ← ih]
      by_cases hm : m ∈ l
      · simp [hm, (hsub m hm).2]
        omega
      · by_cases hp : p m
        · simp [hm, hp]
          omega
        · simp [hm, hp]
  have hmem : (List.range n).countP (· ∈ l) = l.length := by
    rw [List.countP_eq_length_filter]
    refine ((List.perm_ext_iff_of_nodup (List.nodup_range.filter _) hl).2 fun o => ?_).length_eq
    simp only [List.mem_filter, List.mem_range, decide_eq_true_eq]
    exact ⟨fun h => h.2, fun h => ⟨(hsub o h).1, h⟩⟩
  have := hsplit n
  omega

theorem countP_range'_of_lt {q : Nat → Bool} {k n : Nat} (hk : k < n) :
    (List.range' k (n - k)).countP q = (List.range' (k + 1) (n - (k + 1))).countP q +
      if q k then 1 else 0 := by
  rw [show n - k = n - (k + 1) + 1 by omega, List.range'_succ, List.countP_cons]

/-- Counting the entries below `o + 1` adds the occurrences of `o`. -/
theorem countP_lt_succ (l : List Nat) (o : Nat) :
    l.countP (· < o + 1) = l.countP (· < o) + l.count o := by
  induction l with
  | nil => rfl
  | cons x xs ih =>
    rw [List.countP_cons, List.countP_cons, List.count_cons, ih]
    rcases Nat.lt_trichotomy x o with h | rfl | h
    · simp [h, Nat.lt_succ_of_lt h, Nat.ne_of_lt h]
      omega
    · simp
      omega
    · simp [Nat.not_lt.2 h, Nat.not_lt.2 (Nat.le_of_lt h), Nat.ne_of_gt h]

/-- In an ascending list holding `o` at position `k`, the entries below `o + 1` are the first
`k + 1`. -/
theorem countP_lt_succ_of_getElem? {l : List Nat} (hl : l.Pairwise (· < ·)) {k o : Nat}
    (hk : l[k]? = some o) : l.countP (· < o + 1) = k + 1 := by
  induction l generalizing k with
  | nil => simp at hk
  | cons x xs ih =>
    obtain ⟨hx, hxs⟩ := List.pairwise_cons.1 hl
    cases k with
    | zero =>
      obtain rfl : x = o := by simpa using hk
      rw [List.countP_cons, List.countP_eq_zero.2 fun y hy => by simpa using Nat.succ_le_of_lt (hx y hy)]
      simp
    | succ k =>
      have hxo : x < o := hx o (List.mem_of_getElem? hk)
      rw [List.countP_cons, ih hxs hk]
      simp [Nat.lt_succ_of_lt hxo]

/-- A cursor at the number of entries of an ascending run below `o + 1` points at `o` exactly
when `o` is on the run. -/
theorem cursor_hit_iff {l : List Nat} (hl : l.Pairwise (· < ·)) (o : Nat) :
    (decide (l.countP (· < o + 1) > 0) && l[l.countP (· < o + 1) - 1]? == some o) = true ↔
      o ∈ l := by
  constructor
  · intro h
    simp only [Bool.and_eq_true, beq_iff_eq] at h
    exact List.mem_of_getElem? h.2
  · intro ho
    obtain ⟨k, hk⟩ := List.getElem?_of_mem ho
    rw [countP_lt_succ_of_getElem? hl hk]
    simp [hk]

end Canopy.Sequence
