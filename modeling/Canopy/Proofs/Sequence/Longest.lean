import Canopy.Sequence.Increasing
import Mathlib.Data.List.Sublists
import Mathlib.Data.List.TakeWhile

/-!
# Longest increasing runs

`longestLength xs` is the length of a longest strictly increasing subsequence of `xs`, read off
the sublists of `xs`. The patience sort `longestIncreasing` finds one among the present entries
of a sequence of optional values, as a run of positions (`IsRun`).

The sort keeps, after each prefix of the sequence, one pile per run length `t + 1`. Its tail is
the position of the least value that ends a run of that length in the prefix, and every position
records the run it ends through its predecessor. So the tails' values increase, each tail ends a
run of its length read back through the predecessors, and no increasing subsequence of the
prefix is longer than the number of piles or ends below the tail of its length
(`Piles.Sorts`). Once the whole sequence is read, the run read back from the last tail is a
longest one (`longestIncreasing_spec`).
-/

namespace Canopy.Sequence

/-! ## The longest length -/

/-- The length of a longest strictly increasing subsequence. -/
def longestLength (xs : List Nat) : Nat :=
  (((xs.sublists.filter fun s => decide (s.Pairwise (· < ·))).map List.length).max?).getD 0

theorem length_le_longestLength {xs s : List Nat} (hs : s.Sublist xs)
    (hinc : s.Pairwise (· < ·)) : s.length ≤ longestLength xs :=
  List.le_max?_getD_of_mem (List.mem_map.2 ⟨s, List.mem_filter.2
    ⟨List.mem_sublists.2 hs, decide_eq_true hinc⟩, rfl⟩)

/-- Some strictly increasing subsequence is as long as `longestLength`. -/
theorem exists_longestLength (xs : List Nat) :
    ∃ s : List Nat, s.Sublist xs ∧ s.Pairwise (· < ·) ∧ s.length = longestLength xs := by
  -- the empty subsequence makes the list of lengths non-empty
  have hnil : 0 ∈ (xs.sublists.filter fun s => decide (s.Pairwise (· < ·))).map List.length :=
    List.mem_map.2 ⟨[], List.mem_filter.2 ⟨List.mem_sublists.2 (List.nil_sublist xs),
      decide_eq_true List.Pairwise.nil⟩, rfl⟩
  obtain ⟨n, hn⟩ := Option.isSome_iff_exists.1 (List.isSome_max?_of_mem hnil)
  obtain ⟨s, hs, hlen⟩ := List.mem_map.1 (List.max?_mem hn)
  obtain ⟨hsub, hinc⟩ := List.mem_filter.1 hs
  exact ⟨s, List.mem_sublists.1 hsub, of_decide_eq_true hinc, by simp [longestLength, hn, hlen]⟩

/-- A length attained by a strictly increasing subsequence and bounding all of them is the
longest length. -/
theorem longestLength_eq {xs : List Nat} {n : Nat}
    (hex : ∃ s : List Nat, s.Sublist xs ∧ s.Pairwise (· < ·) ∧ s.length = n)
    (hle : ∀ s : List Nat, s.Sublist xs → s.Pairwise (· < ·) → s.length ≤ n) : longestLength xs = n := by
  obtain ⟨s, hs, hinc, rfl⟩ := hex
  obtain ⟨s', hs', hinc', hlen'⟩ := exists_longestLength xs
  exact Nat.le_antisymm (hlen' ▸ hle s' hs' hinc') (length_le_longestLength hs hinc)

theorem longestLength_of_pairwise {xs : List Nat} (h : xs.Pairwise (· < ·)) :
    longestLength xs = xs.length :=
  longestLength_eq ⟨xs, List.Sublist.refl xs, h, rfl⟩ fun _ hs _ => hs.length_le

/-- When every value of `xs` is below every value of `ys`, a longest increasing subsequence of
`xs ++ ys` is one of `xs` followed by one of `ys`. -/
theorem longestLength_append {xs ys : List Nat} (hlt : ∀ x ∈ xs, ∀ y ∈ ys, x < y) :
    longestLength (xs ++ ys) = longestLength xs + longestLength ys := by
  apply longestLength_eq
  · obtain ⟨s, hs, hinc, hlen⟩ := exists_longestLength xs
    obtain ⟨s', hs', hinc', hlen'⟩ := exists_longestLength ys
    refine ⟨s ++ s', hs.append hs', List.pairwise_append.2 ⟨hinc, hinc', ?_⟩, by simp [hlen, hlen']⟩
    exact fun x hx y hy => hlt x (hs.subset hx) y (hs'.subset hy)
  · intro s hs hinc
    obtain ⟨s₁, s₂, rfl, h₁, h₂⟩ := List.sublist_append_iff.1 hs
    obtain ⟨hinc₁, hinc₂, -⟩ := List.pairwise_append.1 hinc
    rw [List.length_append]
    exact Nat.add_le_add (length_le_longestLength h₁ hinc₁) (length_le_longestLength h₂ hinc₂)

/-! ## Runs of positions -/

/-- The present values among the first `k` entries, in order. -/
def presentValues (sources : Array (Option Nat)) (k : Nat) : List Nat :=
  (sources.toList.take k).filterMap id

theorem presentValues_succ (sources : Array (Option Nat)) (k : Nat) :
    presentValues sources (k + 1) = presentValues sources k ++ (valueAt sources k).toList := by
  simp only [presentValues, List.take_add_one, List.filterMap_append, valueAt,
    Array.getElem?_toList]
  cases sources[k]? with
  | none => rfl
  | some o => cases o <;> rfl

theorem presentValues_size (sources : Array (Option Nat)) :
    presentValues sources sources.size = sources.toList.filterMap id := by
  rw [presentValues, ← Array.length_toList, List.take_length]

/-- A run of a sequence of optional values: ascending positions whose values are present and
strictly increase; `values` lists the values. -/
structure IsRun (sources : Array (Option Nat)) (run values : List Nat) : Prop where
  ascending : run.Pairwise (· < ·)
  values_eq : run.map (valueAt sources) = values.map some
  increasing : values.Pairwise (· < ·)

namespace IsRun

variable {sources : Array (Option Nat)}

theorem single {i v : Nat} (hv : valueAt sources i = some v) : IsRun sources [i] [v] :=
  ⟨List.pairwise_singleton _ _, by simp [hv], List.pairwise_singleton _ _⟩

/-- A run extends by a later position whose value is above all of the run's. -/
theorem snoc {run values : List Nat} (h : IsRun sources run values) {i v : Nat}
    (hi : ∀ j ∈ run, j < i) (hv : valueAt sources i = some v) (hlt : ∀ w ∈ values, w < v) :
    IsRun sources (run ++ [i]) (values ++ [v]) where
  ascending := List.pairwise_append.2 ⟨h.ascending, List.pairwise_singleton _ _,
    fun j hj _ hk => (List.mem_singleton.1 hk) ▸ hi j hj⟩
  values_eq := by simp [h.values_eq, hv]
  increasing := List.pairwise_append.2 ⟨h.increasing, List.pairwise_singleton _ _,
    fun w hw _ hk => (List.mem_singleton.1 hk) ▸ hlt w hw⟩

theorem present {run values : List Nat} (h : IsRun sources run values) {i : Nat} (hi : i ∈ run) :
    ∃ v, valueAt sources i = some v := by
  have hmem : valueAt sources i ∈ values.map some := h.values_eq ▸ List.mem_map_of_mem hi
  obtain ⟨v, _, hv⟩ := List.mem_map.1 hmem
  exact ⟨v, hv.symm⟩

theorem length_eq {run values : List Nat} (h : IsRun sources run values) :
    run.length = values.length := by
  simpa using congrArg List.length h.values_eq

/-- The value at the last position of a run is its greatest. -/
theorem le_last {run values : List Nat} {i v : Nat} (h : IsRun sources (run ++ [i]) values)
    (hv : valueAt sources i = some v) : ∀ w ∈ values, w ≤ v := by
  obtain ⟨vs, w, rfl⟩ : ∃ vs w, values = vs ++ [w] := by
    rcases List.eq_nil_or_concat values with hnil | ⟨vs, w, hvw⟩
    · have := h.length_eq
      simp [hnil] at this
    · exact ⟨vs, w, by simpa using hvw⟩
  have hw : some w = some v := by
    have := congrArg List.getLast? h.values_eq
    simpa [hv] using this.symm
  cases Option.some_inj.1 hw
  intro u hu
  rcases List.mem_append.1 hu with hu | hu
  · exact Nat.le_of_lt ((List.pairwise_append.1 h.increasing).2.2 u hu _ (List.mem_singleton_self _))
  · exact Nat.le_of_eq (List.mem_singleton.1 hu)

end IsRun

/-! ## Reading a run back -/

/-- `Chain previous i run`: following the recorded predecessors back from position `i` reads
`run`, which ends at `i`. -/
inductive Chain (previous : Array (Option Nat)) : Nat → List Nat → Prop
  | last {i : Nat} : (previous[i]?).bind id = none → Chain previous i [i]
  | step {i j : Nat} {run : List Nat} : (previous[i]?).bind id = some j →
      Chain previous j run → Chain previous i (run ++ [i])

theorem readBack_none (previous : Array (Option Nat)) (fuel : Nat) (acc : List Nat) :
    readBack previous fuel none acc = acc := by
  cases fuel <;> rfl

/-- With enough fuel, reading back from the end of a chain gives the chain. -/
theorem Chain.readBack {previous : Array (Option Nat)} {i : Nat} {run : List Nat}
    (h : Chain previous i run) :
    ∀ {fuel : Nat} {acc : List Nat}, run.length ≤ fuel →
      readBack previous fuel (some i) acc = run ++ acc := by
  induction h with
  | last hnone =>
    intro fuel acc hfuel
    obtain ⟨fuel, rfl⟩ := Nat.exists_eq_add_of_le' hfuel
    simp only [List.length_singleton, Canopy.Sequence.readBack, hnone, readBack_none,
      List.singleton_append]
  | step hprev _ ih =>
    intro fuel acc hfuel
    obtain ⟨fuel, rfl⟩ : ∃ f, fuel = f + 1 := Nat.exists_eq_add_of_le' (by simp at hfuel; omega)
    simp only [Canopy.Sequence.readBack, hprev]
    rw [ih (by simp at hfuel; omega)]
    simp

/-- A chain reads the predecessors of its own positions only. -/
theorem Chain.congr {previous previous' : Array (Option Nat)} {i : Nat} {run : List Nat}
    (h : Chain previous i run) (heq : ∀ j ∈ run, previous'[j]? = previous[j]?) :
    Chain previous' i run := by
  induction h with
  | last hnone => exact .last (by rw [heq _ (List.mem_singleton_self _), hnone])
  | step hprev _ ih =>
    refine .step (by rw [heq _ (by simp), hprev]) (ih fun j hj => heq j (by simp [hj]))

theorem Chain.eq_concat {previous : Array (Option Nat)} {i : Nat} {run : List Nat}
    (h : Chain previous i run) : ∃ r, run = r ++ [i] := by
  cases h with
  | last => exact ⟨[], rfl⟩
  | step => exact ⟨_, rfl⟩

/-! ## The piles -/

section TakeWhile

variable {α : Type} {p : α → Bool} {l : List α}

theorem takeWhile_getElem? {t : Nat} {x : α} (ht : t < (l.takeWhile p).length)
    (hx : l[t]? = some x) : p x = true := by
  rw [← List.takeWhile_append_dropWhile (p := p) (l := l), List.getElem?_append_left ht] at hx
  exact List.mem_takeWhile_imp (List.mem_of_getElem? hx)

theorem takeWhile_stop {x : α} (hx : l[(l.takeWhile p).length]? = some x) : p x = false := by
  nth_rewrite 1 [← List.takeWhile_append_dropWhile (p := p) (l := l)] at hx
  rw [List.getElem?_append_right le_rfl, Nat.sub_self] at hx
  have hne : l.dropWhile p ≠ [] := fun h => by simp [h] at hx
  have hhead : (l.dropWhile p).head hne = x := by
    rw [List.head_eq_getElem]
    exact Option.some_inj.1 ((List.getElem?_eq_getElem _).symm.trans hx)
  exact hhead ▸ List.head_dropWhile_not p hne

end TakeWhile

/-- What the piles know once the positions below `k` are placed: predecessors are recorded
only below `k`; each tail ends a run of its length whose values form a subsequence of the
present values; the tails' values increase; and no increasing subsequence of the present
values is longer than the number of piles or ends below the tail of its length. -/
structure Piles.Sorts (sources : Array (Option Nat)) (k : Nat) (p : Piles) : Prop where
  previous_size : p.previous.size = sources.size
  unrecorded : ∀ j : Nat, k ≤ j → (p.previous[j]?).bind id = none
  chain : ∀ t i : Nat, p.tails[t]? = some i → ∃ run values, Chain p.previous i run ∧
    IsRun sources run values ∧ run.length = t + 1 ∧ (∀ j ∈ run, j < k) ∧
    values.Sublist (presentValues sources k)
  sorted : ∀ t t' i i' v v' : Nat, t < t' → p.tails[t]? = some i → p.tails[t']? = some i' →
    valueAt sources i = some v → valueAt sources i' = some v' → v < v'
  optimal : ∀ (s : List Nat) (x : Nat), (s ++ [x]).Sublist (presentValues sources k) → (s ++ [x]).Pairwise (· < ·) →
    s.length < p.tails.size ∧
      ∀ i v : Nat, p.tails[s.length]? = some i → valueAt sources i = some v → v ≤ x

namespace Piles.Sorts

variable {sources : Array (Option Nat)}

theorem start (sources : Array (Option Nat)) :
    Piles.Sorts sources 0 ⟨#[], Array.replicate sources.size none⟩ where
  previous_size := Array.size_replicate
  unrecorded := by
    intro j _
    simp only [Array.getElem?_replicate]
    split <;> rfl
  chain := by simp
  sorted := by simp
  optimal := by
    intro s x hs _
    simp [presentValues] at hs

theorem tail_present {k : Nat} {p : Piles} (h : Piles.Sorts sources k p) {t i : Nat}
    (ht : p.tails[t]? = some i) : ∃ v, valueAt sources i = some v := by
  obtain ⟨run, values, hchain, hrun, -, -, -⟩ := h.chain t i ht
  have hlast : i ∈ run := by
    cases hchain with
    | last => simp
    | step => simp
  exact hrun.present hlast

/-- A position without a value changes nothing. -/
theorem place_none {k : Nat} {p : Piles} (h : Piles.Sorts sources k p)
    (hk : valueAt sources k = none) : Piles.Sorts sources (k + 1) (p.place sources k) := by
  have hpv : presentValues sources (k + 1) = presentValues sources k := by
    simp [presentValues_succ, hk]
  simp only [Piles.place, hk]
  refine ⟨h.previous_size, fun j hj => h.unrecorded j (by omega), ?_, h.sorted, hpv ▸ h.optimal⟩
  intro t i ht
  obtain ⟨run, values, hchain, hrun, hlen, hlt, hsub⟩ := h.chain t i ht
  exact ⟨run, values, hchain, hrun, hlen, fun j hj => Nat.lt_succ_of_lt (hlt j hj), hpv ▸ hsub⟩

/-- Placing a position with value `v`: it goes after every tail whose value is below `v`. -/
theorem place_eq {k v : Nat} (p : Piles) (hk : valueAt sources k = some v) :
    ∃ below : Nat → Bool, (∀ t w, valueAt sources t = some w → (below t = true ↔ w < v)) ∧
      p.place sources k =
        ⟨if (p.tails.toList.takeWhile below).length = p.tails.size then p.tails.push k
          else p.tails.setIfInBounds (p.tails.toList.takeWhile below).length k,
         if (p.tails.toList.takeWhile below).length = 0 then p.previous
          else p.previous.setIfInBounds k p.tails[(p.tails.toList.takeWhile below).length - 1]?⟩ := by
  simp only [Piles.place, hk]
  refine ⟨_, ?_, rfl⟩
  intro t w hw
  simp [hw]

/-- Where a position with value `v` goes: after every tail below `v`, at the first tail that
is not, which it replaces or, past the last pile, starts a new one; its predecessor is the tail
before it. -/
theorem place_spec {k v : Nat} {p : Piles} (h : Piles.Sorts sources k p)
    (hk : valueAt sources k = some v) :
    ∃ len, len ≤ p.tails.size ∧
      (∀ t i w, t < len → p.tails[t]? = some i → valueAt sources i = some w → w < v) ∧
      (∀ i w, p.tails[len]? = some i → valueAt sources i = some w → v ≤ w) ∧
      (∀ t, (p.place sources k).tails[t]? = if t = len then some k else p.tails[t]?) ∧
      (p.place sources k).tails.size = max p.tails.size (len + 1) ∧
      (∀ j, j ≠ k → (p.place sources k).previous[j]? = p.previous[j]?) ∧
      ((p.place sources k).previous[k]?).bind id = (if len = 0 then none else p.tails[len - 1]?) ∧
      (p.place sources k).previous.size = p.previous.size := by
  have hks : k < p.previous.size := by
    rw [h.previous_size]
    by_contra hge
    simp [valueAt, Array.getElem?_eq_none (Nat.le_of_not_lt hge)] at hk
  obtain ⟨below, hbelow, heq⟩ := place_eq p hk
  rw [heq]
  have hle : (p.tails.toList.takeWhile below).length ≤ p.tails.size := by
    simpa using (List.takeWhile_prefix below (l := p.tails.toList)).length_le
  refine ⟨(p.tails.toList.takeWhile below).length, hle, ?_, ?_, ?_, ?_, ?_, ?_, ?_⟩
  · intro t i w ht hi hw
    exact (hbelow i w hw).1 (takeWhile_getElem? ht (by rwa [Array.getElem?_toList]))
  · intro i w hi hw
    have hb := takeWhile_stop (p := below) (l := p.tails.toList) (by rwa [Array.getElem?_toList])
    exact Nat.le_of_not_lt fun hlt => by simp [(hbelow i w hw).2 hlt] at hb
  · intro t
    dsimp only
    split
    · rename_i hlen
      rw [Array.getElem?_push, hlen]
    · rename_i hlen
      have hlt : (p.tails.toList.takeWhile below).length < p.tails.size := by omega
      rw [Array.getElem?_setIfInBounds]
      by_cases ht : t = (p.tails.toList.takeWhile below).length
      · subst ht
        simp [hlt]
      · rw [if_neg (Ne.symm ht), if_neg ht]
  · dsimp only
    split <;> simp <;> omega
  · intro j hj
    dsimp only
    split
    · rfl
    · exact Array.getElem?_setIfInBounds_ne (Ne.symm hj)
  · dsimp only
    split
    · exact h.unrecorded k le_rfl
    · simp [Array.getElem?_setIfInBounds_self_of_lt hks]
  · dsimp only
    split <;> simp

/-- Placing a position with a value keeps what the piles know. -/
theorem place_some {k v : Nat} {p : Piles} (h : Piles.Sorts sources k p)
    (hk : valueAt sources k = some v) : Piles.Sorts sources (k + 1) (p.place sources k) := by
  obtain ⟨len, hle, hbelow, habove, htails, hsize, hprev, hprevk, hpsize⟩ := h.place_spec hk
  have hpv : presentValues sources (k + 1) = presentValues sources k ++ [v] := by
    simp [presentValues_succ, hk]
  -- the runs read back so far read no predecessor at `k`
  have hframe : ∀ {i : Nat} {run : List Nat}, Chain p.previous i run → (∀ j ∈ run, j < k) →
      Chain (p.place sources k).previous i run := fun hc hlt =>
    hc.congr fun j hj => hprev j (Nat.ne_of_lt (hlt j hj))
  have htail : ∀ t, t < p.tails.size → ∃ i w, p.tails[t]? = some i ∧ valueAt sources i = some w :=
    fun t ht => by
      obtain ⟨w, hw⟩ := h.tail_present (Array.getElem?_eq_getElem ht)
      exact ⟨_, w, Array.getElem?_eq_getElem ht, hw⟩
  have hsome : ∀ {t i : Nat}, p.tails[t]? = some i → t < p.tails.size := fun hi =>
    (Array.getElem?_eq_some_iff.1 hi).1
  refine ⟨hpsize.trans h.previous_size, ?_, ?_, ?_, ?_⟩
  · intro j hj
    rw [hprev j (by omega)]
    exact h.unrecorded j (by omega)
  · intro t i ht
    rw [htails] at ht
    split at ht
    · -- the new tail `k` extends the run of the tail before it
      rename_i htl
      subst htl
      cases ht
      by_cases h0 : t = 0
      · subst h0
        refine ⟨[k], [v], .last (by simpa using hprevk), IsRun.single hk, rfl, by simp, ?_⟩
        rw [hpv]
        exact List.sublist_append_right _ _
      · obtain ⟨i₀, w₀, hi₀, hw₀⟩ := htail (t - 1) (by omega)
        obtain ⟨run, values, hc, hrun, hlen, hlt, hsub⟩ := h.chain (t - 1) i₀ hi₀
        obtain ⟨r, rfl⟩ := hc.eq_concat
        have hw₀v : w₀ < v := hbelow (t - 1) i₀ w₀ (by omega) hi₀ hw₀
        refine ⟨r ++ [i₀] ++ [k], values ++ [v], .step (by simpa [h0, hi₀] using hprevk)
            (hframe hc hlt), hrun.snoc hlt hk fun w hw => ?_, by simp at hlen ⊢; omega, ?_, ?_⟩
        · exact Nat.lt_of_le_of_lt (hrun.le_last hw₀ w hw) hw₀v
        · intro j hj
          rcases List.mem_append.1 hj with hj | hj
          · exact Nat.lt_succ_of_lt (hlt j hj)
          · rw [List.mem_singleton.1 hj]
            exact Nat.lt_succ_self k
        · rw [hpv]
          exact hsub.append (List.Sublist.refl _)
    · obtain ⟨run, values, hc, hrun, hlen, hlt, hsub⟩ := h.chain t i ht
      exact ⟨run, values, hframe hc hlt, hrun, hlen, fun j hj => Nat.lt_succ_of_lt (hlt j hj),
        hpv ▸ hsub.trans (List.sublist_append_left _ _)⟩
  · intro t t' i i' w w' htt hi hi' hw hw'
    rw [htails] at hi hi'
    split at hi <;> split at hi'
    · omega
    · -- `k` went to `len`; the tail past it was not below `v` already
      rename_i htl htl'
      cases hi
      rw [hk] at hw
      cases hw
      obtain ⟨il, wl, hil, hwl⟩ := htail t (by have := hsome hi'; omega)
      exact Nat.lt_of_le_of_lt (habove il wl (htl ▸ hil) hwl) (h.sorted t t' il i' wl w' htt hil hi' hwl hw')
    · rename_i htl htl'
      cases hi'
      rw [hk] at hw'
      cases hw'
      exact hbelow t i w (by omega) hi hw
    · exact h.sorted t t' i i' w w' htt hi hi' hw hw'
  · intro s x hs hinc
    rw [hpv] at hs
    obtain ⟨l₁, l₂, heq, h₁, h₂⟩ := List.sublist_append_iff.1 hs
    rcases List.sublist_singleton.1 h₂ with rfl | rfl
    · -- the subsequence avoids `k`
      rw [List.append_nil] at heq
      subst heq
      obtain ⟨hlt, hval⟩ := h.optimal s x h₁ hinc
      refine ⟨by omega, fun i w hi hw => ?_⟩
      rw [htails] at hi
      split at hi
      · rename_i hsl
        cases hi
        rw [hk] at hw
        cases hw
        obtain ⟨il, wl, hil, hwl⟩ := htail s.length hlt
        exact Nat.le_trans (habove il wl (hsl ▸ hil) hwl) (hval il wl hil hwl)
      · exact hval i w hi hw
    · -- the subsequence ends at `k`, after values below `v`
      obtain ⟨hsl, hx⟩ := List.append_inj' heq rfl
      have hxv : x = v := List.singleton_inj.1 hx
      rw [← hsl] at h₁
      have hlts : ∀ y ∈ s, y < v := fun y hy =>
        hxv ▸ (List.pairwise_append.1 hinc).2.2 y hy x (List.mem_singleton_self x)
      have hslen : s.length ≤ len := by
        rcases List.eq_nil_or_concat s with hnil | ⟨s₀, y, hcat⟩
        · simp [hnil]
        · rw [List.concat_eq_append] at hcat
          subst hcat
          obtain ⟨hlt₀, hval₀⟩ := h.optimal s₀ y h₁ (List.pairwise_append.1 hinc).1
          have hy : y < v := hlts y (by simp)
          by_contra hgt
          obtain ⟨il, wl, hil, hwl⟩ := htail len (by simp at hgt; omega)
          obtain ⟨i₀, w₀, hi₀, hw₀⟩ := htail s₀.length hlt₀
          have hvl := habove il wl hil hwl
          have hw₀y := hval₀ i₀ w₀ hi₀ hw₀
          rcases Nat.lt_or_ge len s₀.length with hlen | hlen
          · have := h.sorted len s₀.length il i₀ wl w₀ hlen hil hi₀ hwl hw₀
            omega
          · have hl : len = s₀.length := by simp at hgt; omega
            rw [hl, hi₀] at hil
            cases hil
            rw [hwl] at hw₀
            cases hw₀
            omega
      refine ⟨by omega, fun i w hi hw => ?_⟩
      rw [htails] at hi
      split at hi
      · cases hi
        rw [hk] at hw
        cases hw
        exact Nat.le_of_eq hxv.symm
      · exact hxv ▸ Nat.le_of_lt (hbelow s.length i w (by omega) hi hw)

/-- After every position is placed, the piles know about the whole sequence. -/
theorem all (sources : Array (Option Nat)) :
    ∀ n, Piles.Sorts sources n ((List.range n).foldl (Piles.place sources)
      ⟨#[], Array.replicate sources.size none⟩)
  | 0 => start sources
  | n + 1 => by
    rw [List.range_succ, List.foldl_append, List.foldl_cons, List.foldl_nil]
    have ih := all sources n
    cases hk : valueAt sources n with
    | none => exact ih.place_none hk
    | some v => exact ih.place_some hk

end Piles.Sorts

/-- The patience sort finds a longest run: its positions ascend and hold values, and those
values strictly increase, form a subsequence of the present values and are as many as a longest
increasing one. -/
theorem longestIncreasing_run (sources : Array (Option Nat)) :
    ∃ values, IsRun sources (longestIncreasing sources) values ∧
      values.Sublist (sources.toList.filterMap id) ∧
      (longestIncreasing sources).length = longestLength (sources.toList.filterMap id) := by
  have hS := Piles.Sorts.all sources sources.size
  unfold longestIncreasing
  generalize (List.range sources.size).foldl (Piles.place sources)
    ⟨#[], Array.replicate sources.size none⟩ = piles at hS ⊢
  dsimp only
  -- no increasing subsequence is longer than the number of piles
  have hbound : ∀ s : List Nat, s.Sublist (sources.toList.filterMap id) →
      s.Pairwise (· < ·) → s.length ≤ piles.tails.size := by
    intro s hs hinc
    rcases List.eq_nil_or_concat s with rfl | ⟨s₀, x, rfl⟩
    · exact Nat.zero_le _
    · rw [List.concat_eq_append] at hs hinc ⊢
      have := (hS.optimal s₀ x (by rwa [presentValues_size]) hinc).1
      simp only [List.length_append, List.length_singleton]
      omega
  rcases hsize : piles.tails.size with _ | n
  · -- no piles: nothing is present
    rw [Array.back?_eq_getElem?, Array.getElem?_eq_none (by omega), readBack_none]
    refine ⟨[], ⟨List.Pairwise.nil, rfl, List.Pairwise.nil⟩, List.nil_sublist _, ?_⟩
    exact (longestLength_eq ⟨[], List.nil_sublist _, List.Pairwise.nil, rfl⟩
      fun s hs hinc => by simpa [hsize] using hbound s hs hinc).symm
  · obtain ⟨i, hi⟩ : ∃ i, piles.tails[n]? = some i :=
      ⟨_, Array.getElem?_eq_getElem (by omega)⟩
    obtain ⟨run, values, hc, hrun, hlen, hlt, hsub⟩ := hS.chain n i hi
    rw [presentValues_size] at hsub
    have hfuel : run.length ≤ sources.size := by
      have hnodup : run.Nodup := hrun.ascending.nodup
      simpa using hnodup.length_le_of_subset fun j hj => List.mem_range.2 (hlt j hj)
    rw [Array.back?_eq_getElem?, hsize, Nat.add_sub_cancel, hi, hc.readBack hfuel,
      List.append_nil]
    refine ⟨values, hrun, hsub, ?_⟩
    rw [hlen]
    refine (longestLength_eq ⟨values, hsub, hrun.increasing, ?_⟩
      fun s hs hinc => by simpa [hsize] using hbound s hs hinc).symm
    rw [← hrun.length_eq, hlen]

/-- The patience sort finds a longest run: its positions ascend and hold values, and those
values strictly increase and are as many as a longest increasing subsequence of the present
values. -/
theorem longestIncreasing_spec (sources : Array (Option Nat)) :
    ∃ values, IsRun sources (longestIncreasing sources) values ∧
      (longestIncreasing sources).length = longestLength (sources.toList.filterMap id) := by
  obtain ⟨values, hrun, -, hlen⟩ := longestIncreasing_run sources
  exact ⟨values, hrun, hlen⟩

/-- `longestIncreasing` returns a longest strictly increasing subsequence: ascending positions
whose values are present and strictly increase, taken in order from the present values, and no
strictly increasing subsequence of the present values is longer. With no value present it is
empty. -/
theorem longestIncreasing_longest (sources : Array (Option Nat)) :
    ∃ values, IsRun sources (longestIncreasing sources) values ∧
      values.Sublist (sources.toList.filterMap id) ∧
      ∀ s : List Nat, s.Sublist (sources.toList.filterMap id) → s.Pairwise (· < ·) →
        s.length ≤ (longestIncreasing sources).length := by
  obtain ⟨values, hrun, hsub, hlen⟩ := longestIncreasing_run sources
  refine ⟨values, hrun, hsub, fun s hs hinc => ?_⟩
  rw [hlen]
  exact length_le_longestLength hs hinc

example : longestIncreasing #[some 2, none, some 0, some 1, none, some 3] = [2, 3, 5] := by
  decide

end Canopy.Sequence
