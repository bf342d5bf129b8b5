import Mathlib
import Canopy.Proofs.Render.Growth
import Canopy.Proofs.Render.Rerender

/-!
# Flushing the update queue

A flush runs rounds while updates are queued. A round drains the queue, applying its entries in
order, the ones queued while it runs included, and then runs the callbacks the drain deferred,
which may queue more. The drain's fuel and the number of rounds keep the flush a total function.

Each step of a drain (`DrainStep`) takes the front entry off the queue and applies it. A drain
follows its steps one by one, spending a unit of fuel on each (`drainFor_add_of_steps`), so a
flush round is the relation `Round` between the renderers before and after it
(`flushRound_ok_iff`), and the flush is bounded by its configured number of rounds
(`flush_rounds_bounded`): when its rounds complete, it succeeds exactly when at most that many
rounds empty the queue, and fails with an update loop exactly when the queue is still not empty
after all of them.

An entry whose updater fails stops the flush at once (`flush_updater_failure`): every instance
keeps its state, no update pass runs, and the entries queued after it stay, in their order.
-/

namespace Canopy

namespace UpdateQueue

theorem pop?_eq_none_iff {q : UpdateQueue} : q.pop? = none ↔ q.isEmpty = true := by
  rcases q with ⟨_ | ⟨u, front⟩, back⟩
  · cases h : back.reverse <;> simp_all [pop?, isEmpty]
  · simp [pop?, isEmpty]

theorem isEmpty_eq_false_of_pop? {q : UpdateQueue} {x : QueuedUpdate × UpdateQueue}
    (h : q.pop? = some x) : q.isEmpty = false := by
  cases hq : q.isEmpty
  · rfl
  · rw [pop?_eq_none_iff.2 hq] at h
    cases h

theorem length_of_pop? {q rest : UpdateQueue} {u : QueuedUpdate} (h : q.pop? = some (u, rest)) :
    q.length = rest.length + 1 := by
  rcases q with ⟨_ | ⟨u', front⟩, back⟩
  · cases hb : back.reverse <;> simp only [pop?, hb, reduceCtorEq, Option.some.injEq,
      Prod.mk.injEq] at h
    obtain ⟨rfl, rfl⟩ := h
    have := congrArg List.length hb
    simp_all [length]
  · simp only [pop?, Option.some.injEq, Prod.mk.injEq] at h
    obtain ⟨rfl, rfl⟩ := h
    simp [length]
    omega

theorem toList_of_pop? {q rest : UpdateQueue} {u : QueuedUpdate} (h : q.pop? = some (u, rest)) :
    q.toList = u :: rest.toList := by
  rcases q with ⟨_ | ⟨u', front⟩, back⟩
  · cases hb : back.reverse <;> simp only [pop?, hb, reduceCtorEq, Option.some.injEq,
      Prod.mk.injEq] at h
    obtain ⟨rfl, rfl⟩ := h
    simp [toList, hb]
  · simp only [pop?, Option.some.injEq, Prod.mk.injEq] at h
    obtain ⟨rfl, rfl⟩ := h
    simp [toList]

theorem length_eq_zero_of_isEmpty {q : UpdateQueue} (h : q.isEmpty = true) : q.length = 0 := by
  simp_all [isEmpty, length]

end UpdateQueue

namespace Pass

/-! ## Draining the queue -/

/-- One queued update taken from the front of the queue and applied. -/
def DrainStep (s t : Renderer) : Prop :=
  ∃ u rest, s.effects.queue.pop? = some (u, rest) ∧
    (applyUpdate u).run { s with effects := { s.effects with queue := rest } } = .ok () t

/-- `DrainSteps n s t`: `n` drain steps, one after another, lead from `s` to `t`. -/
inductive DrainSteps : Nat → Renderer → Renderer → Prop
  | refl (s : Renderer) : DrainSteps 0 s s
  | head {n : Nat} {s m t : Renderer} : DrainStep s m → DrainSteps n m t → DrainSteps (n + 1) s t

/-- A drain from `s` that applies queued updates one by one, no more of them than were queued
at its start and `drainLimit` more, and ends at `t` with nothing queued. -/
def Drains (s t : Renderer) : Prop :=
  ∃ n ≤ s.effects.queue.length + drainLimit, DrainSteps n s t ∧ t.effects.queue.isEmpty = true

theorem drainFor_succ_of_step {s t : Renderer} (h : DrainStep s t) (n : Nat) :
    (drainFor (n + 1)).run s = (drainFor n).run t := by
  obtain ⟨u, rest, hpop, happly⟩ := h
  simp only [drainFor, EStateM.run_bind, EStateM.run_get, hpop, EStateM.run_modify]
  rw [happly]

theorem drainFor_succ_of_error {s t : Renderer} {u : QueuedUpdate} {rest : UpdateQueue}
    {e : RenderError} (hpop : s.effects.queue.pop? = some (u, rest))
    (h : (applyUpdate u).run { s with effects := { s.effects with queue := rest } } = .error e t)
    (n : Nat) : (drainFor (n + 1)).run s = .error e t := by
  simp only [drainFor, EStateM.run_bind, EStateM.run_get, hpop, EStateM.run_modify]
  rw [h]

theorem drainFor_of_isEmpty {s : Renderer} (h : s.effects.queue.isEmpty = true) :
    ∀ n, (drainFor n).run s = .ok () s
  | 0 => rfl
  | n + 1 => by
    simp only [drainFor, EStateM.run_bind, EStateM.run_get, UpdateQueue.pop?_eq_none_iff.2 h]
    rfl

theorem drainFor_add_of_steps {n : Nat} {s d : Renderer} (h : DrainSteps n s d) (m : Nat) :
    (drainFor (n + m)).run s = (drainFor m).run d := by
  induction h with
  | refl => rw [Nat.zero_add]
  | head hstep _ ih => rw [Nat.add_right_comm, drainFor_succ_of_step hstep, ih]

/-- A drain that succeeds has applied entries one by one, no more than its fuel, and has stopped
at an empty queue or with its fuel spent. -/
theorem drainFor_ok_steps : ∀ (fuel : Nat) {s t : Renderer}, (drainFor fuel).run s = .ok () t →
    ∃ n ≤ fuel, DrainSteps n s t ∧ (t.effects.queue.isEmpty = true ∨ n = fuel)
  | 0, s, t, h => by
    cases h
    exact ⟨0, le_rfl, .refl s, .inr rfl⟩
  | fuel + 1, s, t, h => by
    simp only [drainFor, EStateM.run_bind, EStateM.run_get] at h
    split at h
    · rename_i hnone
      cases h
      exact ⟨0, Nat.zero_le _, .refl s, .inl (UpdateQueue.pop?_eq_none_iff.1 hnone)⟩
    · rename_i u rest hpop
      simp only [EStateM.run_bind, EStateM.run_modify] at h
      split at h
      · obtain ⟨n, hn, hsteps, ht⟩ := drainFor_ok_steps fuel h
        exact ⟨n + 1, by omega, .head ⟨u, rest, hpop, ‹_›⟩ hsteps, ht.imp id fun h => by omega⟩
      · cases h

theorem drain_ok_iff {s t : Renderer} (j : Nat) : (drain j).run s = .ok () t ↔ Drains s t := by
  constructor
  · intro h
    obtain ⟨r₁, s₁, h₁, h₂⟩ := RenderM.run_bind_ok h
    obtain ⟨rfl, rfl⟩ := run_get_ok h₁
    obtain ⟨u, d₀, hd, h₃⟩ := RenderM.run_bind_ok h₂
    obtain ⟨r₂, d, h₄, h₅⟩ := RenderM.run_bind_ok h₃
    obtain ⟨rfl, rfl⟩ := run_get_ok h₄
    cases hd' : d.effects.queue.isEmpty
    · simp [hd'] at h₅
    · simp only [hd', Bool.not_true, Bool.false_eq_true, if_false] at h₅
      obtain ⟨-, rfl⟩ := RenderM.run_pure_ok h₅
      obtain ⟨n, hn, hsteps, -⟩ := drainFor_ok_steps _ hd
      exact ⟨n, hn, hsteps, hd'⟩
  · rintro ⟨n, hn, hsteps, hempty⟩
    have hrun : (drainFor (s.effects.queue.length + drainLimit)).run s = .ok () t := by
      obtain ⟨m, hm⟩ := Nat.exists_eq_add_of_le hn
      rw [hm, drainFor_add_of_steps hsteps]
      exact drainFor_of_isEmpty hempty _
    unfold drain
    rw [RenderM.run_bind_of_ok (EStateM.run_get s), RenderM.run_bind_of_ok hrun,
      RenderM.run_bind_of_ok (EStateM.run_get t)]
    simp [hempty]

/-- A drain that reaches, within its fuel, an entry whose application fails stops there, with
that failure. -/
theorem drain_error {n : Nat} {s d t : Renderer} {u : QueuedUpdate} {rest : UpdateQueue}
    {e : RenderError} (hd : DrainSteps n s d) (hn : n < s.effects.queue.length + drainLimit)
    (hpop : d.effects.queue.pop? = some (u, rest))
    (h : (applyUpdate u).run { d with effects := { d.effects with queue := rest } } = .error e t)
    (j : Nat) : (drain j).run s = .error e t := by
  have hrun : (drainFor (s.effects.queue.length + drainLimit)).run s = .error e t := by
    obtain ⟨m, hm⟩ := Nat.exists_eq_add_of_lt hn
    rw [hm, Nat.add_assoc, drainFor_add_of_steps hd]
    exact drainFor_succ_of_error hpop h _
  unfold drain
  rw [RenderM.run_bind_of_ok (EStateM.run_get s), RenderM.run_bind_of_error hrun]

/-! ## Flush rounds -/

/-- A flush round from `s` to `t`: the callbacks deferred before it are dropped, the queue is
drained, and the callbacks the drain deferred run. -/
def Round (s t : Renderer) : Prop :=
  ∃ d, Drains { s with deferred := [] } d ∧ runDeferred.run d = .ok () t

theorem flushRound_ok_iff {s t : Renderer} (j : Nat) :
    (flushRound j).run s = .ok () t ↔ Round s t := by
  constructor
  · intro h
    obtain ⟨u₁, s₁, h₁, h₂⟩ := RenderM.run_bind_ok h
    cases h₁
    obtain ⟨u₂, d, h₃, h₄⟩ := RenderM.run_bind_ok h₂
    exact ⟨d, (drain_ok_iff (s := { s with deferred := [] }) j).1 h₃, h₄⟩
  · rintro ⟨d, hd, hrun⟩
    unfold flushRound
    rw [RenderM.run_bind_of_ok (EStateM.run_modify _ s),
      RenderM.run_bind_of_ok ((drain_ok_iff (s := { s with deferred := [] }) j).2 hd)]
    exact hrun

theorem flushRound_error {n : Nat} {s d t : Renderer} {u : QueuedUpdate} {rest : UpdateQueue}
    {e : RenderError} (hd : DrainSteps n { s with deferred := [] } d)
    (hn : n < s.effects.queue.length + drainLimit) (hpop : d.effects.queue.pop? = some (u, rest))
    (h : (applyUpdate u).run { d with effects := { d.effects with queue := rest } } = .error e t)
    (j : Nat) : (flushRound j).run s = .error e t := by
  unfold flushRound
  rw [RenderM.run_bind_of_ok (EStateM.run_modify _ s),
    RenderM.run_bind_of_error (drain_error (s := { s with deferred := [] }) hd hn hpop h j)]

theorem Round.unique {s t t' : Renderer} (h : Round s t) (h' : Round s t') : t' = t := by
  have hrun := (flushRound_ok_iff 0).2 h
  rw [(flushRound_ok_iff 0).2 h'] at hrun
  cases hrun
  rfl

/-- `Rounds k s t`: `k` flush rounds, each begun with updates queued, lead from `s` to `t`. -/
inductive Rounds : Nat → Renderer → Renderer → Prop
  | zero (s : Renderer) : Rounds 0 s s
  | succ {k : Nat} {s m t : Renderer} : s.effects.queue.isEmpty = false → Round s m →
      Rounds k m t → Rounds (k + 1) s t

namespace Rounds

variable {k : Nat} {s t : Renderer}

theorem zero_iff : Rounds 0 s t ↔ t = s := by
  constructor
  · intro h
    cases h
    rfl
  · rintro rfl
    exact .zero t

theorem succ_iff : Rounds (k + 1) s t ↔
    s.effects.queue.isEmpty = false ∧ ∃ m, Round s m ∧ Rounds k m t := by
  constructor
  · intro h
    cases h with
    | succ hs hm hr => exact ⟨hs, _, hm, hr⟩
  · rintro ⟨hs, m, hm, hr⟩
    exact .succ hs hm hr

end Rounds

theorem flushRounds_zero_run (done : Nat) (s : Renderer) :
    (flushRounds 0 done).run s =
      if s.effects.queue.isEmpty then .ok () s else .error (.updateLoop done) s := by
  rw [flushRounds, RenderM.run_bind_of_ok (EStateM.run_get s)]
  cases s.effects.queue.isEmpty <;> rfl

theorem flushRounds_succ_of_isEmpty {s : Renderer} (hs : s.effects.queue.isEmpty = true)
    (left done : Nat) : (flushRounds (left + 1) done).run s = .ok () s := by
  rw [flushRounds, RenderM.run_bind_of_ok (EStateM.run_get s)]
  simp only [hs, if_true]
  rfl

theorem flushRounds_succ_of_ok {s m : Renderer} {u : Unit} (hs : s.effects.queue.isEmpty = false)
    {left done : Nat} (h : (flushRound (done + 1)).run s = .ok u m) :
    (flushRounds (left + 1) done).run s = (flushRounds left (done + 1)).run m := by
  rw [flushRounds, RenderM.run_bind_of_ok (EStateM.run_get s)]
  simp only [hs, Bool.false_eq_true, if_false]
  rw [RenderM.run_bind_of_ok h]

theorem flushRounds_succ_of_error {s t : Renderer} {e : RenderError}
    (hs : s.effects.queue.isEmpty = false) {left done : Nat}
    (h : (flushRound (done + 1)).run s = .error e t) :
    (flushRounds (left + 1) done).run s = .error e t := by
  rw [flushRounds, RenderM.run_bind_of_ok (EStateM.run_get s)]
  simp only [hs, Bool.false_eq_true, if_false]
  rw [RenderM.run_bind_of_error h]

/-- The flush rounds that are left succeed exactly when at most that many rounds empty the
queue. -/
theorem flushRounds_ok_iff : ∀ (left done : Nat) {s t : Renderer},
    ((flushRounds left done).run s = .ok () t ↔
      ∃ k ≤ left, Rounds k s t ∧ t.effects.queue.isEmpty = true)
  | 0, done, s, t => by
    rw [flushRounds_zero_run]
    -- with no round left, the run ends where it starts: it succeeds when the queue is empty
    constructor
    · intro h
      cases hs : s.effects.queue.isEmpty <;> simp only [hs, if_true, Bool.false_eq_true,
        if_false, reduceCtorEq, EStateM.Result.ok.injEq, true_and] at h
      subst h
      exact ⟨0, le_rfl, .zero s, hs⟩
    · rintro ⟨k, hk, hr, ht⟩
      obtain rfl : k = 0 := Nat.le_zero.1 hk
      obtain rfl := Rounds.zero_iff.1 hr
      simp [ht]
  | left + 1, done, s, t => by
    cases hs : s.effects.queue.isEmpty
    · constructor
      · intro h
        cases hm : (flushRound (done + 1)).run s with
        | error e m =>
          rw [flushRounds_succ_of_error hs hm] at h
          cases h
        | ok u m =>
          rw [flushRounds_succ_of_ok hs hm] at h
          have hround := (flushRound_ok_iff _).1 hm
          obtain ⟨k, hk, hr, ht⟩ := (flushRounds_ok_iff left (done + 1)).1 h
          exact ⟨k + 1, by omega, .succ hs hround hr, ht⟩
      · rintro ⟨k, hk, hr, ht⟩
        cases k with
        | zero =>
          obtain rfl := Rounds.zero_iff.1 hr
          simp_all
        | succ k =>
          obtain ⟨-, m, hm, hr'⟩ := Rounds.succ_iff.1 hr
          rw [flushRounds_succ_of_ok hs ((flushRound_ok_iff _).2 hm)]
          exact (flushRounds_ok_iff left (done + 1)).2 ⟨k, by omega, hr', ht⟩
    · rw [flushRounds_succ_of_isEmpty hs]
      constructor
      · intro h
        cases h
        exact ⟨0, by omega, .zero s, hs⟩
      · rintro ⟨k, hk, hr, ht⟩
        cases k with
        | zero =>
          obtain rfl := Rounds.zero_iff.1 hr
          rfl
        | succ k =>
          obtain ⟨hne, -⟩ := Rounds.succ_iff.1 hr
          simp_all

/-- When every round the flush can reach within the rounds left completes,
the flush rounds fail exactly with an update loop numbered by the rounds run, after as many
rounds as were left, with updates still queued. -/
theorem flushRounds_error_iff : ∀ (left done : Nat) {s t : Renderer} {e : RenderError},
    (∀ k s', Rounds k s s' → k < left → s'.effects.queue.isEmpty = false →
      ∃ t', Round s' t') →
    ((flushRounds left done).run s = .error e t ↔
      e = .updateLoop (done + left) ∧ Rounds left s t ∧ t.effects.queue.isEmpty = false)
  | 0, done, s, t, e, _ => by
    rw [flushRounds_zero_run, Rounds.zero_iff]
    cases hs : s.effects.queue.isEmpty
    · simp only [Bool.false_eq_true, if_false, EStateM.Result.error.injEq, Nat.add_zero]
      constructor
      · rintro ⟨rfl, rfl⟩
        exact ⟨rfl, rfl, hs⟩
      · rintro ⟨rfl, rfl, -⟩
        exact ⟨rfl, rfl⟩
    · simp only [if_true, reduceCtorEq, false_iff]
      rintro ⟨-, rfl, ht⟩
      simp_all
  | left + 1, done, s, t, e, hok => by
    cases hs : s.effects.queue.isEmpty
    · -- the first round completes, and the rest is the same question one round later
      obtain ⟨m, hm⟩ := hok 0 s (.zero s) (by omega) hs
      have hok' : ∀ k s', Rounds k m s' → k < left → s'.effects.queue.isEmpty = false →
          ∃ t', Round s' t' :=
        fun k s' hr hk hne => hok (k + 1) s' (.succ hs hm hr) (by omega) hne
      have hn : done + 1 + left = done + (left + 1) := by omega
      rw [flushRounds_succ_of_ok hs ((flushRound_ok_iff _).2 hm),
        flushRounds_error_iff left (done + 1) hok', Rounds.succ_iff, hn]
      constructor
      · rintro ⟨rfl, hr, ht⟩
        exact ⟨rfl, ⟨hs, m, hm, hr⟩, ht⟩
      · rintro ⟨rfl, ⟨-, m', hm', hr⟩, ht⟩
        obtain rfl := hm.unique hm'
        exact ⟨rfl, hr, ht⟩
    · rw [flushRounds_succ_of_isEmpty hs]
      simp only [reduceCtorEq, false_iff]
      rintro ⟨-, hr, -⟩
      simp_all [Rounds.succ_iff]

/-- A flush runs the flush rounds its configuration allows. -/
theorem flush_run (r : Renderer) : flush.run r = (flushRounds r.config.maxFlushRounds 0).run r := by
  unfold flush
  rw [RenderM.run_bind_of_ok (EStateM.run_get r)]

/-- Flushing is bounded by the configured number of rounds. When every flush round the flush
reaches within that many rounds completes, each round draining the queue to empty within its
fuel before its deferred callbacks run: the flush
succeeds exactly when at most that many rounds leave the queue empty, and fails exactly with an
update loop naming that number of rounds when the queue is still not empty after all of them
(with no rounds allowed, exactly when something is queued). -/
theorem flush_rounds_bounded {r : Renderer}
    (hok : ∀ k s, Rounds k r s → k < r.config.maxFlushRounds →
      s.effects.queue.isEmpty = false → ∃ t, Round s t) :
    (∀ s, flush.run r = .ok () s ↔
      ∃ k ≤ r.config.maxFlushRounds, Rounds k r s ∧ s.effects.queue.isEmpty = true) ∧
    (∀ e s, flush.run r = .error e s ↔ e = .updateLoop r.config.maxFlushRounds ∧
      Rounds r.config.maxFlushRounds r s ∧ s.effects.queue.isEmpty = false) := by
  refine ⟨fun s => ?_, fun e s => ?_⟩
  · rw [flush_run]
    exact flushRounds_ok_iff _ 0
  · rw [flush_run, flushRounds_error_iff _ 0 hok, Nat.zero_add]

/-- Two updates queued for instances that were never registered. -/
def strayUpdates : Renderer :=
  { effects := { queue := ⟨[⟨⟨1⟩, .patch (.obj []), none⟩], [⟨⟨2⟩, .patch (.obj []), none⟩]⟩ } }

theorem flush_rounds_bounded_stray :
    (∀ s, flush.run strayUpdates = .ok () s ↔
      ∃ k ≤ (64 : Nat), Rounds k strayUpdates s ∧ s.effects.queue.isEmpty = true) ∧
    (∀ e s, flush.run strayUpdates = .error e s ↔
      e = .updateLoop 64 ∧ Rounds 64 strayUpdates s ∧ s.effects.queue.isEmpty = false) := by
  -- the first round pops both entries, applies neither, and leaves the queue empty
  have hok : RenderM.succeeded ((flushRound 0).run strayUpdates) = true := by decide +kernel
  obtain ⟨⟨⟩, hround⟩ := RenderM.eq_ok_of_succeeded hok
  have hempty :
      (RenderM.finalRenderer ((flushRound 0).run strayUpdates)).effects.queue.isEmpty = true := by
    decide +kernel
  have hR := (flushRound_ok_iff 0).1 hround
  refine flush_rounds_bounded fun k s hr _ hne => ?_
  cases hr with
  | zero => exact ⟨_, hR⟩
  | succ _ hm hr' =>
    obtain rfl := Round.unique hR hm
    cases hr' with
    | zero => rw [hempty] at hne; cases hne
    | succ hne' _ _ => rw [hempty] at hne'; cases hne'

end Pass

/-! ## A failing state updater -/

/-- The instance a queued update targets is mounted in a root: it is registered under a
container whose root holds its node, and marked mounted. Applying an update to such an instance
resolves its partial state, running its updater if it has one. -/
def Renderer.Updatable (r : Renderer) (id : InstanceId) (inst : Instance) : Prop :=
  r.instance? id = some inst ∧ inst.mounted = true ∧
    ∃ c f path node, r.registry.lookup id = some c ∧ r.fiber? c = some f ∧
      f.node.findComponent id = some path ∧ f.node.get? path = some node

/-- The frame an updater of an instance runs in: the instance's props and state, and no
owner. -/
def Instance.updaterFrame (inst : Instance) : Frame :=
  { props := inst.props, state := some inst.state }

namespace Pass

theorem applyUpdate_updater_error {s : Renderer} {u : QueuedUpdate} {inst : Instance}
    {sc : Script} {e : ScriptError} (ha : s.Updatable u.target inst)
    (hu : u.update = .updater sc) (he : Script.outcome s.procs inst.updaterFrame sc = .error e) :
    (applyUpdate u).run s = .error (.callback .stateUpdater e)
      { s with effects := s.effects.extend (Script.logged s.procs inst.updaterFrame sc) [] } := by
  obtain ⟨hi, hm, c, f, path, node, hc, hf, hp, hn⟩ := ha
  unfold Instance.updaterFrame at he ⊢
  unfold applyUpdate
  rw [RenderM.run_bind_of_ok (EStateM.run_get s)]
  simp only [hc, hi, hm, hf, hp, hn, hu, Bool.not_true, Bool.false_eq_true, if_false]
  rw [RenderM.run_bind_of_ok (RenderM.script_run _ sc s), he,
    Script.queued_eq_nil_of_owner sc rfl]
  exact RenderM.run_bind_of_error rfl

/-- The flush rounds run any rounds that complete one after another: after `k` of them the same
flush goes on from where they lead, with `k` rounds fewer left. -/
theorem flushRounds_of_rounds {k : Nat} {s t : Renderer} (hr : Rounds k s t) :
    ∀ left done, k ≤ left →
      (flushRounds left done).run s = (flushRounds (left - k) (done + k)).run t := by
  induction hr with
  | zero =>
    intro left done _
    rfl
  | @succ k s m t hs hm _ ih =>
    intro left done hk
    obtain ⟨left, rfl⟩ : ∃ l, left = l + 1 := ⟨left - 1, by omega⟩
    rw [flushRounds_succ_of_ok hs ((flushRound_ok_iff _).2 hm), ih left (done + 1) (by omega),
      show left + 1 - (k + 1) = left - k by omega, show done + (k + 1) = done + 1 + k by omega]

/-- A failing state updater stops the flush and leaves its instance as it was. When the flush
reaches, within its allowed rounds and within its drain's fuel, an entry for a mounted instance
whose updater fails, the flush fails with that error as a state updater's, in the renderer it
had just before taking the entry, save that the entry is gone from the front of the queue and the
updater's log entries are added: every instance keeps its state, no update pass has run for the
entry, and the entries queued after it stay, in their order. -/
theorem flush_updater_failure {r s d : Renderer} {k n : Nat} {u : QueuedUpdate}
    {rest : UpdateQueue} {inst : Instance} {sc : Script} {e : ScriptError}
    (hk : k < r.config.maxFlushRounds) (hr : Rounds k r s)
    (hd : DrainSteps n { s with deferred := [] } d) (hn : n < s.effects.queue.length + drainLimit)
    (hpop : d.effects.queue.pop? = some (u, rest)) (ha : d.Updatable u.target inst)
    (hu : u.update = .updater sc) (he : Script.outcome d.procs inst.updaterFrame sc = .error e) :
    flush.run r = .error (.callback .stateUpdater e)
      { d with effects := (Effects.extend { d.effects with queue := rest }
          (Script.logged d.procs inst.updaterFrame sc) []) } ∧
    d.effects.queue.toList = u :: rest.toList := by
  refine ⟨?_, UpdateQueue.toList_of_pop? hpop⟩
  -- a round begins, since an entry is queued when its drain starts
  have hs : s.effects.queue.isEmpty = false := by
    cases hd with
    | refl => exact UpdateQueue.isEmpty_eq_false_of_pop? hpop
    | head hstep _ =>
      obtain ⟨u', rest', hpop', -⟩ := hstep
      exact UpdateQueue.isEmpty_eq_false_of_pop? hpop'
  have hround := flushRound_error hd hn hpop
    (applyUpdate_updater_error (s := { d with effects := { d.effects with queue := rest } })
      ha hu he)
    (k + 1)
  obtain ⟨left, hleft⟩ : ∃ l, r.config.maxFlushRounds - k = l + 1 :=
    ⟨_, (Nat.succ_pred_eq_of_pos (by omega)).symm⟩
  rw [flush_run, flushRounds_of_rounds hr _ 0 hk.le, hleft, Nat.zero_add]
  exact flushRounds_succ_of_error hs hround

/-- An entry of instance 1 whose updater is not a well-formed expression. -/
def badUpdater : QueuedUpdate := ⟨⟨1⟩, .updater ⟨.arr []⟩, none⟩

/-- An entry of instance 1 that sets its state to `{"n": 1}`. -/
def laterPatch : QueuedUpdate := ⟨⟨1⟩, .patch (.obj [("n", .int 1)]), none⟩

/-- A renderer with one root, whose slot 0 holds the node of instance 1, and two queued updates
of that instance: `badUpdater`, then `laterPatch`. -/
def updaterFailureSample : Renderer :=
  { fibers := [⟨0, 0, .null,
      .mk [0] (.mk [] 1) [] #[.component ⟨1⟩ (.mk [0, 0, 0] (.mk [] 0) [] #[])], {}⟩],
    instances := #[{ id := ⟨1⟩, props := .null, state := .null }],
    registry := [(⟨1⟩, 0)],
    effects := { queue := ⟨[badUpdater, laterPatch], []⟩ } }

theorem flush_updater_failure_sample :
    flush.run updaterFailureSample = .error (.callback .stateUpdater .badExpression)
      { updaterFailureSample with
        deferred := [],
        effects := (Effects.extend { updaterFailureSample.effects with queue := ⟨[laterPatch], []⟩ }
          (Script.logged [] { props := .null, state := some .null } ⟨.arr []⟩) []) } ∧
    updaterFailureSample.effects.queue.toList =
      badUpdater :: UpdateQueue.toList ⟨[laterPatch], []⟩ := by
  have he : Script.outcome [] { props := .null, state := some .null } ⟨.arr []⟩ =
      .error .badExpression := by
    unfold Script.outcome Script.run
    rw [Script.eval.eq_def]
    rfl
  exact @flush_updater_failure updaterFailureSample updaterFailureSample
    { updaterFailureSample with deferred := [] } 0 0 badUpdater ⟨[laterPatch], []⟩
    ⟨⟨1⟩, .null, .null, true⟩ ⟨.arr []⟩ .badExpression (by decide) (.zero _) (.refl _)
    (by decide) rfl ⟨rfl, rfl, 0, updaterFailureSample.fibers[0], [.component 0],
      .mk [0, 0, 0] (.mk [] 0) [] #[], rfl, rfl, rfl, rfl⟩ rfl he

end Pass

end Canopy
