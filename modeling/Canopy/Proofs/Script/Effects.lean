import Mathlib
import Canopy.Script.Eval

/-!
# Scripts only add to their effects

A script never reads the log or the update queue it runs with, and never takes anything off
them: run from any effects, it has the same outcome and appends the same logged values and the
same queued updates. A state update checks for the frame's owner before anything else and is
queued for it, and every operand is evaluated in a frame of the same owner, so the updates a
script queues are all for its frame's owner. `AppendsFor` says both of a computation, and the
forms of the evaluator keep it (`appendsFor_step`, one case per form), so every script has it
(`run_eq`, `queued_target`). What a script gives is then a function of its procedures, frame and
body alone (`outcome`, `logged`, `queued`), and a script run outside any component instance,
as a state updater or a factory is, queues nothing (`queued_eq_nil_of_owner`).
-/

namespace Canopy

namespace UpdateQueue

@[simp] theorem toList_push (q : UpdateQueue) (u : QueuedUpdate) :
    (q.push u).toList = q.toList ++ [u] := by
  simp [push, toList]

theorem toList_foldl_push (q : UpdateQueue) (us : List QueuedUpdate) :
    (us.foldl push q).toList = q.toList ++ us := by
  induction us generalizing q <;> simp_all

end UpdateQueue

namespace Effects

/-- Effects with values logged and updates queued after the ones they hold. -/
def extend (fx : Effects) (log : List Value) (us : List QueuedUpdate) : Effects :=
  { log := fx.log ++ log.toArray, queue := us.foldl UpdateQueue.push fx.queue }

@[simp] theorem extend_nil (fx : Effects) : fx.extend [] [] = fx := by
  simp [extend]

theorem extend_extend (fx : Effects) (l₁ l₂ : List Value) (u₁ u₂ : List QueuedUpdate) :
    (fx.extend l₁ u₁).extend l₂ u₂ = fx.extend (l₁ ++ l₂) (u₁ ++ u₂) := by
  simp [extend, List.foldl_append, Array.append_assoc]

@[simp] theorem queue_extend (fx : Effects) (log : List Value) (us : List QueuedUpdate) :
    (fx.extend log us).queue.toList = fx.queue.toList ++ us :=
  UpdateQueue.toList_foldl_push _ _

end Effects

namespace Script

/-- The result of a run with an outcome, ending with some effects. -/
def settle {α : Type} : Except ScriptError α → Effects → EStateM.Result ScriptError Effects α
  | .ok a, fx => .ok a fx
  | .error e, fx => .error e fx

/-- A computation that reads nothing of the effects it starts from, only adds to them, and
queues updates only for `owner`: whatever the effects, it has one outcome and logs and queues
the same, after what was there. -/
def AppendsFor {α : Type} (owner : Option InstanceId) (x : ScriptM α) : Prop :=
  ∃ out : Except ScriptError α, ∃ log us, (∀ u ∈ us, owner = some u.target) ∧
    ∀ fx, x.run fx = settle out (fx.extend log us)

/-- A computation that reads nothing of the effects it starts from and only adds to them:
whatever the effects, it has one outcome and logs and queues the same, after what was there. -/
def Appends {α : Type} (x : ScriptM α) : Prop :=
  ∃ out : Except ScriptError α, ∃ log us, ∀ fx, x.run fx = settle out (fx.extend log us)

namespace AppendsFor

variable {α β γ : Type} {o : Option InstanceId}

theorem appends {x : ScriptM α} (h : AppendsFor o x) : Appends x := by
  obtain ⟨out, log, us, -, hrun⟩ := h
  exact ⟨out, log, us, hrun⟩

theorem pure (a : α) : AppendsFor o (Pure.pure a : ScriptM α) :=
  ⟨.ok a, [], [], by simp, fun fx => by simp [settle]⟩

theorem throw (e : ScriptError) : AppendsFor o (MonadExcept.throw e : ScriptM α) :=
  ⟨.error e, [], [], by simp, fun _ => rfl⟩

theorem bind {x : ScriptM α} {f : α → ScriptM β} (hx : AppendsFor o x)
    (hf : ∀ a, AppendsFor o (f a)) : AppendsFor o (x >>= f) := by
  obtain ⟨out, log, us, hus, hrun⟩ := hx
  cases out with
  | error e => exact ⟨.error e, log, us, hus, fun fx => by rw [EStateM.run_bind, hrun]; rfl⟩
  | ok a =>
    -- what `f a` adds comes after what `x` added
    obtain ⟨out', log', us', hus', hrun'⟩ := hf a
    refine ⟨out', log ++ log', us ++ us', ?_, fun fx => ?_⟩
    · intro u hu
      rcases List.mem_append.1 hu with hu | hu
      · exact hus u hu
      · exact hus' u hu
    rw [EStateM.run_bind, hrun]
    simp only [settle]
    rw [hrun', Effects.extend_extend]
    cases out' <;> rfl

theorem ite {c : Prop} [Decidable c] {x y : ScriptM α} (hx : AppendsFor o x)
    (hy : AppendsFor o y) : AppendsFor o (if c then x else y) := by
  split
  · exact hx
  · exact hy

theorem forIn {xs : List γ} {f : γ → β → ScriptM (ForInStep β)}
    (hf : ∀ y c, AppendsFor o (f y c)) : ∀ init, AppendsFor o (ForIn.forIn xs init f) := by
  induction xs with
  | nil => exact fun init => pure init
  | cons y ys ih =>
    intro init
    rw [List.forIn_cons]
    refine bind (hf y init) fun step => ?_
    cases step with
    | done c => exact pure c
    | yield c => exact ih c

theorem log (v : Value) :
    AppendsFor o (modify fun fx : Effects => { fx with log := fx.log.push v }) :=
  ⟨.ok (), [v], [], by simp, fun fx => by simp [settle, Effects.extend]⟩

theorem enqueue {id : InstanceId} (h : o = some id) (u : StateUpdate) (cb : Option Script) :
    AppendsFor o (Script.enqueue id u cb) :=
  ⟨.ok (), [], [⟨id, u, cb⟩], by simpa using h,
    fun fx => by simp [settle, Effects.extend, Script.enqueue]⟩

/-- A state update checks for its frame's owner first, so whatever it queues is for that owner. -/
theorem owner_bind {head : String} {frame : Frame} {f : InstanceId → ScriptM β}
    (hf : ∀ id, frame.owner = some id → AppendsFor frame.owner (f id)) :
    AppendsFor frame.owner (Script.owner head frame >>= f) := by
  unfold Script.owner
  cases h : frame.owner with
  | none => exact ⟨.error _, [], [], by simp, fun _ => rfl⟩
  | some id =>
    -- the check hands the owner on, and the rest queues for it
    obtain ⟨out, log, us, hus, hrun⟩ := hf id h
    exact ⟨out, log, us, by rwa [h] at hus, fun fx => hrun fx⟩

end AppendsFor

theorem appendsFor_operand {o : Option InstanceId} (head : String) (args : List Value) (i : Nat) :
    AppendsFor o (operand head args i) := by
  unfold operand
  split
  · exact .pure _
  · exact .throw _

theorem appendsFor_integer {o : Option InstanceId} (head : String) (v : Value) :
    AppendsFor o (integer head v) := by
  unfold integer
  split
  · exact .pure _
  · exact .throw _

theorem appendsFor_literalName {o : Option InstanceId} (head : String) (args : List Value) :
    AppendsFor o (literalName head args) := by
  unfold literalName
  split
  · exact .pure _
  · exact .throw _

theorem AppendsFor.evalOperand {α : Type} {procs : Procedures} {frame : Frame} {depth : Nat}
    (ih : ∀ frame e, AppendsFor frame.owner (eval procs frame (depth + 1) e)) {head : String}
    {args : List Value} {i : Nat} {k : Value → ScriptM α}
    (hk : ∀ v, AppendsFor frame.owner (k v)) :
    AppendsFor frame.owner (operand head args i >>= fun e => eval procs frame (depth + 1) e >>= k) :=
  .bind (appendsFor_operand _ _ _) fun _ => .bind (ih _ _) hk

/-- One level of evaluation: when every evaluation one level deeper only appends and queues for
its frame's owner, so does every form at this level, since each is made of evaluations of its
operands in frames of the same owner, reads of the frame, a logged value and updates queued for
the owner. -/
theorem appendsFor_step {procs : Procedures} {depth : Nat}
    (ih : ∀ frame e, AppendsFor frame.owner (eval procs frame (depth + 1) e)) (frame : Frame)
    (e : Value) : AppendsFor frame.owner (eval procs frame depth e) := by
  rw [eval.eq_def]
  dsimp only
  split
  · exact .throw _
  split
  · exact .throw _
  · split
    · exact .pure _
    split
    · exact .bind (appendsFor_literalName _ _) fun _ => .pure _
    · exact .pure _
    · exact .evalOperand ih fun _ => .pure _
    · exact .evalOperand ih fun _ => .evalOperand ih fun _ => .pure _
    · exact .evalOperand ih fun _ => .evalOperand ih fun _ => .pure _
    · exact .evalOperand ih fun _ => .pure _
    · refine .bind (.forIn (fun _ _ => .bind (ih _ _) fun _ => .ite (.pure _) (.pure _)) _) ?_
      rintro ⟨_ | _, _⟩ <;> exact .pure _
    · refine .bind (.forIn (fun _ _ => .bind (ih _ _) fun _ => .ite (.pure _) (.pure _)) _) ?_
      rintro ⟨_ | _, _⟩ <;> exact .pure _
    · exact .evalOperand ih fun _ =>
        .ite (.bind (appendsFor_operand _ _ _) fun _ => ih _ _)
          (.bind (appendsFor_operand _ _ _) fun _ => ih _ _)
    · exact .evalOperand ih fun _ => .bind (appendsFor_integer _ _) fun _ =>
        .evalOperand ih fun _ => .bind (appendsFor_integer _ _) fun _ =>
          .ite (.pure _) (.ite (.pure _) (.throw _))
    · exact .evalOperand ih fun _ => .bind (appendsFor_integer _ _) fun _ =>
        .evalOperand ih fun _ => .bind (appendsFor_integer _ _) fun _ =>
          .ite (.pure _) (.ite (.pure _) (.throw _))
    · exact .evalOperand ih fun _ => .bind (appendsFor_integer _ _) fun _ =>
        .evalOperand ih fun _ => .bind (appendsFor_integer _ _) fun _ =>
          .ite (.pure _) (.ite (.pure _) (.throw _))
    · exact .bind (.forIn (fun _ _ => .bind (ih _ _) fun _ => .pure _) _) fun _ => .pure _
    · exact .bind (.forIn (fun _ _ => .bind (ih _ _) fun _ => .pure _) _) fun _ => .pure _
    · refine .bind (.forIn (fun _ _ => ?_) _) fun _ => .pure _
      split
      · split
        · exact .bind (ih _ _) fun _ => .pure _
        · exact .throw _
      · exact .pure _
    · refine .evalOperand ih fun _ => ?_
      split
      · exact .pure _
      · exact .pure _
      · exact .pure _
      · exact .throw _
    · exact .evalOperand ih fun _ => .bind (appendsFor_integer _ _) fun _ =>
        .evalOperand ih fun _ => .bind (appendsFor_integer _ _) fun _ => .ite (.throw _) (.pure _)
    · refine .evalOperand ih fun _ => ?_
      split
      · exact .bind (.forIn (fun (x : Value × Nat) _ =>
          .bind (ih { frame with item := some x.1, index := some x.2 } _) fun _ => .pure _) _)
          fun _ => .pure _
      · exact .throw _
    · exact .evalOperand ih fun _ => .throw _
    · exact .evalOperand ih fun _ => .bind (.log _) fun _ => .pure _
    · exact .bind (.forIn (fun _ _ => .bind (ih _ _) fun _ => .pure _) _) fun _ => .pure _
    · refine .bind (appendsFor_literalName _ _) fun _ => ?_
      split
      · exact ih _ _
      · exact .throw _
    · exact .owner_bind fun _ hid =>
        .evalOperand ih fun _ => .bind (.enqueue hid _ _) fun _ => .pure _
    · exact .owner_bind fun _ hid => .bind (.enqueue hid _ _) fun _ => .pure _
    · exact .throw _
  · exact .throw _
  · exact .pure _

/-- Evaluation at any depth only appends and queues for its frame's owner: below the depth
limit it fails at once, and above it each level rests on the next. -/
theorem appendsFor_eval (procs : Procedures) :
    ∀ n depth, depthLimit < depth + n → ∀ frame e,
      AppendsFor frame.owner (eval procs frame depth e)
  | 0, depth, h, frame, e => by
    rw [eval.eq_def, dif_pos (Nat.add_zero depth ▸ h)]
    exact .throw _
  | n + 1, depth, h, frame, e =>
    appendsFor_step (appendsFor_eval procs n (depth + 1) (by omega)) frame e

theorem appendsFor_run (procs : Procedures) (frame : Frame) (s : Script) :
    AppendsFor frame.owner (run procs frame s) :=
  appendsFor_eval procs (depthLimit + 1) 0 (by omega) frame s.body

theorem appends_run (procs : Procedures) (frame : Frame) (s : Script) :
    Appends (run procs frame s) :=
  (appendsFor_run procs frame s).appends

/-- The outcome of a script in a frame. -/
def outcome (procs : Procedures) (frame : Frame) (s : Script) : Except ScriptError Value :=
  match (run procs frame s).run {} with
  | .ok v _ => .ok v
  | .error e _ => .error e

/-- The effects a script leaves when it starts from none. -/
def emitted (procs : Procedures) (frame : Frame) (s : Script) : Effects :=
  match (run procs frame s).run {} with
  | .ok _ fx => fx
  | .error _ fx => fx

/-- The values a script logs, in order. -/
def logged (procs : Procedures) (frame : Frame) (s : Script) : List Value :=
  (emitted procs frame s).log.toList

/-- The updates a script queues, in order. -/
def queued (procs : Procedures) (frame : Frame) (s : Script) : List QueuedUpdate :=
  (emitted procs frame s).queue.toList

theorem emitted_eq {procs : Procedures} {frame : Frame} {s : Script}
    {out : Except ScriptError Value} {log : List Value} {us : List QueuedUpdate}
    (hrun : ∀ fx, (run procs frame s).run fx = settle out (fx.extend log us)) :
    emitted procs frame s = ({} : Effects).extend log us := by
  unfold emitted
  rw [hrun {}]
  cases out <;> rfl

/-- A script run from any effects has its outcome and appends what it logs and queues. -/
theorem run_eq (procs : Procedures) (frame : Frame) (s : Script) (fx : Effects) :
    (run procs frame s).run fx =
      settle (outcome procs frame s) (fx.extend (logged procs frame s) (queued procs frame s)) := by
  obtain ⟨out, log, us, hrun⟩ := appends_run procs frame s
  have hout : outcome procs frame s = out := by
    unfold outcome
    rw [hrun {}]
    cases out <;> rfl
  have hlog : logged procs frame s = log := by
    simp [logged, emitted_eq hrun, Effects.extend]
  have hqueued : queued procs frame s = us := by
    simp only [queued, emitted_eq hrun, Effects.queue_extend]
    rfl
  rw [hrun, hout, hlog, hqueued]

theorem queued_target (procs : Procedures) (frame : Frame) (s : Script) :
    ∀ u ∈ queued procs frame s, frame.owner = some u.target := by
  obtain ⟨out, log, us, hus, hrun⟩ := appendsFor_run procs frame s
  have hqueued : queued procs frame s = us := by
    simp only [queued, emitted_eq hrun, Effects.queue_extend]
    rfl
  rw [hqueued]
  exact hus

/-- A script run outside any component instance queues nothing: a state update there fails
before it is queued. -/
theorem queued_eq_nil_of_owner {procs : Procedures} {frame : Frame} (s : Script)
    (h : frame.owner = none) : queued procs frame s = [] := by
  refine List.eq_nil_iff_forall_not_mem.2 fun u hu => ?_
  have htarget := queued_target procs frame s u hu
  rw [h] at htarget
  cases htarget

end Script

end Canopy
