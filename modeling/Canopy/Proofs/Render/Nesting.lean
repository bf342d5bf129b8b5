import Canopy.Proofs.Document.Forest
import Canopy.Proofs.Render.Duplicates
import Canopy.Proofs.Render.Idle
import Canopy.Proofs.Render.Placing

/-!
# Nodes that nest in a forest

The passes keep the document a forest: every node they attach goes under an older node of the
arena. What makes this so is where a mounted node's slots point (`Mounted.Nested`): the parent a
ternary places its branch under and the element a loop places its items under are nodes of the
arena, and the roots of every item of a loop are nodes of the arena younger than the loop's
element. A mount creates its nodes as it goes, so they are younger than every node it is given;
an update keeps a node's roots or replaces them by new ones; so a move of a loop's items under
their element never hangs a node under a younger one.

`RenderM.Forested P x Q` is the Hoare triple these facts are proved with: from a forest that
meets `P`, the action leaves a forest with every node it had (`Document.Grown`), whether it
succeeds or fails, and on success what it returns and the document meet `Q`. A property that
growing keeps (`RenderM.Upward`) can be carried across any such action.
-/

namespace Canopy

namespace Document

/-- `d'` is a forest that has every node of `d`. -/
structure Grown (d d' : Document) : Prop where
  forest : d'.Forest
  size_le : d.nodes.size ≤ d'.nodes.size

variable {d₁ d₂ d₃ : Document}

theorem Grown.refl (h : d₁.Forest) : d₁.Grown d₁ := ⟨h, Nat.le_refl _⟩

theorem Grown.trans (h₁ : d₁.Grown d₂) (h₂ : d₂.Grown d₃) : d₁.Grown d₃ :=
  ⟨h₂.forest, Nat.le_trans h₁.size_le h₂.size_le⟩

end Document

namespace RenderM

variable {α β γ : Type} {P P' : Document → Prop} {Q Q' : α → Document → Prop}

/-- From a forest that meets `P`, `x` leaves a forest grown from it, whatever its outcome; on
success, what it returns and the document it leaves meet `Q`. -/
def Forested (P : Document → Prop) (x : RenderM α) (Q : α → Document → Prop) : Prop :=
  ∀ r, r.document.Forest → P r.document → match x.run r with
    | .ok a r' => r.document.Grown r'.document ∧ Q a r'.document
    | .error _ r' => r.document.Grown r'.document

/-- A property of documents that every forest grown from one that has it has too. -/
def Upward (P : Document → Prop) : Prop :=
  ∀ d d', P d → d.Grown d' → P d'

theorem upward_size_le (s : Nat) : Upward fun d => s ≤ d.nodes.size :=
  fun _ _ h hg => Nat.le_trans h hg.size_le

namespace Forested

theorem pure {a : α} (h : ∀ d, P d → Q a d) : Forested P (Pure.pure a : RenderM α) Q :=
  fun _ hf hp => ⟨.refl hf, h _ hp⟩

theorem bind {R : β → Document → Prop} {x : RenderM α} {f : α → RenderM β}
    (hx : Forested P x Q) (hf : ∀ a, Forested (Q a) (f a) R) : Forested P (x >>= f) R := by
  intro r hfor hp
  have hr := hx r hfor hp
  rw [EStateM.run_bind]
  cases hrun : x.run r with
  | ok a s =>
    rw [hrun] at hr
    have hs := hf a s hr.1.forest hr.2
    dsimp only
    cases hrun' : (f a).run s with
    | ok b t =>
      rw [hrun'] at hs
      exact ⟨hr.1.trans hs.1, hs.2⟩
    | error e t =>
      rw [hrun'] at hs
      exact hr.1.trans hs
  | error e s =>
    rw [hrun] at hr
    exact hr

theorem mono {x : RenderM α} (h : Forested P x Q) (hP : ∀ d, P' d → P d)
    (hQ : ∀ a d, Q a d → Q' a d) : Forested P' x Q' := by
  intro r hf hp
  have hr := h r hf (hP _ hp)
  cases hrun : x.run r with
  | ok a s =>
    rw [hrun] at hr
    exact ⟨hr.1, hQ _ _ hr.2⟩
  | error e s =>
    rw [hrun] at hr
    exact hr

/-- What growing keeps holds after the action too. -/
theorem frame {F : Document → Prop} {x : RenderM α} (h : Forested P x Q) (hF : Upward F) :
    Forested (fun d => P d ∧ F d) x fun a d => Q a d ∧ F d := by
  intro r hf hp
  have hr := h r hf hp.1
  cases hrun : x.run r with
  | ok a s =>
    rw [hrun] at hr
    exact ⟨hr.1, hr.2, hF _ _ hp.2 hr.1⟩
  | error e s =>
    rw [hrun] at hr
    exact hr

/-- Fixing the document an action starts from: what the precondition says of it can then be
used as a fact, for instance to pick the bound a nested spec is applied at. -/
theorem intro {x : RenderM α} (h : ∀ d₀, d₀.Forest → P d₀ → Forested (fun d => d = d₀) x Q) :
    Forested P x Q :=
  fun r hf hp => h r.document hf hp r hf rfl

theorem assume {p : Prop} {x : RenderM α} (hp : ∀ d, P d → p) (h : p → Forested P x Q) :
    Forested P x Q :=
  fun r hf hP => h (hp _ hP) r hf hP

theorem ite {c : Prop} [Decidable c] {x y : RenderM α} (hx : c → Forested P x Q)
    (hy : ¬c → Forested P y Q) : Forested P (if c then x else y) Q := by
  by_cases hc : c
  · rw [if_pos hc]
    exact hx hc
  · rw [if_neg hc]
    exact hy hc

theorem throw {e : RenderError} : Forested P (MonadExcept.throw e : RenderM α) Q :=
  fun _ hf _ => .refl hf

theorem throw_bind {e : RenderError} {f : α → RenderM β} {R : β → Document → Prop} :
    Forested P (MonadExcept.throw e >>= f) R :=
  fun _ hf _ => .refl hf

/-- Reading the renderer: what is read has the document. -/
theorem get : Forested P (MonadState.get : RenderM Renderer) fun r d => P d ∧ r.document = d :=
  fun _ hf hp => ⟨.refl hf, hp, rfl⟩

/-- Putting back a renderer with the document. -/
theorem set {r : Renderer} (h : ∀ d, P d → d = r.document) :
    Forested P (MonadState.set r : RenderM Unit) fun _ => P := by
  intro r₀ hf hp
  show r₀.document.Grown r.document ∧ P r.document
  rw [← h _ hp]
  exact ⟨.refl hf, hp⟩

theorem modify {f : Renderer → Renderer} (hf : ∀ r, (f r).document = r.document) :
    Forested P (modify f : RenderM Unit) fun _ => P := by
  intro r hfor hp
  show r.document.Grown (f r).document ∧ P (f r).document
  rw [hf]
  exact ⟨.refl hfor, hp⟩

/-- An action that leaves the document alone. -/
theorem of_keepsDocument {x : RenderM α} (h : KeepsDocument x) : Forested P x fun _ => P := by
  intro r hf hp
  have hr := h r
  cases hrun : x.run r with
  | ok a s =>
    rw [hrun] at hr
    change s.document = r.document at hr
    dsimp only
    rw [hr]
    exact ⟨.refl hf, hp⟩
  | error e s =>
    rw [hrun] at hr
    change s.document = r.document at hr
    dsimp only
    rw [hr]
    exact .refl hf

theorem keep_bind {R : β → Document → Prop} {x : RenderM α} {f : α → RenderM β}
    (hx : KeepsDocument x) (hf : ∀ a, Forested P (f a) R) : Forested P (x >>= f) R :=
  bind (of_keepsDocument hx) hf

/-- A change of the document that keeps it a forest and grows it. -/
theorem doc {f : Document → Document} {Q : Unit → Document → Prop}
    (hf : ∀ d, d.Forest → P d → (f d).Forest ∧ d.nodes.size ≤ (f d).nodes.size ∧ Q () (f d)) :
    Forested P (RenderM.doc f) Q := by
  intro r hfor hp
  obtain ⟨h₁, h₂, h₃⟩ := hf _ hfor hp
  exact ⟨⟨h₁, h₂⟩, h₃⟩

theorem doc_upward {f : Document → Document} (hP : Upward P)
    (hf : ∀ d, d.Forest → (f d).Forest ∧ d.nodes.size ≤ (f d).nodes.size) :
    Forested P (RenderM.doc f) fun _ => P :=
  doc fun d hd hp => ⟨(hf d hd).1, (hf d hd).2, hP d (f d) hp ⟨(hf d hd).1, (hf d hd).2⟩⟩

theorem docWith {f : Document → α × Document}
    (hf : ∀ d, d.Forest → P d → (f d).2.Forest ∧ d.nodes.size ≤ (f d).2.nodes.size ∧
      Q (f d).1 (f d).2) :
    Forested P (RenderM.docWith f) Q := by
  intro r hfor hp
  obtain ⟨h₁, h₂, h₃⟩ := hf _ hfor hp
  exact ⟨⟨h₁, h₂⟩, h₃⟩

/-- A loop whose every step keeps an invariant of its accumulator. -/
theorem forIn {xs : List γ} {f : γ → β → RenderM (ForInStep β)} {I : β → Document → Prop}
    (hf : ∀ y ∈ xs, ∀ b, Forested (I b) (f y b) fun step => I step.value) :
    ∀ b, Forested (I b) (ForIn.forIn xs b f) I := by
  induction xs with
  | nil => exact fun b => pure fun _ h => h
  | cons y ys ih =>
    intro b
    rw [List.forIn_cons]
    refine bind (hf y List.mem_cons_self b) fun step => ?_
    cases step with
    | done c => exact pure fun _ h => h
    | yield c => exact ih (fun z hz => hf z (List.mem_cons_of_mem y hz)) c

/-- An action on each member of a list, each result meeting `R`, which growing keeps. -/
theorem mapM {xs : List γ} {f : γ → RenderM β} {R : β → Document → Prop}
    (hR : ∀ b, Upward (R b)) (hf : ∀ a, Forested P (f a) fun b d => P d ∧ R b d) :
    Forested P (xs.mapM f) fun bs d => P d ∧ ∀ b ∈ bs, R b d := by
  induction xs with
  | nil => exact pure fun d h => ⟨h, fun _ hb => absurd hb List.not_mem_nil⟩
  | cons a xs ih =>
    rw [List.mapM_cons]
    refine bind (hf a) fun b => bind ((ih.frame (hR b)).mono (fun _ h => h) fun _ _ h => h)
      fun bs => pure fun d h => ⟨h.1.1, fun b' hb' => ?_⟩
    rcases List.mem_cons.1 hb' with rfl | hb'
    · exact h.2
    · exact h.1.2 b' hb'

/-- Handing a failure back as a value: after a failure, what growing keeps still holds. -/
theorem attempt {x : RenderM α} (hP : Upward P) (h : Forested P x Q) :
    Forested P x.attempt fun res d => match res with
      | .ok a => Q a d
      | .error _ => P d := by
  intro r hf hp
  have hr := h r hf hp
  cases hrun : x.run r with
  | ok a s =>
    rw [hrun] at hr
    rw [run_attempt_of_ok hrun]
    exact hr
  | error e s =>
    rw [hrun] at hr
    rw [run_attempt_of_error hrun]
    exact ⟨hr, hP _ _ hp hr⟩

end Forested

end RenderM

/-! ## Where slots point -/

/-- A loop item under the element `P`, in an arena of `s` nodes: its roots are nodes of the arena
younger than `P`. -/
def LoopItem.RootedUnder (it : LoopItem Mounted) (P s : Nat) : Prop :=
  ∀ x : Nat, x ∈ it.node.roots → P < x ∧ x < s

/-- Where a slot points, in an arena of `s` nodes: a ternary's parent is one of its nodes, and so
is a loop's element, under which each item's roots are younger nodes of the arena. -/
def Slot.Points (s : Nat) : Slot → Prop
  | .ternary _ _ _ q => q < s
  | .loop P items => P < s ∧ ∀ it ∈ items, it.RootedUnder P s
  | _ => True

/-- A mounted node nests in an arena of `s` nodes: each of its slots, at any depth, points
into it. -/
inductive Mounted.Nested (s : Nat) : Mounted → Prop
  | mk {site : List Nat} {p : Program} {refs : List RootRef} {slots : Array Slot} :
      (∀ sl ∈ slots, sl.Points s) → (∀ sl ∈ slots, ∀ n ∈ sl.nodes, Mounted.Nested s n) →
      Mounted.Nested s (.mk site p refs slots)

namespace LoopItem

variable {it : LoopItem Mounted} {P s s' : Nat}

theorem RootedUnder.mono (h : it.RootedUnder P s) (hs : s ≤ s') : it.RootedUnder P s' :=
  fun x hx => ⟨(h x hx).1, Nat.lt_of_lt_of_le (h x hx).2 hs⟩

end LoopItem

namespace Slot

variable {s s' : Nat}

theorem Points.mono {x : Slot} (h : x.Points s) (hs : s ≤ s') : x.Points s' := by
  cases x with
  | ternary d b m q => exact Nat.lt_of_lt_of_le (show q < s from h) hs
  | loop P items => exact ⟨Nat.lt_of_lt_of_le h.1 hs, fun it hit => (h.2 it hit).mono hs⟩
  | empty | leaf | event | component => trivial

end Slot

namespace Mounted

variable {n : Mounted} {s s' : Nat}

theorem Nested.points (h : n.Nested s) : ∀ sl ∈ n.slots, sl.Points s := by
  cases h with
  | mk hp _ => exact hp

theorem Nested.nodes (h : n.Nested s) : ∀ sl ∈ n.slots, ∀ m ∈ sl.nodes, m.Nested s := by
  cases h with
  | mk _ hn => exact hn

theorem Nested.intro (hp : ∀ sl ∈ n.slots, sl.Points s)
    (hn : ∀ sl ∈ n.slots, ∀ m ∈ sl.nodes, m.Nested s) : n.Nested s := by
  obtain ⟨site, p, refs, slots⟩ := n
  exact .mk hp hn

/-- A node that nests in an arena nests in every larger one. -/
theorem Nested.mono (h : n.Nested s) (hs : s ≤ s') : n.Nested s' := by
  induction h with
  | mk hp _ ih => exact .mk (fun sl hsl => (hp sl hsl).mono hs) ih

theorem Nested.of_slot? (h : n.Nested s) {i : Nat} {x : Slot} (hx : n.slot? i = some x) :
    x.Points s ∧ ∀ m ∈ x.nodes, m.Nested s := by
  have hmem : x ∈ n.slots := Array.mem_of_getElem? hx
  exact ⟨h.points x hmem, h.nodes x hmem⟩

theorem nested_fresh (site : List Nat) (p : Program) : (fresh site p).Nested s := by
  refine .mk (fun sl hsl => ?_) fun sl hsl m hm => ?_
  · rw [(Array.mem_replicate.1 hsl).2]
    trivial
  · rw [(Array.mem_replicate.1 hsl).2] at hm
    exact absurd hm (by simp [Slot.nodes])

theorem Nested.setSlot (h : n.Nested s) {x : Slot} (hx : x.Points s)
    (hxn : ∀ m ∈ x.nodes, m.Nested s) (i : Nat) : (n.setSlot i x).Nested s := by
  refine .intro (fun sl hsl => ?_) fun sl hsl => ?_ <;>
    rcases Array.mem_or_eq_of_mem_setIfInBounds hsl with hsl | rfl
  · exact h.points sl hsl
  · exact hx
  · exact h.nodes sl hsl
  · exact hxn

theorem Nested.addRoot (h : n.Nested s) (ref : RootRef) : (n.addRoot ref).Nested s :=
  .intro h.points h.nodes

/-! ## Roots after a slot changes -/

/-- A root of a node with a slot replaced is a root it had, or stands for the new slot, which a
root of the node refers to. -/
theorem mem_roots_setSlot {i : Nat} {y : Slot} {z : NodeId} (hz : z ∈ (n.setSlot i y).roots) :
    z ∈ n.roots ∨ (z ∈ y.roots ∧ RootRef.slot i ∈ n.rootRefs) := by
  rw [roots_eq, rootRefs_setSlot, slots_setSlot, List.mem_flatMap] at hz
  obtain ⟨ref, href, hz⟩ := hz
  cases ref with
  | host x =>
    left
    rw [roots_eq, List.mem_flatMap]
    exact ⟨_, href, hz⟩
  | slot t =>
    by_cases hit : i = t
    · subst hit
      simp only [RootRef.resolve, Array.getElem?_setIfInBounds, if_true] at hz
      split at hz
      · simp only [Option.map_some, Option.getD_some] at hz
        exact .inr ⟨hz, href⟩
      · simp at hz
    · left
      rw [roots_eq, List.mem_flatMap]
      refine ⟨_, href, ?_⟩
      simpa [RootRef.resolve, Array.getElem?_setIfInBounds_ne hit] using hz

theorem mem_roots_of_slot {i : Nat} {x : Slot} {z : NodeId} (hr : RootRef.slot i ∈ n.rootRefs)
    (hx : n.slot? i = some x) (hz : z ∈ x.roots) : z ∈ n.roots := by
  rw [roots_eq, List.mem_flatMap]
  exact ⟨_, hr, by simpa [RootRef.resolve, show n.slots[i]? = some x from hx] using hz⟩

/-- Replacing a slot by one that stands for roots the old one stood for, or roots with a
property `F`, gives a node whose roots are old ones or have `F`. -/
theorem mem_roots_replaceSlot {i : Nat} {x y : Slot} {F : NodeId → Prop}
    (hx : n.slot? i = some x) (hy : ∀ z ∈ y.roots, z ∈ x.roots ∨ F z) {z : NodeId}
    (hz : z ∈ (n.setSlot i y).roots) : z ∈ n.roots ∨ F z := by
  rcases mem_roots_setSlot hz with hz | ⟨hz, hr⟩
  · exact .inl hz
  · exact (hy z hz).imp (mem_roots_of_slot hr hx) id

end Mounted

end Canopy
