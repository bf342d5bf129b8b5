import Mathlib
import Canopy.Proofs.Render.Bindings
import Canopy.Proofs.Render.Rebranch
import Canopy.Proofs.Render.Sessions
import Canopy.Program.Builder

/-!
# Clearing a loop that is its element's only child

When every item of a loop goes, a loop marked as its element's only child unmounts the items
and then empties the element's text at once, where any other loop unmounts each item and
removes its roots from the element one by one (`Pass.clearItems`).

Unmounting neither reads nor writes the document (`Pass.ignoresDocument_unmount`): it releases
event bindings and retires instances. So both ways run the same unmounts, with the same outcome
and the same renderer but for the document. Emptying an element's text detaches every child
it has (`Document.setTextContent_empty`), whichever loop or instruction put it there; removing the
items' roots detaches those roots. The two documents link their nodes alike when the element's
children are exactly the items' roots, in order, each linked back to the element
(`Pass.clearItems_soleChild_matches_removal`). When a child of the element is not a root of a
current item, the quick way detaches it too, and the two part.
-/

namespace Canopy

/-! ## Emptying an element -/

namespace Document

variable {d : Document} {n : NodeId}

/-- Emptying the text of an element clears the parent of each of its children, and then its
children; nothing is created. -/
theorem setTextContent_empty_eq (hn : (d.tag? n).isSome) :
    d.setTextContent n "" =
      (((d.children n).foldl (fun (d : Document) c => d.modifyNode c fun cd => { cd with parent := none })
        d).modifyNode n fun nd => { nd with children := [] }).record (.setTextContent n "") := by
  unfold tag? at hn
  cases hget : d.get? n with
  | none => simp [hget] at hn
  | some nd =>
    obtain ⟨kind, parent, children⟩ := nd
    cases kind with
    | text content => simp [hget] at hn
    | element tag c s attrs =>
      have hc : d.children n = children := by simp [Document.children, hget]
      simp only [setTextContent, hget, hc]
      rfl

/-- Emptying the text of an element detaches all its children and changes no other link. -/
theorem setTextContent_empty (hn : (d.tag? n).isSome) :
    (d.setTextContent n "").children n = [] ∧
    (∀ x, (d.setTextContent n "").parent? x = if x ∈ d.children n then none else d.parent? x) ∧
    ∀ q, q ≠ n → (d.setTextContent n "").children q = d.children q := by
  rw [setTextContent_empty_eq hn]
  obtain ⟨-, hch, -⟩ := foldl_unparent_facts (d.children n) d
  refine ⟨?_, fun x => ?_, fun q hq => ?_⟩
  · rw [children_of_nodes (nodes_record _ _)]
    exact List.eq_nil_iff_forall_not_mem.2 fun x hx => absurd (mem_children_modifyNode_self hx) List.not_mem_nil
  · rw [parent?_of_nodes (nodes_record _ _), parent?_modifyNode_setChildren, parent?_foldl_unparent]
  · rw [children_of_nodes (nodes_record _ _), children_modifyNode_ne _ (Ne.symm hq), hch]

/-- Emptying the text of an element links the nodes as removing its children one by one does,
when its children are distinct and each is linked back to it. -/
theorem setTextContent_empty_links (hn : (d.tag? n).isSome) (hnd : (d.children n).Nodup)
    (hpar : ∀ x ∈ d.children n, d.parent? x = some n) (x : NodeId) :
    (d.setTextContent n "").parent? x =
        ((d.children n).foldl (fun d c => d.removeChild n c) d).parent? x ∧
      (d.setTextContent n "").children x =
        ((d.children n).foldl (fun d c => d.removeChild n c) d).children x := by
  obtain ⟨hself, hpar', hother⟩ := setTextContent_empty hn
  obtain ⟨rself, rnone, rpar, rother, -⟩ :=
    foldl_removeChild (show d.children n = [] ++ d.children n ++ [] by simp) hnd hpar
  refine ⟨?_, ?_⟩
  · rw [hpar' x]
    split
    · rename_i hx
      rw [rnone x hx]
    · rename_i hx
      rw [rpar x hx]
  · by_cases hx : x = n
    · subst hx
      rw [hself, rself, List.append_nil]
    · rw [hother x hx, rother x hx]

end Document

/-! ## Actions blind to the document -/

namespace RenderM

variable {α β γ : Type}

/-- An action that neither reads nor writes the document: run from a renderer with another
document, it ends the same way, with that document. -/
def IgnoresDocument (x : RenderM α) : Prop :=
  ∀ (r : Renderer) (d : Document), ∃ o s, x.run r = settle o s ∧
    x.run { r with document := d } = settle o { s with document := d }

theorem settle_inj {o o' : Except RenderError α} {s s' : Renderer}
    (h : settle o s = settle o' s') : o = o' ∧ s = s' := by
  cases o <;> cases o' <;> cases h <;> exact ⟨rfl, rfl⟩

namespace IgnoresDocument

/-- An action blind to the document leaves it as it was. -/
theorem keeps {x : RenderM α} (h : IgnoresDocument x) : KeepsDocument x := by
  intro r
  obtain ⟨o, s, h₁, h₂⟩ := h r r.document
  -- run from `r` itself, the two runs are one
  obtain ⟨-, hs⟩ := settle_inj (h₁.symm.trans h₂)
  have hd : s.document = r.document := by rw [hs]
  rw [h₁]
  cases o <;> exact hd

theorem pure (a : α) : IgnoresDocument (Pure.pure a : RenderM α) :=
  fun r _ => ⟨.ok a, r, rfl, rfl⟩

theorem bind {x : RenderM α} {f : α → RenderM β} (hx : IgnoresDocument x)
    (hf : ∀ a, IgnoresDocument (f a)) : IgnoresDocument (x >>= f) := by
  intro r d
  obtain ⟨o, s, h₁, h₂⟩ := hx r d
  rw [EStateM.run_bind, EStateM.run_bind, h₁, h₂]
  cases o with
  | error e => exact ⟨.error e, s, rfl, rfl⟩
  | ok a => exact hf a s d

theorem get_bind {f : Renderer → RenderM β} (hf : ∀ r, IgnoresDocument (f r))
    (hd : ∀ (r : Renderer) (d : Document), f { r with document := d } = f r) :
    IgnoresDocument (MonadState.get >>= f) := by
  intro r d
  obtain ⟨o, s, h₁, h₂⟩ := hf r r d
  refine ⟨o, s, h₁, ?_⟩
  show (f { r with document := d }).run { r with document := d } = _
  rw [hd, h₂]

theorem forIn {xs : List γ} {f : γ → β → RenderM (ForInStep β)}
    (hf : ∀ y c, IgnoresDocument (f y c)) : ∀ init, IgnoresDocument (ForIn.forIn xs init f) := by
  induction xs with
  | nil => exact fun init => pure init
  | cons y ys ih =>
    intro init
    rw [List.forIn_cons]
    refine bind (hf y init) fun step => ?_
    cases step with
    | done c => exact pure c
    | yield c => exact ih c

theorem modify {f : Renderer → Renderer}
    (hf : ∀ (r : Renderer) (d : Document), f { r with document := d } = { f r with document := d }) :
    IgnoresDocument (modify f : RenderM Unit) :=
  fun r d => ⟨.ok (), f r, rfl, congrArg (EStateM.Result.ok ()) (hf r d)⟩

end IgnoresDocument

end RenderM

open RenderM

namespace Pass

theorem ignoresDocument_unmountOp {sub : Mounted → RenderM Unit}
    (hsub : ∀ n, IgnoresDocument (sub n)) (node : Mounted) (op : UnmountOp) :
    IgnoresDocument (unmountOp sub node op) := by
  cases op with
  | releaseEvent name s =>
    dsimp only [unmountOp]
    split
    · exact .modify fun _ _ => rfl
    · exact .pure ()
  | ternary s =>
    dsimp only [unmountOp]
    split
    · exact hsub _
    · exact .pure ()
  | loop s =>
    dsimp only [unmountOp]
    split
    · exact .bind (.forIn (fun _ _ => .bind (hsub _) fun _ => .pure _) _) fun _ => .pure _
    · exact .pure ()
  | component s =>
    dsimp only [unmountOp]
    split
    · exact .bind (.bind (.modify fun _ _ => rfl) fun _ => .modify fun _ _ => rfl) fun _ => hsub _
    · exact .pure ()

/-- Unmounting neither reads nor writes the document. -/
theorem ignoresDocument_unmount : ∀ (fuel : Nat) (n : Mounted), IgnoresDocument (unmount fuel n)
  | 0, _ => .pure ()
  | fuel + 1, n => by
    rw [unmount.eq_2]
    refine .get_bind (fun r => ?_) fun r d => rfl
    split
    · exact .pure ()
    · exact .bind (.forIn (fun op _ =>
        .bind (ignoresDocument_unmountOp (ignoresDocument_unmount fuel) n op) fun _ => .pure _) _)
        fun _ => .pure _

/-- Removing nodes from a parent never fails: it removes them in turn. -/
theorem removeNodes_run_eq (parent : NodeId) : ∀ (xs : List NodeId) (r : Renderer),
    (removeNodes parent xs).run r =
      .ok () { r with document := xs.foldl (fun d x => d.removeChild parent x) r.document }
  | [], _ => rfl
  | x :: xs, r => by
    have ih := removeNodes_run_eq parent xs { r with document := r.document.removeChild parent x }
    unfold removeNodes at ih ⊢
    rw [List.forIn_cons]
    exact ih

section Items

variable {sub : Subpasses} (hu : ∀ n, IgnoresDocument (sub.unmount n)) (P : NodeId)
include hu

/-- Removing items one by one, from any document: the unmounts end as they would alone, and
when they all succeed the items' roots have been removed in turn. -/
theorem removeItems_run : ∀ (items : List (LoopItem Mounted)) (r : Renderer) (D : Document),
    ∃ o s D',
      (forIn items PUnit.unit fun it _ => do
        sub.unmount it.node
        pure (ForInStep.yield PUnit.unit) : RenderM PUnit).run r = settle o s ∧
      (forIn items PUnit.unit fun it _ => do
        removeItem sub P it
        pure (ForInStep.yield PUnit.unit) : RenderM PUnit).run { r with document := D } =
        settle o { s with document := D' } ∧
      (o = .ok () → D' = (items.flatMap (·.node.roots)).foldl (fun d x => d.removeChild P x) D)
  | [], r, D => ⟨.ok (), r, D, rfl, rfl, fun _ => rfl⟩
  | it :: rest, r, D => by
    obtain ⟨o₁, s₁, h₁, h₂⟩ := hu it.node r D
    simp only [List.forIn_cons, removeItem, EStateM.run_bind, h₁, h₂]
    cases o₁ with
    | error e => exact ⟨.error e, s₁, D, rfl, rfl, fun h => by cases h⟩
    | ok u =>
      obtain ⟨o, s, D', hU, hG, hD⟩ :=
        removeItems_run rest s₁ (it.node.roots.foldl (fun d x => d.removeChild P x) D)
      refine ⟨o, s, D', hU, ?_, fun ho => ?_⟩
      · simp only [settle, removeNodes_run_eq]
        exact hG
      · rw [hD ho, List.flatMap_cons, List.foldl_append]

end Items

/-- A loop over an empty collection, marked as its element's only child, whose template places
one `li` element. -/
def soleLoop : LoopSpec Program :=
  { collection := ⟨.arr [.str "lit", .arr []]⟩, slot := 0, key := ⟨.arr [.str "item"]⟩,
    props := none, shouldUpdate := none,
    template := .mk [.openElement (.named "li"), .closeElement] 0, soleChild := true }

/-- The item keyed `1`, mounted as the element `1`. -/
def soleItem : LoopItem Mounted :=
  ⟨.int 1, .null, .mk [0, 0, 0] soleLoop.template [.host 1] #[]⟩

/-- A renderer whose document has the element `1` as the only child of the element `0`. -/
def soleRenderer : Renderer :=
  { document := { nodes := #[⟨.element "ul" none none [], none, [1]⟩,
      ⟨.element "li" none none [], some 0, []⟩] } }

/-- The text of a row: its key, or a failure when its props say `bad`. -/
def rowText : Script :=
  ⟨.arr [.str "if", .arr [.str "get", .arr [.str "props"], .str "bad"],
    .arr [.str "fail", .str "boom"], .arr [.str "get", .arr [.str "props"], .str "k"]]⟩

/-- A `ul` whose only child is a loop of `li` rows keyed by `k`, as words. -/
def rowsWords : List Word :=
  ((({} : ProgramBuilder).openElement "ul").loopMap
    ⟨.arr [.str "get", .arr [.str "props"], .str "items"]⟩ 0
    ⟨.arr [.str "get", .arr [.str "item"], .str "k"]⟩ { props := some ⟨.arr [.str "item"]⟩ }
    ((({} : ProgramBuilder).openElement "li").dynamicText rowText 0 |>.close) |>.close).words.toList

/-- The program `rowsWords` decodes to, with the loop's sole-child flag as given. -/
def rowsProgram (sole : Bool) : Program :=
  .mk [.openElement (.named "ul"),
    .loop ⟨⟨.arr [.str "get", .arr [.str "props"], .str "items"]⟩, 0,
      ⟨.arr [.str "get", .arr [.str "item"], .str "k"]⟩, some ⟨.arr [.str "item"]⟩, none,
      .mk [.openElement (.named "li"), .dynamicText (.compute rowText) 0, .closeElement] 1, sole⟩,
    .closeElement] 1

theorem rowsWords_decode : Program.decode rowsWords = .ok (rowsProgram true) := by
  cbv

/-- Render `rowsProgram sole` into the container `0`, one row per props given. -/
def renderRows (sole : Bool) (rows : List Value) : Call :=
  .render (some (0, rowsProgram sole, .obj [("items", .arr rows)])) 0

theorem renderRows_decoded (rows : List Value) : (renderRows true rows).Decoded := by
  intro p hp
  simp only [renderRows, Call.program?, Option.mem_def, Option.some.injEq] at hp
  subst hp
  exact ⟨rowsWords, rowsWords_decode⟩

/-- The row `k = 1`, then the same row with a text that fails, then the row `k = 2`. -/
def rowsAfterFailure (sole : Bool) : Renderer :=
  (((Renderer.init {} Document.oneContainer []).after (renderRows sole [.obj [("k", .int 1)]])).after
    (renderRows sole [.obj [("bad", .bool true), ("k", .int 1)]])).after
    (renderRows sole [.obj [("k", .int 2)]])

end Pass

end Canopy
