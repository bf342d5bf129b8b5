import Canopy.Proofs.Render.Runs

/-!
# What mounting one instruction does

`Pass.mountInstr` mounts one instruction by a short run of parts: find the open element, read
a binding, write to the document, place a node, mount a sub-program. Each lemma here inverts a
successful run for one kind of instruction into the runs of those parts and the node and open
constructs it answers with, so that the proofs about a whole mount read each instruction's run
from its lemma instead of unfolding it again.
-/

namespace Canopy

namespace Pass

open RenderM

variable {sub : MountFn} {site : List Nat} {env : Env} {target : Target} {node node' : Mounted}
  {stack stack' : List (Option NodeId)} {k : Nat} {r r' : Renderer}

theorem current_ok {e : NodeId} (h : (current stack).run r = .ok e r') :
    (∃ rest, stack = some e :: rest) ∧ r' = r := by
  unfold current at h
  split at h
  · cases h
    exact ⟨⟨_, rfl⟩, rfl⟩
  · cases h

theorem run_onCurrent {α : Type} (f : NodeId → RenderM Unit) (g : NodeId → α) {x : α}
    (h : (current stack >>= fun e => f e >>= fun _ => pure (g e)).run r = .ok x r') :
    ∃ e rest, stack = some e :: rest ∧ (f e).run r = .ok () r' ∧ x = g e := by
  obtain ⟨e, r₁, h₁, h₂⟩ := run_bind_ok h
  obtain ⟨⟨rest, rfl⟩, rfl⟩ := current_ok h₁
  obtain ⟨u, r₂, h₃, h₄⟩ := run_bind_ok h₂
  obtain ⟨rfl, rfl⟩ := run_pure_ok h₄
  exact ⟨e, rest, rfl, h₃, rfl⟩

/-- A binding's value written to the open element and kept in a slot. -/
theorem run_onCurrentValue (b : Binding) (op : Opcode) (f : NodeId → Value → RenderM Unit)
    (s : Nat) {x : Mounted × List (Option NodeId)}
    (h : (current stack >>= fun e => resolve b op env node >>= fun v => f e v >>= fun _ =>
      pure (node.setSlot s (.leaf e v), stack)).run r = .ok x r') :
    ∃ e rest v r₁, stack = some e :: rest ∧ (resolve b op env node).run r = .ok v r₁ ∧
      r₁.document = r.document ∧ (f e v).run r₁ = .ok () r' ∧
      x = (node.setSlot s (.leaf e v), stack) := by
  obtain ⟨e, r₁, h₁, h₂⟩ := run_bind_ok h
  obtain ⟨⟨rest, rfl⟩, rfl⟩ := current_ok h₁
  obtain ⟨v, r₂, h₃, h₄⟩ := run_bind_ok h₂
  obtain ⟨u, r₃, h₅, h₆⟩ := run_bind_ok h₄
  obtain ⟨rfl, rfl⟩ := run_pure_ok h₆
  exact ⟨e, rest, v, r₂, rfl, h₃, (keepsDocument_resolve b op env node).ok h₃, h₅, rfl⟩

/-! ### Each kind of instruction -/

theorem mountInstr_openElement_ok {tag : ElementTag}
    (h : (mountInstr sub site env target node stack (.openElement tag) k).run r =
      .ok (node', stack') r') :
    node' = node ∧ stack' = some (r.document.createElement tag.name).1 :: stack ∧
      r' = { r with document := (r.document.createElement tag.name).2 } := by
  simp only [mountInstr] at h
  obtain ⟨e, r₁, h₁, h₂⟩ := run_bind_ok h
  obtain ⟨rfl, rfl⟩ := run_docWith_ok h₁
  obtain ⟨hres, rfl⟩ := run_pure_ok h₂
  cases hres
  exact ⟨rfl, rfl, rfl⟩

theorem mountInstr_closeElement_ok
    (h : (mountInstr sub site env target node stack .closeElement k).run r =
      .ok (node', stack') r') :
    ∃ e rest, stack = some e :: rest ∧ (place rest node target e).run r = .ok node' r' ∧
      stack' = rest := by
  simp only [mountInstr] at h
  split at h
  · obtain ⟨n, r₁, h₁, h₂⟩ := run_bind_ok h
    obtain ⟨hres, rfl⟩ := run_pure_ok h₂
    cases hres
    exact ⟨_, _, rfl, h₁, rfl⟩
  · cases h

theorem mountInstr_openFragment_ok
    (h : (mountInstr sub site env target node stack .openFragment k).run r =
      .ok (node', stack') r') :
    node' = node ∧ stack' = none :: stack ∧ r' = r := by
  obtain ⟨hres, rfl⟩ := run_pure_ok h
  cases hres
  exact ⟨rfl, rfl, rfl⟩

theorem mountInstr_closeFragment_ok
    (h : (mountInstr sub site env target node stack .closeFragment k).run r =
      .ok (node', stack') r') :
    node' = node ∧ stack' = stack.drop 1 ∧ r' = r := by
  obtain ⟨hres, rfl⟩ := run_pure_ok h
  cases hres
  exact ⟨rfl, rfl, rfl⟩

theorem mountInstr_staticProperty_ok {p : Property} {v : String}
    (h : (mountInstr sub site env target node stack (.staticProperty p v) k).run r =
      .ok (node', stack') r') :
    ∃ e rest, stack = some e :: rest ∧ (writeProperty e p v).run r = .ok () r' ∧
      node' = node ∧ stack' = stack := by
  obtain ⟨e, rest, hs, hw, hx⟩ := run_onCurrent (fun e => writeProperty e p v) _ h
  cases hx
  exact ⟨e, rest, hs, hw, rfl, rfl⟩

theorem mountInstr_staticAttribute_ok {name v : String}
    (h : (mountInstr sub site env target node stack (.staticAttribute name v) k).run r =
      .ok (node', stack') r') :
    ∃ e rest, stack = some e :: rest ∧ (doc (·.setAttribute e name v)).run r = .ok () r' ∧
      node' = node ∧ stack' = stack := by
  obtain ⟨e, rest, hs, hw, hx⟩ := run_onCurrent (fun e => doc (·.setAttribute e name v)) _ h
  cases hx
  exact ⟨e, rest, hs, hw, rfl, rfl⟩

theorem mountInstr_staticText_ok {t : String}
    (h : (mountInstr sub site env target node stack (.staticText t) k).run r =
      .ok (node', stack') r') :
    ∃ e rest, stack = some e :: rest ∧ (doc (·.setTextContent e t)).run r = .ok () r' ∧
      node' = node ∧ stack' = stack := by
  obtain ⟨e, rest, hs, hw, hx⟩ := run_onCurrent (fun e => doc (·.setTextContent e t)) _ h
  cases hx
  exact ⟨e, rest, hs, hw, rfl, rfl⟩

theorem mountInstr_staticTextNode_ok {t : String}
    (h : (mountInstr sub site env target node stack (.staticTextNode t) k).run r =
      .ok (node', stack') r') :
    (place stack node target (r.document.createText t).1).run
      { r with document := (r.document.createText t).2 } = .ok node' r' ∧ stack' = stack := by
  simp only [mountInstr] at h
  obtain ⟨n, r₁, h₁, h₂⟩ := run_bind_ok h
  obtain ⟨rfl, rfl⟩ := run_docWith_ok h₁
  obtain ⟨n', r₂, h₃, h₄⟩ := run_bind_ok h₂
  obtain ⟨hres, rfl⟩ := run_pure_ok h₄
  cases hres
  exact ⟨h₃, rfl⟩

theorem mountInstr_dynamicProperty_ok {p : Property} {b : Binding} {s : Nat}
    (h : (mountInstr sub site env target node stack (.dynamicProperty p b s) k).run r =
      .ok (node', stack') r') :
    ∃ e rest v r₁, stack = some e :: rest ∧
      (resolve b (Instruction.dynamicProperty p b s).opcode env node).run r = .ok v r₁ ∧
      r₁.document = r.document ∧ (writeProperty e p v.contentText).run r₁ = .ok () r' ∧
      node' = node.setSlot s (.leaf e v) ∧ stack' = stack := by
  obtain ⟨e, rest, v, r₁, hs, hv, hd, hw, hx⟩ :=
    run_onCurrentValue b _ (fun e v => writeProperty e p v.contentText) s h
  cases hx
  exact ⟨e, rest, v, r₁, hs, hv, hd, hw, rfl, rfl⟩

theorem mountInstr_dynamicAttribute_ok {name : String} {b : Binding} {s : Nat}
    (h : (mountInstr sub site env target node stack (.dynamicAttribute name b s) k).run r =
      .ok (node', stack') r') :
    ∃ e rest v r₁, stack = some e :: rest ∧
      (resolve b (Instruction.dynamicAttribute name b s).opcode env node).run r = .ok v r₁ ∧
      r₁.document = r.document ∧
      (doc (·.setAttribute e name v.contentText)).run r₁ = .ok () r' ∧
      node' = node.setSlot s (.leaf e v) ∧ stack' = stack := by
  obtain ⟨e, rest, v, r₁, hs, hv, hd, hw, hx⟩ :=
    run_onCurrentValue b _ (fun e v => doc (·.setAttribute e name v.contentText)) s h
  cases hx
  exact ⟨e, rest, v, r₁, hs, hv, hd, hw, rfl, rfl⟩

theorem mountInstr_dynamicText_ok {b : Binding} {s : Nat}
    (h : (mountInstr sub site env target node stack (.dynamicText b s) k).run r =
      .ok (node', stack') r') :
    ∃ e rest v r₁, stack = some e :: rest ∧
      (resolve b .textDynamicContent env node).run r = .ok v r₁ ∧ r₁.document = r.document ∧
      (doc (·.setTextContent e v.contentText)).run r₁ = .ok () r' ∧
      node' = node.setSlot s (.leaf e v) ∧ stack' = stack := by
  obtain ⟨e, rest, v, r₁, hs, hv, hd, hw, hx⟩ :=
    run_onCurrentValue b _ (fun e v => doc (·.setTextContent e v.contentText)) s h
  cases hx
  exact ⟨e, rest, v, r₁, hs, hv, hd, hw, rfl, rfl⟩

theorem mountInstr_dynamicTextNode_ok {b : Binding} {s : Nat}
    (h : (mountInstr sub site env target node stack (.dynamicTextNode b s) k).run r =
      .ok (node', stack') r') :
    ∃ v r₁ n, (resolve b (Instruction.dynamicTextNode b s).opcode env node).run r = .ok v r₁ ∧
      r₁.document = r.document ∧
      (place stack node target (r₁.document.createText v.contentText).1).run
        { r₁ with document := (r₁.document.createText v.contentText).2 } = .ok n r' ∧
      node' = n.setSlot s (.leaf (r₁.document.createText v.contentText).1 v) ∧
      stack' = stack := by
  simp only [mountInstr] at h
  obtain ⟨v, r₁, h₁, h₂⟩ := run_bind_ok h
  obtain ⟨e, r₂, h₃, h₄⟩ := run_bind_ok h₂
  obtain ⟨rfl, rfl⟩ := run_docWith_ok h₃
  obtain ⟨n, r₃, h₅, h₆⟩ := run_bind_ok h₄
  obtain ⟨hres, rfl⟩ := run_pure_ok h₆
  cases hres
  exact ⟨v, r₁, n, h₁, (keepsDocument_resolve b _ env node).ok h₁, h₅, rfl, rfl⟩

theorem mountInstr_ternary_ok {t : TernarySpec Program}
    (h : (mountInstr sub site env target node stack (.ternary t) k).run r =
      .ok (node', stack') r') :
    ∃ x r₁ decision r₂ branch marker, (Bind.test env t.test).run r = .ok x r₁ ∧
      (orBinding .ternary x).run r₁ = .ok decision r₂ ∧
      (mountBranch sub (site ++ [k, if decision then 0 else 1])
        (if decision then t.consequent else t.alternate) env (position stack target).1).run r₂ =
        .ok (branch, marker) r' ∧
      node' = (if (position stack target).2 then
        (node.setSlot t.slot (.ternary decision branch marker (position stack target).1.parent)).addRoot
          (.slot t.slot)
        else node.setSlot t.slot (.ternary decision branch marker (position stack target).1.parent)) ∧
      stack' = stack := by
  simp only [mountInstr] at h
  obtain ⟨x, r₁, h₁, h₂⟩ := run_bind_ok h
  obtain ⟨decision, r₂, h₃, h₄⟩ := run_bind_ok h₂
  rcases hpos : position stack target with ⟨pos, atRoot⟩
  rw [hpos] at h₄
  dsimp only at h₄
  obtain ⟨⟨branch, marker⟩, r₃, h₅, h₆⟩ := run_bind_ok h₄
  obtain ⟨hres, rfl⟩ := run_pure_ok h₆
  cases hres
  exact ⟨x, r₁, decision, r₂, branch, marker, h₁, h₃, h₅, rfl, rfl⟩

theorem mountInstr_loop_ok {l : LoopSpec Program}
    (h : (mountInstr sub site env target node stack (.loop l) k).run r =
      .ok (node', stack') r') :
    ∃ e items, enclosing stack = some e ∧
      (mountLoop sub (site ++ [k, 0]) l env e).run r = .ok items r' ∧
      node' = node.setSlot l.slot (.loop e items) ∧ stack' = stack := by
  simp only [mountInstr] at h
  split at h
  · rename_i hq
    obtain ⟨e, r₁, h₁, h₂⟩ := run_bind_ok h
    obtain ⟨rfl, rfl⟩ := run_pure_ok h₁
    obtain ⟨items, r₂, h₃, h₄⟩ := run_bind_ok h₂
    obtain ⟨hres, rfl⟩ := run_pure_ok h₄
    cases hres
    exact ⟨_, items, hq, h₃, rfl, rfl⟩
  · obtain ⟨_, _, h₁, _⟩ := run_bind_ok h
    cases h₁

theorem mountInstr_component_ok {c : ComponentSpec Program}
    (h : (mountInstr sub site env target node stack (.component c) k).run r =
      .ok (node', stack') r') :
    ∃ x, (mountComponent sub (site ++ [k, 0]) c env (position stack target).1).run r =
        .ok x r' ∧
      node' = (if (position stack target).2 then (node.setSlot c.slot x).addRoot (.slot c.slot)
        else node.setSlot c.slot x) ∧ stack' = stack := by
  simp only [mountInstr] at h
  rcases hpos : position stack target with ⟨pos, atRoot⟩
  rw [hpos] at h
  dsimp only at h
  obtain ⟨x, r₁, h₁, h₂⟩ := run_bind_ok h
  obtain ⟨hres, rfl⟩ := run_pure_ok h₂
  cases hres
  exact ⟨x, h₁, rfl, rfl⟩

theorem mountInstr_didMount_ok {cb : Script}
    (h : (mountInstr sub site env target node stack (.didMount cb) k).run r =
      .ok (node', stack') r') :
    (defer (.lifecycle .didMount cb env.owner)).run r = .ok () r' ∧ node' = node ∧
      stack' = stack := by
  simp only [mountInstr] at h
  obtain ⟨u, r₁, h₁, h₂⟩ := run_bind_ok h
  obtain ⟨hres, rfl⟩ := run_pure_ok h₂
  cases hres
  exact ⟨h₁, rfl, rfl⟩

theorem mountInstr_didUpdate_ok {cb : Script}
    (h : (mountInstr sub site env target node stack (.didUpdate cb) k).run r =
      .ok (node', stack') r') :
    node' = node ∧ stack' = stack ∧ r' = r := by
  obtain ⟨hres, rfl⟩ := run_pure_ok h
  cases hres
  exact ⟨rfl, rfl, rfl⟩

theorem mountInstr_event_ok {name : String} {handler : Script} {s : Nat} {refresh : Bool}
    (h : (mountInstr sub site env target node stack (.event name handler s refresh) k).run r =
      .ok (node', stack') r') :
    ∃ e rest, stack = some e :: rest ∧
      (register name e { handler, props := env.props, owner := env.owner }).run r = .ok () r' ∧
      node' = node.setSlot s (.event e) ∧ stack' = stack := by
  obtain ⟨e, rest, hs, hw, hx⟩ :=
    run_onCurrent (fun e => register name e { handler, props := env.props, owner := env.owner })
      (fun e => (node.setSlot s (.event e), stack)) h
  cases hx
  exact ⟨e, rest, hs, hw, rfl, rfl⟩

end Pass

end Canopy
