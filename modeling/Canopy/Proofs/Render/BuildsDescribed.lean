import Canopy.Proofs.Render.Drawing

/-!
# A mount builds the trees its program describes

Mounting a well-formed program at a target inserts there nodes whose HTML text is that of the
trees the program describes (`mount_builds_described`): in the frame the program is mounted in,
with the ids of its component instances counted from the renderer's next one, the program
describes trees, and the roots the mount grafts before the target's anchor show them, in order.

The proof follows the recursion of the mount. A mount function `Draws` when every well-formed
program it mounts draws what the program describes. Branches, loop items and components are
mounted by such a function (`mountBranch_draws`, `mountLoop_draws`, `mountComponent_draws`);
each instruction keeps a mount in progress drawing the sketch that has read the same
instructions (`mountInstr_draws`), and so the whole loop over the instructions does
(`mount_draws`), with any fuel.
-/

namespace Canopy

namespace Pass

open Document RenderM

variable {p : Program} {P : NodeId} {a : Option NodeId} {node : Mounted}
  {stack : List (Option NodeId)}

/-! ## Sub-programs -/

/-- A mount function draws what each well-formed program describes: mounted in a forest at a
target of the arena, under an owner the renderer has, the roots it places show the trees the
program describes in the env's frame, instance ids counted from the renderer's next one; the
renderer stays steady, every node of the arena stays what it was, and the document stays a
forest. -/
def MountFn.Draws (f : MountFn) : Prop :=
  ∀ {site : List Nat} {q : Program} {env : Env} {t : Target} {r r' : Renderer} {n : Mounted},
    (f site q env t).run r = .ok n r' → q.WellFormed → r.document.Forest →
    t.parent < r.document.nodes.size → (∀ b ∈ t.anchor, b < r.document.nodes.size) →
    (∀ id ∈ env.owner, (r.instance? id).isSome) →
    r.Steady r' ∧ r.document.KindsKept r'.document ∧ r'.document.Forest ∧
      ∃ ts, describe r.procs r.config.duplicateKeys (r.frameOf env) (r.instances.size + 1) q =
        some (ts, r'.instances.size + 1) ∧ r'.document.ShowsAll n.roots ts

variable {f : MountFn} {site : List Nat} {q : Program} {env : Env} {pos : Target}
  {r r' : Renderer}

/-- A branch draws what its program describes, or an empty text where that is nothing. -/
theorem mountBranch_draws (hsub : f.Draws) (hplaces : f.Places) (hq : q.WellFormed)
    (hf : r.document.Forest) (hP : pos.parent < r.document.nodes.size)
    (ha : ∀ b ∈ pos.anchor, b < r.document.nodes.size)
    (hown : ∀ id ∈ env.owner, (r.instance? id).isSome) {b : Mounted} {m : Option NodeId}
    (h : (mountBranch f site q env pos).run r = .ok (b, m) r') (decision : Bool) :
    r.Steady r' ∧ r.document.KindsKept r'.document ∧ r'.document.Forest ∧
      Grafts r.document pos.parent pos.anchor (Slot.ternary decision b m pos.parent).roots
        r'.document ∧
      ∃ ts, describe r.procs r.config.duplicateKeys (r.frameOf env) (r.instances.size + 1) q =
        some (ts, r'.instances.size + 1) ∧
        r'.document.ShowsAll (Slot.ternary decision b m pos.parent).roots (Tree.orMarker ts) := by
  obtain ⟨r₁, h₁, hg, -, hmark⟩ := mountBranch_places hplaces hq hP ha h decision
  obtain ⟨hs, hk, hfor, ts, hdesc, hshow⟩ := hsub h₁ hq hf hP ha hown
  unfold mountBranch at h
  obtain ⟨branch, r₂, h₂, h₃⟩ := run_bind_ok h
  rw [h₁] at h₂
  cases h₂
  split at h₃
  · -- the branch has roots: they show its trees
    rename_i hroot
    obtain ⟨hres, rfl⟩ := run_pure_ok h₃
    cases hres
    have hne : ts.isEmpty = false := by
      cases ts with
      | nil =>
        have hb : b.roots = [] := List.forall₂_nil_right_iff.1 hshow
        simp [Mounted.firstRoot?, hb] at hroot
      | cons t ts => rfl
    refine ⟨hs, hk, hfor, hg, ts, hdesc, ?_⟩
    simpa [Slot.roots, Tree.orMarker, hne] using hshow
  · -- no roots: the new empty text node marks the place
    rename_i hroot
    have hnil : b.roots = [] := by
      simpa [Mounted.firstRoot?, List.head?_eq_none_iff] using hroot
    have hts : ts = [] := by
      rw [hnil] at hshow
      exact List.forall₂_nil_left_iff.1 hshow
    obtain ⟨x, r₃, h₄, h₅⟩ := run_bind_ok h₃
    obtain ⟨rfl, rfl⟩ := run_docWith_ok h₄
    obtain ⟨u, r₄, h₆, h₇⟩ := run_bind_ok h₅
    obtain ⟨hres, rfl⟩ := run_pure_ok h₇
    cases hres
    rw [run_doc_ok h₆] at hg hmark ⊢
    have hg₁ := hplaces h₁ hq hP ha
    have hP₁ : pos.parent < r₁.document.nodes.size := Nat.lt_of_lt_of_le hP hg₁.size_le
    have hk₁ : r₁.document.KindsKept ((r₁.document.createText "").2.insertBefore pos.parent
        r₁.document.nodes.size pos.anchor) := fun y hy => by
      rw [insertBefore, kind_attach]
      exact congrArg (Option.map NodeData.kind) (get?_alloc_of_lt hy)
    refine ⟨hs.trans (.of_instances rfl rfl rfl), hk.trans hk₁ hg₁.size_le,
      (hfor.createText "").attach _ (by simp) hP₁, hg, [], by rw [← hts]; exact hdesc, ?_⟩
    obtain ⟨-, hkind⟩ := hmark _ rfl
    exact .cons (shows_text_iff_kind.2 hkind) .nil

/-- A component draws what its body describes under its new instance, whose state its factory
computes from the props. -/
theorem mountComponent_draws (hsub : f.Draws) (hplaces : f.Places) {spec : ComponentSpec Program}
    (hq : spec.body.WellFormed) (hf : r.document.Forest) (hP : pos.parent < r.document.nodes.size)
    (ha : ∀ b ∈ pos.anchor, b < r.document.nodes.size) {slot : Slot}
    (h : (mountComponent f site spec env pos).run r = .ok slot r') :
    r.Steady r' ∧ r.document.KindsKept r'.document ∧ r'.document.Forest ∧
      Grafts r.document pos.parent pos.anchor slot.roots r'.document ∧ (∀ e v, slot ≠ .leaf e v) ∧
      ∃ state ts, (Script.outcome r.procs { props := env.props } spec.factory).toOption = some state ∧
        describe r.procs r.config.duplicateKeys
          (Frame.ofInstance env.props (r.instances.size + 1) state) (r.instances.size + 1 + 1)
          spec.body = some (ts, r'.instances.size + 1) ∧
        r'.document.ShowsAll slot.roots ts := by
  have hg := mountComponent_places hplaces hq hP ha h
  unfold mountComponent at h
  obtain ⟨x, r₁, h₁, h₂⟩ := run_bind_ok h
  obtain ⟨state, r₂, h₃, h₄⟩ := run_bind_ok h₂
  obtain ⟨hstate, hr₂⟩ := factory_states h₁ h₃
  have hI : r₂.instances = r.instances := by rw [hr₂]
  have hD : r₂.document = r.document := by rw [hr₂]
  have hPr : r₂.procs = r.procs := by rw [hr₂]
  have hC : r₂.config = r.config := by rw [hr₂]
  obtain ⟨r₀, r₃, h₅, h₆⟩ := run_bind_ok h₄
  cases h₅
  obtain ⟨u, r₄, h₇, h₈⟩ := run_bind_ok h₆
  cases h₇
  obtain ⟨n, r₅, h₉, h₁₀⟩ := run_bind_ok h₈
  obtain ⟨u', r₆, h₁₁, h₁₂⟩ := run_bind_ok h₁₀
  cases h₁₁
  obtain ⟨rfl, rfl⟩ := run_pure_ok h₁₂
  -- the body is mounted under the new instance, which the renderer now has
  obtain ⟨hs, hk, hfor, ts, hdesc, hshow⟩ := hsub h₉ hq (hD ▸ hf) (hD ▸ hP) (hD ▸ ha)
    (fun id hid => by
      cases hid
      simp [Renderer.instance?])
  have hframe : Renderer.frameOf { r₂ with instances := (r₂.instances.push
      { id := ⟨r₂.instances.size + 1⟩, props := env.props, state }) }
      { owner := some ⟨r₂.instances.size + 1⟩, props := env.props } =
      Frame.ofInstance env.props (r.instances.size + 1) state := by
    simp [Renderer.frameOf, Renderer.instance?, Frame.ofInstance, hI]
  refine ⟨((Renderer.Steady.of_effects hr₂).trans (Renderer.Steady.push _ _)).trans
    (hs.trans (.of_instances rfl rfl rfl)), hD ▸ hk, hfor, hg, (fun _ _ h => by cases h), state, ts,
    hstate, ?_, hshow⟩
  rw [hframe] at hdesc
  simpa [hI, hPr, hC] using hdesc

variable {parent : NodeId}

/-- Loop items draw, one after another, what the template describes for each projected item,
after the trees already there. -/
theorem mountItems_draws (hsub : f.Draws) (hplaces : f.Places) {spec : LoopSpec Program}
    (hq : spec.template.WellFormed) :
    ∀ (ps : List Projected) {r r' : Renderer} {items : List (LoopItem Mounted)} (acc : List Tree),
      (ps.mapM fun p => mountItem f site spec env parent p none).run r = .ok items r' →
      r.document.Forest → parent < r.document.nodes.size → r.document.parent? parent = none →
      (∀ id ∈ env.owner, (r.instance? id).isSome) →
      r.Steady r' ∧ r.document.KindsKept r'.document ∧ r'.document.Forest ∧
        Grafts r.document parent none (items.flatMap (·.node.roots)) r'.document ∧
        ∃ ts, describeItems (fun frame next =>
            describe r.procs r.config.duplicateKeys frame next spec.template)
          (r.frameOf env) ps (acc, r.instances.size + 1) = some (acc ++ ts, r'.instances.size + 1) ∧
          r'.document.ShowsAll (items.flatMap (·.node.roots)) ts
  | [], r, r', items, acc, h, hf, hP, _, _ => by
    obtain ⟨rfl, rfl⟩ := run_pure_ok h
    exact ⟨.refl _, .refl _, hf, Grafts.refl hP fun _ hb => absurd hb (by simp), [],
      by simp [describeItems], .nil⟩
  | p :: ps, r, r', items, acc, h, hf, hP, hpp, hown => by
    rw [List.mapM_cons] at h
    obtain ⟨it, r₁, h₁, h₂⟩ := run_bind_ok h
    obtain ⟨its, r₂, h₃, h₄⟩ := run_bind_ok h₂
    obtain ⟨rfl, rfl⟩ := run_pure_ok h₄
    unfold mountItem at h₁
    obtain ⟨n, r₃, h₅, h₆⟩ := run_bind_ok h₁
    obtain ⟨hit, hr₁⟩ := run_pure_ok h₆
    subst hit hr₁
    have hanchor : ∀ b ∈ (⟨parent, none⟩ : Target).anchor, b < r.document.nodes.size :=
      fun _ hb => absurd hb (by simp)
    obtain ⟨hs, hk, hfor, ts, hdesc, hshow⟩ := hsub h₅ hq hf hP hanchor hown
    have hg := hplaces h₅ hq hP hanchor
    obtain ⟨hs', hk', hfor', hg', ts', hdesc', hshow'⟩ := mountItems_draws hsub hplaces hq ps
      (acc ++ ts) h₃ hfor (Nat.lt_of_lt_of_le hP hg.size_le) ((hg.parent_old parent hP).trans hpp)
      (hs.owner hown)
    have hframe : r₁.frameOf env = r.frameOf env := hs.frameOf hown
    refine ⟨hs.trans hs', hk.trans hk' hg.size_le, hfor', hg.trans hg', ts ++ ts', ?_, ?_⟩
    · have hdesc₁ : describe r₁.procs r₁.config.duplicateKeys { r₁.frameOf env with props := p.props }
          (r.instances.size + 1) spec.template = some (ts, r₁.instances.size + 1) := by
        rw [hs.procs, hs.config, hframe]
        exact hdesc
      rw [← hs.procs, ← hs.config, ← hframe]
      simp only [describeItems, hdesc₁, Option.bind_eq_bind, Option.bind_some]
      rw [hdesc', List.append_assoc]
    · -- the first item's roots keep what they show: the later items change only the parent
      rw [List.flatMap_cons]
      refine List.rel_append (hshow.keep fun x hx t ht => ht.keep_except ?_ (hg'.sameAt hk')) hshow'
      exact hfor.toLinked.not_below_of_parent?_eq_none ((hg.parent_old parent hP).trans hpp)
        (fun hxp => Nat.not_lt_of_le (hg.new x hx) (hxp ▸ hP))

/-- A loop draws what its template describes for each item its projection gives. -/
theorem mountLoop_draws (hsub : f.Draws) (hplaces : f.Places) {spec : LoopSpec Program}
    (hq : spec.template.WellFormed) (hf : r.document.Forest) (hP : parent < r.document.nodes.size)
    (hpp : r.document.parent? parent = none) (hown : ∀ id ∈ env.owner, (r.instance? id).isSome)
    {items : List (LoopItem Mounted)} (h : (mountLoop f site spec env parent).run r = .ok items r') :
    r.Steady r' ∧ r.document.KindsKept r'.document ∧ r'.document.Forest ∧
      Grafts r.document parent none (items.flatMap (·.node.roots)) r'.document ∧
      ∃ ps ts, projection r.procs r.config.duplicateKeys (r.frameOf env) spec = .ok ps ∧
        describeItems (fun frame next =>
            describe r.procs r.config.duplicateKeys frame next spec.template)
          (r.frameOf env) ps ([], r.instances.size + 1) = some (ts, r'.instances.size + 1) ∧
        r'.document.ShowsAll (items.flatMap (·.node.roots)) ts := by
  unfold mountLoop at h
  obtain ⟨ps, r₁, h₁, h₂⟩ := run_bind_ok h
  obtain ⟨r₂, hscr, hrun⟩ := project_run_scriptedBy r env spec
  rw [hrun] at h₁
  have hproj : projection r.procs r.config.duplicateKeys (r.frameOf env) spec = .ok ps ∧
      r₁ = r₂ := by
    cases hpr : projection r.procs r.config.duplicateKeys (r.frameOf env) spec with
    | error e => rw [hpr] at h₁; cases h₁
    | ok v => rw [hpr] at h₁; cases h₁; exact ⟨rfl, rfl⟩
  obtain ⟨hpr, rfl⟩ := hproj
  have hs₁ : r.Steady r₁ := .of_effects hscr.effects
  have hD : r₁.document = r.document := hscr.document
  have hI : r₁.instances = r.instances := by rw [hscr.effects]
  obtain ⟨hs, hk, hfor, hg, ts, hdesc, hshow⟩ := mountItems_draws hsub hplaces hq ps [] h₂
    (hD ▸ hf) (hD ▸ hP) (hD ▸ hpp) (hs₁.owner hown)
  rw [hs₁.procs, hs₁.config, hs₁.frameOf hown, hI, List.nil_append] at hdesc
  exact ⟨hs₁.trans hs, hD ▸ hk, hfor, hD ▸ hg, ps, ts, hpr, hdesc, hshow⟩

/-! ## Each instruction, and the whole mount -/

/-- Each instruction of a well-formed program keeps a mount in progress drawing what the sketch
that has read the same instructions describes: the sketch reads the instruction, in the frame
the mount began in, and agrees with the mount after it. -/
theorem mountInstr_draws {sub : MountFn} (hdraws : sub.Draws) (hplaces : sub.Places)
    {r₀ : Renderer} {node' : Mounted} {stack' : List (Option NodeId)} {k : Sketch}
    {i : Instruction} {j : Nat} {pre suf : List Instruction} (hp : p.WellFormed)
    (he : p.instructions = pre ++ i :: suf) (hown : ∀ id ∈ env.owner, (r₀.instance? id).isSome)
    (h : (mountInstr sub site env ⟨P, a⟩ node stack i j).run r = .ok (node', stack') r')
    (hpl : Placing p r₀.document P a (({} : Layout).pushAll pre).slots node stack r.document)
    (hb : Building r₀.document.nodes.size node stack r.document)
    (hd : Drawing r₀ node stack k r) :
    ∃ k', k.step r₀.procs r₀.config.duplicateKeys (r₀.frameOf env) i = some k' ∧
      Drawing r₀ node' stack' k' r' := by
  have hadm := hp.admissible he
  have hmem : i ∈ p.instructions := by simp [he]
  have hi : ∀ s, s ∉ (({} : Layout).pushAll pre).slots → RootRef.slot s ∉ node.rootRefs :=
    fun s hs hr => hs (hpl.refs s hr)
  -- the scripts run in the frame the mount began in
  have hprocs : r.procs = r₀.procs := hd.steady.procs
  have hconfig : r.config = r₀.config := hd.steady.config
  have hframe : r.frameOf env = r₀.frameOf env := hd.steady.frameOf hown
  cases i with
  | openElement tag =>
    obtain ⟨rfl, rfl, rfl⟩ := mountInstr_openElement_ok h
    exact ⟨_, by simp [Sketch.step], hd.openElement hpl.grafts.size_le tag.name⟩
  | closeElement =>
    obtain ⟨e, rest, rfl, h₁, rfl⟩ := mountInstr_closeElement_ok h
    obtain ⟨o, os, hks, hhead, hpop⟩ := hd.pop
    cases o with
    | none => exact hhead.elim
    | some o =>
      obtain ⟨he₁, he₂, he₃⟩ := hpl.open_new e List.mem_cons_self
      exact ⟨_, by simp [Sketch.step, hks],
        hpop.place hpl.pop hhead he₁ he₂ he₃ (fun _ hq => hb.enclosing_lt hq) h₁⟩
  | openFragment =>
    obtain ⟨rfl, rfl, rfl⟩ := mountInstr_openFragment_ok h
    exact ⟨_, by simp [Sketch.step], hd.pushFragment⟩
  | closeFragment =>
    obtain ⟨rfl, rfl, rfl⟩ := mountInstr_closeFragment_ok h
    exact ⟨_, by simp [Sketch.step], hd.dropOne⟩
  | staticProperty prop v =>
    obtain ⟨e, rest, rfl, h₁, rfl, rfl⟩ := mountInstr_staticProperty_ok h
    obtain ⟨k', hw, -, hd'⟩ := hd.setProperty hpl h₁
    exact ⟨k', by simpa [Sketch.step] using hw, hd'⟩
  | staticAttribute name v =>
    obtain ⟨e, rest, rfl, h₁, rfl, rfl⟩ := mountInstr_staticAttribute_ok h
    obtain ⟨k', hw, -, hd'⟩ := hd.setAttribute hpl h₁
    exact ⟨k', by simpa [Sketch.step] using hw, hd'⟩
  | staticText t =>
    obtain ⟨e, rest, rfl, h₁, rfl, rfl⟩ := mountInstr_staticText_ok h
    obtain ⟨k', hw, -, hd'⟩ := hd.setTextContent hpl h₁
    exact ⟨k', by simpa [Sketch.step] using hw, hd'⟩
  | staticTextNode t =>
    obtain ⟨h₁, rfl⟩ := mountInstr_staticTextNode_ok h
    exact ⟨_, by simp [Sketch.step], hd.placeText hpl t h₁⟩
  | dynamicProperty prop b s =>
    obtain ⟨e, rest, v, r₁, rfl, h₁, -, h₂, rfl, rfl⟩ := mountInstr_dynamicProperty_ok h
    obtain ⟨k', hv, hw, hd'⟩ := hd.dynamic hpl (hi s (hadm.slot_new s rfl)) h₁ h₂
      fun hd₂ hpl₂ h => hd₂.setProperty hpl₂ h
    rw [hprocs, hframe] at hv
    exact ⟨k'.record s v, by simp [Sketch.step, hv, hw], hd'⟩
  | dynamicAttribute name b s =>
    obtain ⟨e, rest, v, r₁, rfl, h₁, -, h₂, rfl, rfl⟩ := mountInstr_dynamicAttribute_ok h
    obtain ⟨k', hv, hw, hd'⟩ := hd.dynamic hpl (hi s (hadm.slot_new s rfl)) h₁ h₂
      fun hd₂ hpl₂ h => hd₂.setAttribute hpl₂ h
    rw [hprocs, hframe] at hv
    exact ⟨k'.record s v, by simp [Sketch.step, hv, hw], hd'⟩
  | dynamicText b s =>
    obtain ⟨e, rest, v, r₁, rfl, h₁, -, h₂, rfl, rfl⟩ := mountInstr_dynamicText_ok h
    obtain ⟨k', hv, hw, hd'⟩ := hd.dynamic hpl (hi s (hadm.slot_new s rfl)) h₁ h₂
      fun hd₂ hpl₂ h => hd₂.setTextContent hpl₂ h
    rw [hprocs, hframe] at hv
    exact ⟨k'.record s v, by simp [Sketch.step, hv, hw], hd'⟩
  | dynamicTextNode b s =>
    obtain ⟨v, r₁, n, h₁, hD, h₂, rfl, hs⟩ := mountInstr_dynamicTextNode_ok h
    subst stack'
    obtain ⟨hv, hr₁⟩ := resolve_describes hd.values h₁
    have hpl₁ : Placing p r₀.document P a (({} : Layout).pushAll pre).slots node stack
        r₁.document := hD ▸ hpl
    have hplc := place_placing h₂ (hpl₁.createText _) hpl₁.grafts.size_le (by simp)
      (by simp [Document.parent?_eq_none_of_size_le]) hpl₁.size_not_open
    refine ⟨(k.add [.text v.contentText]).record s v, ?_,
      ((hd.of_effects hr₁).placeText hpl₁ _ h₂).setLeaf
        (fun hr => hadm.slot_new s rfl (hplc.refs s hr)) _ v⟩
    rw [hprocs, hframe] at hv
    simp [Sketch.step, hv]
  | ternary t =>
    obtain ⟨test, slot, consequent, alternate⟩ := t
    have hbranch : ∀ c : Bool, (if c = true then consequent else alternate).WellFormed :=
      fun c => by cases c <;> exact hp.of_mem_programs hmem (by simp [Instruction.programs])
    obtain ⟨x, r₁, decision, r₂, b, m, h₁, h₃, h₅, rfl, hs⟩ := mountInstr_ternary_ok h
    subst stack'
    obtain ⟨hdec, hr₂⟩ := test_decides h₁ h₃
    rcases hpos : position stack ⟨P, a⟩ with ⟨pos, atRoot⟩
    rw [hpos] at h₅
    dsimp only at h₅ ⊢
    have hd₂ := hd.of_effects hr₂
    have hD : r₂.document = r.document := by rw [hr₂]
    have hpl₂ : Placing p r₀.document P a (({} : Layout).pushAll pre).slots node stack
        r₂.document := hD ▸ hpl
    obtain ⟨hP₂, ha₂⟩ := hpl₂.position_lt hpos
    obtain ⟨hs, hk, hfor, hg, ts, hdesc, hshow⟩ := mountBranch_draws hdraws hplaces
      (hbranch decision) hd₂.forest hP₂ ha₂ (hd₂.steady.owner hown) h₅ decision
    refine ⟨_, ?_, hd₂.fill hpl₂ hpos (hadm.slot_new slot rfl) (hadm.slot_lt slot rfl)
      (fun _ _ h => by cases h) (fun _ => rfl) hg hk hfor hs hshow rfl⟩
    -- the sketch takes the same branch, with the same instance ids
    rw [hd₂.steady.procs, hd₂.steady.config, hd₂.steady.frameOf hown, ← hd₂.next] at hdesc
    rw [hprocs, hframe] at hdec
    cases decision with
    | false =>
      rw [if_neg Bool.false_ne_true] at hdesc
      simp [Sketch.step, hdec, hdesc]
    | true =>
      rw [if_pos rfl] at hdesc
      simp [Sketch.step, hdec, hdesc]
  | loop l =>
    obtain ⟨collection, slot, key, props, shouldUpdate, template, soleChild⟩ := l
    have htemplate : template.WellFormed := hp.of_mem_programs hmem (by simp [Instruction.programs])
    obtain ⟨e, items, hq, h₃, rfl, hs⟩ := mountInstr_loop_ok h
    subst stack'
    obtain ⟨-, heS, hpe⟩ := hpl.open_new e (mem_of_enclosing hq)
    obtain ⟨hs, hk, hfor, hg, ps, ts, hpr, hdesc, hshow⟩ := mountLoop_draws hdraws hplaces
      htemplate hd.forest heS hpe (hd.steady.owner hown) h₃
    have hpos : position stack ⟨P, a⟩ = ({ parent := e }, false) := by simp [position, hq]
    have hloop : ∀ e' v, Slot.loop e items ≠ .leaf e' v := fun _ _ h => by cases h
    have hfill := hd.fill hpl hpos (hadm.slot_new slot rfl) (hadm.slot_lt slot rfl) hloop
      (fun h => absurd h Bool.false_ne_true) hg hk hfor hs hshow rfl
    refine ⟨_, ?_, hfill⟩
    -- an element is open in the sketch too, and its projection gives the same items
    have hin : k.inElement = true := inElement_of_enclosing hd.opened hq
    rw [hprocs, hconfig, hframe] at hpr hdesc
    rw [← hd.next] at hdesc
    simp [Sketch.step, hin, hpr, hdesc, Except.toOption]
  | component c =>
    obtain ⟨factory, slot, body⟩ := c
    have hbody : body.WellFormed := hp.of_mem_programs hmem (by simp [Instruction.programs])
    obtain ⟨x, h₁, rfl, hs⟩ := mountInstr_component_ok h
    subst stack'
    rcases hpos : position stack ⟨P, a⟩ with ⟨pos, atRoot⟩
    rw [hpos] at h₁
    dsimp only at h₁ ⊢
    obtain ⟨hP', ha'⟩ := hpl.position_lt hpos
    obtain ⟨hs, hk, hfor, hg, hx, state, ts, hstate, hdesc, hshow⟩ :=
      mountComponent_draws hdraws hplaces hbody hd.forest hP' ha' h₁
    refine ⟨_, ?_, hd.fill hpl hpos (hadm.slot_new slot rfl) (hadm.slot_lt slot rfl) hx
      (fun _ => rfl) hg hk hfor hs hshow rfl⟩
    -- the sketch's new instance gets the renderer's next id and the same first state
    rw [hprocs] at hstate
    rw [hprocs, hconfig, ← hd.next] at hdesc
    simp only [Sketch.step, Renderer.frameOf, hstate, hdesc, Option.bind_eq_bind, Option.bind_some]
    rfl
  | didMount cb =>
    obtain ⟨h₁, rfl, rfl⟩ := mountInstr_didMount_ok h
    cases h₁
    exact ⟨k, by simp [Sketch.step], hd.keepAll (sameAt_of_nodes rfl) hd.forest
      (.of_instances rfl rfl rfl) rfl hpl.grafts.size_le⟩
  | didUpdate cb =>
    obtain ⟨rfl, rfl, rfl⟩ := mountInstr_didUpdate_ok h
    exact ⟨k, by simp [Sketch.step], hd⟩
  | event name handler s refresh =>
    obtain ⟨e, rest, rfl, h₁, rfl, rfl⟩ := mountInstr_event_ok h
    -- registering changes no node: the sketch's open element is kept as it is
    obtain ⟨hn, hforest, hinst, hs⟩ := register_keeps_nodes hd.forest h₁
    obtain ⟨k', hw, -, hd'⟩ : ∃ k', k.write id = some k' ∧ k'.values = k.values ∧
        Drawing r₀ node (some e :: rest) k' r' :=
      hd.write hpl (fun y _ => sameAt_of_nodes hn y)
        (fun o ho => ho.keep fun y _ => sameAt_of_nodes hn y) hforest hs (by rw [hinst])
    refine ⟨k', by simpa [Sketch.step] using hw, hd'.setSlot (hi s (hadm.slot_new s rfl)) ?_⟩
    intro _ _ h
    cases h

/-- With any fuel, a mount draws what each well-formed program describes: the loop over the
instructions keeps the mount in progress drawing the sketch that has read the same instructions,
from a fresh node and a sketch that has read nothing. -/
theorem mount_draws : ∀ fuel, MountFn.Draws (mount fuel)
  | 0 => fun h _ _ _ _ _ => by cases h
  | fuel + 1 => fun h hq hf hP ha hown => by
    rename_i site q env t r r' n
    have ihd : MountFn.Draws fun s p e t => mount fuel s p e t := mount_draws fuel
    have ihp : MountFn.Places fun s p e t => mount fuel s p e t := mount_places fuel
    rw [mount_succ, run_get_bind] at h
    obtain ⟨acc, r₁, h₁, h₂⟩ := run_bind_ok h
    obtain ⟨u, r₂, h₃, h₄⟩ := run_bind_ok h₂
    obtain ⟨rfl, rfl⟩ := run_pure_ok h₄
    have hloop := run_forIn_ok (fun rest (acc : Mounted × List (Option NodeId)) s =>
        ∃ pre k, q.instructions = pre ++ rest.map Prod.fst ∧
          Placing q r.document t.parent t.anchor (({} : Layout).pushAll pre).slots acc.1 acc.2
            s.document ∧ Building r.document.nodes.size acc.1 acc.2 s.document ∧
          ({ next := r.instances.size + 1 } : Sketch).steps r.procs r.config.duplicateKeys
            (r.frameOf env) pre = some k ∧ Drawing r acc.1 acc.2 k s) ?_ ?_ ?_ h₁
    · obtain ⟨pre, k, hpre, -, -, hsteps, hd⟩ := hloop
      have hmark : r'.document = r₁.document ∧ r'.instances = r₁.instances ∧ r₁.Steady r' := by
        rw [installPlan_run_ok h₃]
        exact ⟨rfl, rfl, .of_instances rfl rfl rfl⟩
      obtain ⟨hD, hI, hs⟩ := hmark
      rw [hD]
      refine ⟨hd.steady.trans hs, hd.kinds, hd.forest, k.top, ?_, hd.top⟩
      rw [List.map_nil, List.append_nil] at hpre
      rw [describe_eq_steps, hpre, hsteps, hI, ← hd.next]
      rfl
    · rintro ⟨instr, j⟩ rest ⟨node₀, stack₀⟩ s ⟨node₁, stack₁⟩ s' ⟨pre, k, hpre, hpl, hb, hsteps, hd⟩
        hrun
      obtain ⟨res, s₁, hm, hy⟩ := run_bind_ok hrun
      obtain ⟨hres, rfl⟩ := run_pure_ok hy
      cases hres
      have he : q.instructions = pre ++ instr :: rest.map Prod.fst := by simpa using hpre
      obtain ⟨k', hstep, hd'⟩ := mountInstr_draws ihd ihp hq he hown hm hpl hb hd
      refine ⟨pre ++ [instr], k', by simp [hpre], mountInstr_placing ihp hq he hm hpl,
        (mountInstr_nests (mount_nests fuel) site env hP node₀ stack₀ instr j).run_ok hd.forest hb hm,
        ?_, hd'⟩
      rw [Sketch.steps_append, hsteps]
      simpa [Sketch.steps] using hstep
    · rintro ⟨instr, j⟩ rest _ s _ s' _ hrun
      obtain ⟨res, s₁, hm, hy⟩ := run_bind_ok hrun
      cases (run_pure_ok hy).1
    · exact ⟨[], _, by simp [List.zipIdx_map_fst], Placing.start hP ha site q,
        Building.start (Nat.le_refl _) site q, rfl, Drawing.start hf site q⟩

/-- Mounting a well-formed program builds the trees it describes: where the mount succeeds, the
program describes trees in the frame it was mounted in, with instance ids counted from the
renderer's next one, and the nodes it inserts before the target's anchor, in order, have their
HTML text. -/
theorem mount_builds_described {fuel : Nat} {site : List Nat} {q : Program} {env : Env}
    {t : Target} {r r' : Renderer} {n : Mounted} (hq : q.WellFormed) (hf : r.document.Forest)
    (hP : t.parent < r.document.nodes.size) (ha : ∀ b ∈ t.anchor, b < r.document.nodes.size)
    (hown : ∀ id ∈ env.owner, (r.instance? id).isSome)
    (h : (mount fuel site q env t).run r = .ok n r') :
    ∃ ts next, describe r.procs r.config.duplicateKeys (r.frameOf env) (r.instances.size + 1) q =
        some (ts, next) ∧
      r'.document.children t.parent =
        spliceBefore (r.document.children t.parent) t.anchor n.roots ∧
      n.roots.map r'.document.toHtml = ts.map Tree.html := by
  obtain ⟨-, -, hfor, ts, hdesc, hshow⟩ := mount_draws fuel h hq hf hP ha hown
  exact ⟨ts, _, hdesc, (mount_places fuel h hq hP ha).target, hshow.toHtml hfor⟩

/-- A paragraph with a title showing the props' name, then a text node. -/
def greeting : Program :=
  .mk [.openElement (.named "p"), .staticAttribute "title" "hello", .dynamicText (.prop "name") 0,
    .closeElement, .staticTextNode "!"] 1

theorem greeting_wellFormed : greeting.WellFormed := by
  refine .mk ⟨?_, rfl⟩ (by simp [Instruction.programs])
  simp only [Layout.admits_cons, Layout.admits_nil, and_true]
  refine ⟨⟨rfl, ?_, ?_, ?_⟩, ⟨rfl, ?_, ?_, ?_⟩, ⟨rfl, ?_, ?_, ?_⟩, ⟨rfl, ?_, ?_, ?_⟩,
    ⟨rfl, ?_, ?_, ?_⟩⟩ <;> simp [Instruction.slot?, Instruction.source?, Binding.sibling?, Layout.push]

/-- A renderer whose document is one container. -/
def greetingRenderer : Renderer :=
  { document := ((default : Document).createContainer "div").2 }

theorem mount_builds_described_greeting :
    ∃ n r', (mount 1 [] greeting { props := .obj [("name", .str "Ada")] } ⟨0, none⟩).run
        greetingRenderer = .ok n r' ∧
      ∃ ts next, describe greetingRenderer.procs greetingRenderer.config.duplicateKeys
          (greetingRenderer.frameOf { props := .obj [("name", .str "Ada")] })
          (greetingRenderer.instances.size + 1) greeting = some (ts, next) ∧
        r'.document.children 0 = spliceBefore (greetingRenderer.document.children 0) none n.roots ∧
        n.roots.map r'.document.toHtml = ts.map Tree.html := by
  obtain ⟨n, r', h⟩ : ∃ n r', (mount 1 [] greeting { props := .obj [("name", .str "Ada")] }
      ⟨0, none⟩).run greetingRenderer = .ok n r' := ⟨_, _, by with_unfolding_all rfl⟩
  exact ⟨n, r', h, mount_builds_described greeting_wellFormed
    (Document.Forest.empty.createContainer "div") (by decide) (fun _ hb => absurd hb (by simp))
    (fun _ hid => absurd hid (by simp)) h⟩

end Pass

end Canopy
