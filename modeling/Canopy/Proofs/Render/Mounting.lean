import Mathlib
import Canopy.Proofs.Render.Passes
import Canopy.Proofs.Render.Runs

/-!
# Mounting a well-formed program

A mount reads a program's instructions from the left, keeping the node built so far and the
open constructs (elements, and `none` for fragments, innermost first). `Mounting p pre node
stack` is what holds after the instructions `pre`: the node is one of `p` with a slot per slot
index, the slot of every instruction read holds what it may, every node a slot holds is well
formed, and the open constructs match the open frames of the layout of `pre`.

Each instruction of a well-formed program is admissible where it stands, and that is all a
mount needs: an instruction on an element finds an element innermost, a loop finds an element
around it, a slot source finds a value in its slot, and a slot written is not one written
before. So each instruction keeps the invariant (`mountInstr_spec`), and with fuel above the
program's nesting depth a mount builds a well-formed node of its program (`mount_sound`). No
step of it meets a broken invariant: what can stop it is a function of the program failing.
-/

open Std.Do

set_option mvcgen.warning false

namespace Canopy

namespace Pass

/-- What a mount has built after the instructions `pre` of `p`. -/
structure Mounting (p : Program) (pre : List Instruction) (node : Mounted)
    (stack : List (Option NodeId)) : Prop where
  program : node.program = p
  size : node.slots.size = p.slotCount
  /-- An open construct is an element exactly where the open frame is one. -/
  frames : stack.map Option.isSome = (({} : Layout).pushAll pre).frames
  fills : ∀ i ∈ pre, i.Fills node.slots
  nodes : ∀ sl ∈ node.slots, ∀ m ∈ sl.nodes, m.WellFormed

namespace Mounting

variable {p : Program} {pre : List Instruction} {node node' : Mounted}
  {stack stack' : List (Option NodeId)} {i : Instruction}

/-- Nothing is read yet: a fresh node, nothing open. -/
theorem start (site : List Nat) (p : Program) : Mounting p [] (Mounted.fresh site p) [] where
  program := rfl
  size := Array.size_replicate
  frames := rfl
  fills := fun _ hi => absurd hi List.not_mem_nil
  nodes := by
    intro sl hsl m hm
    rw [Mounted.slots_fresh, Array.mem_replicate] at hsl
    rw [hsl.2] at hm
    exact absurd hm List.not_mem_nil

theorem wellFormed (h : Mounting p p.instructions node stack) (hp : p.WellFormed) :
    node.WellFormed :=
  Mounted.WellFormed.intro (h.program ▸ hp) (h.program ▸ h.size) (h.program ▸ h.fills) h.nodes

private theorem frames_append
    (henter : i.enter (({} : Layout).pushAll pre).frames = some (stack'.map Option.isSome)) :
    stack'.map Option.isSome = (({} : Layout).pushAll (pre ++ [i])).frames := by
  rw [Layout.pushAll_append, Layout.pushAll_singleton]
  simp [Layout.push, henter]

/-- A node with the same program and slots is as far mounted: roots do not count. -/
theorem of_eq (h : Mounting p pre node stack) (hprog : node'.program = node.program)
    (hslots : node'.slots = node.slots) : Mounting p pre node' stack where
  program := hprog.trans h.program
  size := hslots ▸ h.size
  frames := h.frames
  fills := hslots ▸ h.fills
  nodes := hslots ▸ h.nodes

theorem addRoot (h : Mounting p pre node stack) (r : RootRef) :
    Mounting p pre (node.addRoot r) stack :=
  h.of_eq rfl rfl

theorem addRootIf (h : Mounting p pre node stack) (c : Bool) (r : RootRef) :
    Mounting p pre (if c = true then node.addRoot r else node) stack := by
  split
  · exact h.addRoot r
  · exact h

/-- An instruction without a slot leaves the slots as they are. -/
theorem keep (h : Mounting p pre node stack) (hslot : i.slot? = none)
    (henter : i.enter (({} : Layout).pushAll pre).frames = some (stack'.map Option.isSome)) :
    Mounting p (pre ++ [i]) node stack' where
  program := h.program
  size := h.size
  frames := frames_append henter
  fills := by
    intro j hj
    rcases List.mem_append.1 hj with hj | hj
    · exact h.fills j hj
    · rw [List.mem_singleton.1 hj]
      exact Instruction.fills_of_slot?_eq_none hslot
  nodes := h.nodes

/-- An instruction with a slot fills it, and the slots before it stay filled. -/
theorem set (h : Mounting p pre node stack)
    (hadm : Layout.Admissible p.slotCount (({} : Layout).pushAll pre) i) {s : Nat}
    (hslot : i.slot? = some s) {x : Slot} (hx : i.Holds x) (hn : ∀ m ∈ x.nodes, m.WellFormed)
    (henter : i.enter (({} : Layout).pushAll pre).frames = some (stack'.map Option.isSome)) :
    Mounting p (pre ++ [i]) (node.setSlot s x) stack' where
  program := h.program
  size := by rw [Mounted.slots_setSlot, Array.size_setIfInBounds, h.size]
  frames := frames_append henter
  fills := by
    intro j hj
    rw [Mounted.slots_setSlot]
    rcases List.mem_append.1 hj with hj | hj
    · -- an earlier instruction has a slot of its own
      refine (h.fills j hj).setIfInBounds (fun hjs => ?_) x
      exact hadm.slot_new s hslot (Layout.mem_slots_pushAll hj hjs {})
    · rw [List.mem_singleton.1 hj]
      exact Instruction.fills_setIfInBounds_self hslot (h.size ▸ hadm.slot_lt s hslot) hx
  nodes := Slot.nodes_setIfInBounds h.nodes hn s

theorem source (h : Mounting p pre node stack)
    (hadm : Layout.Admissible p.slotCount (({} : Layout).pushAll pre) i) :
    ∀ t ∈ i.source?, ∃ e v, node.slot? t = some (.leaf e v) := by
  intro t ht
  obtain ⟨j, hj, hjt⟩ := Layout.exists_of_mem_values_pushAll (hadm.source t ht)
  exact (h.fills j hj).leaf hjt

theorem element (h : Mounting p pre node stack)
    (hhead : (({} : Layout).pushAll pre).frames.head? = some true) :
    ∃ e rest, stack = some e :: rest := by
  rw [← h.frames] at hhead
  match stack, hhead with
  | some e :: rest, _ => exact ⟨e, rest, rfl⟩

theorem fragment (h : Mounting p pre node stack)
    (hhead : (({} : Layout).pushAll pre).frames.head? = some false) :
    ∃ rest, stack = none :: rest := by
  rw [← h.frames] at hhead
  match stack, hhead with
  | none :: rest, _ => exact ⟨rest, rfl⟩

theorem exists_enclosing (h : Mounting p pre node stack) (hin : true ∈ (({} : Layout).pushAll pre).frames) :
    ∃ e, enclosing stack = some e := by
  rw [← h.frames] at hin
  obtain ⟨o, ho, hs⟩ := List.mem_map.1 hin
  obtain ⟨e, rfl⟩ := Option.isSome_iff_exists.1 hs
  cases hfind : stack.findSome? id with
  | some e' => exact ⟨e', hfind⟩
  | none => exact absurd (List.findSome?_eq_none_iff.1 hfind _ ho) (by simp)

end Mounting

/-- Mounting an instruction of a well-formed program where it stands keeps the invariant; only
a function of the program failing can stop it. -/
theorem mountInstr_spec {sub : MountFn} {d : Nat} (hsub : MountFn.Sound sub d) (fs : List Fiber)
    {p : Program} (hp : p.WellFormed) (hd : p.depth ≤ d) {pre suf : List Instruction}
    {instr : Instruction} (he : p.instructions = pre ++ instr :: suf) (site : List Nat)
    (env : Env) (target : Target) {node : Mounted} {stack : List (Option NodeId)}
    (h : Mounting p pre node stack) (k : Nat) :
    ⦃fun r => ⌜r.fibers = fs⌝⦄ mountInstr sub site env target node stack instr k
    ⦃Outcome fs fun r => Mounting p (pre ++ [instr]) r.1 r.2⦄ := by
  have hadm := hp.admissible he
  have hmem : instr ∈ p.instructions := by simp [he]
  -- the sub-programs of the instruction are well formed and nest less deeply than `d`
  have hsubp : ∀ q ∈ instr.programs, q.WellFormed ∧ q.depth < d := fun q hq =>
    ⟨hp.of_mem_programs hmem hq, Nat.lt_of_lt_of_le (Program.depth_lt_of_mem_programs hmem hq) hd⟩
  have hscript := script_spec fs
  have hstay : ∀ {i : Instruction}, i.enter (({} : Layout).pushAll pre).frames =
      some (({} : Layout).pushAll pre).frames →
      i.enter (({} : Layout).pushAll pre).frames = some (stack.map Option.isSome) := by
    intro i henter
    rw [h.frames]
    exact henter
  have hframes := hadm.frames
  cases instr with
  | openElement tag =>
    mvcgen [mountInstr, RenderM.docWith]
    exact ⟨h.keep rfl (by simp [Instruction.enter, h.frames]), ‹_›⟩
  | closeElement =>
    have hhead : (({} : Layout).pushAll pre).frames.head? = some true := by
      simpa [Instruction.enter] using hframes
    obtain ⟨e, rest, rfl⟩ := h.element hhead
    have hplace := place_spec fs rest node target e
    mvcgen [mountInstr, hplace]
    rename_i hn
    exact ⟨(h.keep rfl (by simp [Instruction.enter, ← h.frames])).of_eq hn.1.1 hn.1.2, hn.2⟩
  | openFragment =>
    mvcgen [mountInstr]
    exact ⟨h.keep rfl (by simp [Instruction.enter, h.frames]), ‹_›⟩
  | closeFragment =>
    have hhead : (({} : Layout).pushAll pre).frames.head? = some false := by
      simpa [Instruction.enter] using hframes
    obtain ⟨rest, rfl⟩ := h.fragment hhead
    mvcgen [mountInstr]
    exact ⟨h.keep rfl (by simp [Instruction.enter, ← h.frames]), ‹_›⟩
  | staticProperty prop v =>
    obtain ⟨hhead, henter⟩ := Instruction.enter_of_onElement rfl hframes
    obtain ⟨e, rest, rfl⟩ := h.element hhead
    have hwrite := writeProperty_spec fs e prop v
    mvcgen [mountInstr, current, hwrite]
    exact ⟨h.keep rfl (hstay henter), ‹_›⟩
  | staticAttribute name v =>
    obtain ⟨hhead, henter⟩ := Instruction.enter_of_onElement rfl hframes
    obtain ⟨e, rest, rfl⟩ := h.element hhead
    mvcgen [mountInstr, current, RenderM.doc]
    exact ⟨h.keep rfl (hstay henter), ‹_›⟩
  | staticText t =>
    obtain ⟨hhead, henter⟩ := Instruction.enter_of_onElement rfl hframes
    obtain ⟨e, rest, rfl⟩ := h.element hhead
    mvcgen [mountInstr, current, RenderM.doc]
    exact ⟨h.keep rfl (hstay henter), ‹_›⟩
  | staticTextNode t =>
    have hplace := fun n => place_spec fs stack node target n
    mvcgen [mountInstr, RenderM.docWith, hplace]
    rename_i hn
    exact ⟨(h.keep rfl (hstay rfl)).of_eq hn.1.1 hn.1.2, hn.2⟩
  | dynamicProperty prop b s =>
    obtain ⟨hhead, henter⟩ := Instruction.enter_of_onElement rfl hframes
    obtain ⟨e, rest, rfl⟩ := h.element hhead
    have hresolve := resolve_spec fs b (Instruction.dynamicProperty prop b s).opcode env node
      (h.source hadm)
    have hwrite := writeProperty_spec fs e prop
    mvcgen [mountInstr, current, hresolve, hwrite]
    exact ⟨h.set hadm rfl ⟨e, _, rfl⟩ (by simp [Slot.nodes]) (hstay henter), ‹_›⟩
  | dynamicAttribute name b s =>
    obtain ⟨hhead, henter⟩ := Instruction.enter_of_onElement rfl hframes
    obtain ⟨e, rest, rfl⟩ := h.element hhead
    have hresolve := resolve_spec fs b (Instruction.dynamicAttribute name b s).opcode env node
      (h.source hadm)
    mvcgen [mountInstr, current, hresolve, RenderM.doc]
    exact ⟨h.set hadm rfl ⟨e, _, rfl⟩ (by simp [Slot.nodes]) (hstay henter), ‹_›⟩
  | dynamicText b s =>
    obtain ⟨hhead, henter⟩ := Instruction.enter_of_onElement rfl hframes
    obtain ⟨e, rest, rfl⟩ := h.element hhead
    have hresolve := resolve_spec fs b .textDynamicContent env node (h.source hadm)
    mvcgen [mountInstr, current, hresolve, RenderM.doc]
    exact ⟨h.set hadm rfl ⟨e, _, rfl⟩ (by simp [Slot.nodes]) (hstay henter), ‹_›⟩
  | dynamicTextNode b s =>
    have hresolve := resolve_spec fs b (Instruction.dynamicTextNode b s).opcode env node
      (h.source hadm)
    have hplace := fun n => place_spec fs stack node target n
    mvcgen [mountInstr, hresolve, RenderM.docWith, hplace]
    rename_i hn
    exact ⟨(h.of_eq hn.1.1 hn.1.2).set hadm rfl ⟨_, _, rfl⟩ (by simp [Slot.nodes]) (hstay rfl),
      hn.2⟩
  | ternary t =>
    have hbranch : ∀ (c : Bool) site pos, ⦃fun r => ⌜r.fibers = fs⌝⦄
        mountBranch sub site (if c = true then t.consequent else t.alternate) env pos
        ⦃Outcome fs fun bm => bm.1.WellFormed ∧
          bm.1.program = if c = true then t.consequent else t.alternate⦄ := by
      intro c site pos
      have hq := hsubp (if c = true then t.consequent else t.alternate)
        (by cases c <;> simp [Instruction.programs])
      exact mountBranch_spec hsub fs site env hq.1 hq.2 pos
    mvcgen [mountInstr, Bind.test, hscript, orBinding, hbranch]
    rename_i hb
    refine ⟨Mounting.addRootIf ?_ _ _, hb.2⟩
    exact h.set hadm rfl ⟨_, _, _, _, rfl, hb.1.2⟩ (by simpa [Slot.nodes] using hb.1.1) (hstay rfl)
  | loop l =>
    obtain ⟨hin, henter⟩ := Instruction.enter_loop hframes
    obtain ⟨parent, hparent⟩ := h.exists_enclosing hin
    have ht := hsubp l.template (by simp [Instruction.programs])
    have hloop := mountLoop_spec hsub fs (site ++ [k, 0]) ht.1 ht.2 env parent
    mvcgen [mountInstr, hparent, hloop]
    rename_i hitems
    refine ⟨h.set hadm rfl ⟨_, _, rfl, hitems.1.1, fun it hit => (hitems.1.2 it hit).2⟩ ?_
      (hstay henter), hitems.2⟩
    simp only [Slot.nodes, List.mem_map]
    rintro m ⟨it, hit, rfl⟩
    exact (hitems.1.2 it hit).1
  | component c =>
    have hc := hsubp c.body (by simp [Instruction.programs])
    have hcomp := mountComponent_spec hsub fs (site ++ [k, 0]) env hc.1 hc.2
      (position stack target).1
    mvcgen [mountInstr, hcomp]
    rename_i hsl
    obtain ⟨o, n, rfl, hn, hnp⟩ := hsl.1
    refine ⟨Mounting.addRootIf ?_ _ _, hsl.2⟩
    exact h.set hadm rfl ⟨o, n, rfl, hnp⟩ (by simpa [Slot.nodes] using hn) (hstay rfl)
  | didMount cb =>
    mvcgen [mountInstr, RenderM.defer]
    exact ⟨h.keep rfl (hstay rfl), ‹_›⟩
  | didUpdate cb =>
    mvcgen [mountInstr]
    exact ⟨h.keep rfl (hstay rfl), ‹_›⟩
  | event name handler s refresh =>
    obtain ⟨hhead, henter⟩ := Instruction.enter_of_onElement rfl hframes
    obtain ⟨e, rest, rfl⟩ := h.element hhead
    mvcgen [mountInstr, current, register]
    exact ⟨h.set hadm rfl ⟨e, rfl⟩ (by simp [Slot.nodes]) (hstay henter), ‹_›⟩

/-- With fuel above a program's nesting depth, a mount builds a well-formed node of every
well-formed program. -/
theorem mount_sound : ∀ fuel, MountFn.Sound (mount fuel) fuel
  | 0 => fun _ _ _ _ _ _ hd => absurd hd (Nat.not_lt_zero _)
  | fuel + 1 => by
    intro site p env target fs hp hd
    have ih := mount_sound fuel
    have hinstall := installPlan_spec fs site
    rw [mount_succ]
    mvcgen [mountSteps, hinstall]
    case inv1 =>
      -- the cursor's first field is the list of instructions read
      exact post⟨fun x r => ⌜Mounting p (x.1.1.map Prod.fst) x.2.1 x.2.2 ∧ r.fibers = fs⌝,
        fun e r => ⌜e.isDefensive = false ∧ r.fibers = fs⌝⟩
    case vc1.step =>
      rename_i pref cur suff hsplit b s hinv
      simp only [SPred.down_pure] at hinv
      have he : p.instructions = pref.map Prod.fst ++ cur.1 :: suff.map Prod.fst := by
        rw [← List.zipIdx_map_fst 0 p.instructions, hsplit]
        simp
      have hstep := mountInstr_spec ih fs hp (Nat.lt_succ_iff.1 hd) he site env target hinv.1 cur.2
      mvcgen [hstep]
      · exact hinv.2
      · rename_i hm
        simpa using hm
    case vc2.pre => exact ⟨Mounting.start site p, ‹_›⟩
    case vc3.post.success.pre =>
      rename_i hinv
      exact hinv.2
    case vc4.post.success.post.success =>
      rename_i hinv _ _ _
      simp only [SPred.down_pure, List.zipIdx_map_fst] at hinv
      exact ⟨⟨hinv.1.wellFormed hp, hinv.1.program⟩, ‹_›⟩
    case vc5.post.except => exact ExceptConds.entails.refl _

end Pass

end Canopy
