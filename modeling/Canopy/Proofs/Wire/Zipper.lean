import Canopy.Proofs.Wire.Grammar

/-!
# Reading a program part way

A program is read one instruction at a time. Part way through, some elements and fragments
are open: a `Wire.Zipper` keeps them, innermost first, each with the markup completed inside
it so far, together with the markup completed at the top. `Zipper.step` reads one more
instruction: an open starts a level, a close finishes the innermost level (which must be of
its kind) and any other instruction is a leaf of the innermost level.

The rules of `Wire.WellFormed` are stated on finished forests. Here they are stated on a
zipper, as `Zipper.Valid`: the placement rules in the form `Zipper.Fit`, which follows the
open levels from the innermost out, and the instruction-level rules on the instructions read
so far. The main results are

* `Zipper.valid_step`: one more instruction keeps a zipper valid exactly when it is valid
  where it stands (`Zipper.Local`);
* `Zipper.stepAll_instrsList`: reading the instructions of a forest adds the forest to the
  innermost level;

so a forest is well formed exactly when reading its instructions goes through valid zippers.
-/

namespace Canopy.Wire

/-! ### Children of an element -/

/-- A pair `a`, `b` occurs in order in `l₁ ++ l₂` when it occurs in one part or `a` is in the
first and `b` in the second. -/
lemma pair_sublist_append {α : Type} {a b : α} {l₁ l₂ : List α} :
    List.Sublist [a, b] (l₁ ++ l₂) ↔
      List.Sublist [a, b] l₁ ∨ List.Sublist [a, b] l₂ ∨ (a ∈ l₁ ∧ b ∈ l₂) := by
  rw [List.sublist_append_iff]
  constructor
  · rintro ⟨r₁, r₂, h, h₁, h₂⟩
    match r₁, r₂, h with
    | [], _, rfl => exact .inr (.inl h₂)
    | [_], [_], rfl =>
      exact .inr (.inr ⟨List.singleton_sublist.1 h₁, List.singleton_sublist.1 h₂⟩)
    | [_, _], [], rfl => exact .inl h₁
  · rintro (h | h | ⟨ha, hb⟩)
    · exact ⟨[a, b], [], by simp, h, List.nil_sublist _⟩
    · exact ⟨[], [a, b], rfl, List.nil_sublist _, h⟩
    · exact ⟨[a], [b], rfl, List.singleton_sublist.2 ha, List.singleton_sublist.2 hb⟩

/-- How the children of one part of an element may meet those of the next: text content on one
side and a child on the other never do, nor a loop before a child. -/
structure KidsCross (a b : List Role) : Prop where
  text_left : Role.setsText ∈ a → ∀ r ∈ b, r.addsChild = false
  text_right : Role.setsText ∈ b → ∀ r ∈ a, r.addsChild = false
  loop_left : Role.loop ∈ a → ∀ r ∈ b, r.addsChild = false

/-- The children of an element fit together when each part does and the parts meet well. -/
theorem kidsFit_append {a b : List Role} :
    KidsFit (a ++ b) ↔ KidsFit a ∧ KidsFit b ∧ KidsCross a b := by
  constructor
  · intro h
    have text : ∀ r r', r ∈ a ++ b → r' ∈ a ++ b → r = .setsText → r'.addsChild = false := by
      rintro r r' hr hr' rfl
      exact h.text_alone hr r' hr'
    refine ⟨⟨fun ht r hr => text _ r (by simp [ht]) (by simp [hr]) rfl,
        fun r hr => h.loop_last r (hr.trans (List.sublist_append_left a b))⟩,
      ⟨fun ht r hr => text _ r (by simp [ht]) (by simp [hr]) rfl,
        fun r hr => h.loop_last r (hr.trans (List.sublist_append_right a b))⟩,
      ⟨fun ht r hr => text _ r (by simp [ht]) (by simp [hr]) rfl,
        fun ht r hr => text _ r (by simp [ht]) (by simp [hr]) rfl,
        fun hl r hr => h.loop_last r (pair_sublist_append.2 (.inr (.inr ⟨hl, hr⟩)))⟩⟩
  · rintro ⟨ha, hb, hx⟩
    refine ⟨fun ht r hr => ?_, fun r hr => ?_⟩
    · rcases List.mem_append.1 ht with ht | ht <;> rcases List.mem_append.1 hr with hr | hr
      · exact ha.text_alone ht r hr
      · exact hx.text_left ht r hr
      · exact hx.text_right ht r hr
      · exact hb.text_alone ht r hr
    · rcases pair_sublist_append.1 hr with h | h | ⟨hl, hr⟩
      · exact ha.loop_last r h
      · exact hb.loop_last r h
      · exact hx.loop_left hl r hr

@[simp] lemma kidsFit_nil : KidsFit [] :=
  ⟨fun h => absurd h List.not_mem_nil, fun _ h => absurd h.length_le (by simp)⟩

@[simp] lemma kidsFit_singleton (r : Role) : KidsFit [r] := by
  refine ⟨fun ht r' hr' => ?_, fun r' h => absurd h.length_le (by simp)⟩
  simp only [List.mem_singleton] at ht hr'
  subst ht hr'
  rfl

/-! ### Small lemmas on forests -/

namespace Markup

@[simp] lemma instrsList_nil : instrsList [] = [] := rfl

@[simp] lemma instrsList_append (f g : List Markup) :
    instrsList (f ++ g) = instrsList f ++ instrsList g := by
  induction f with
  | nil => rfl
  | cons m f ih => simp [instrsList, ih]

@[simp] lemma instrsList_singleton (m : Markup) : instrsList [m] = m.instrs := by
  simp [instrsList]

@[simp] lemma kidsList_append (f g : List Markup) :
    kidsList (f ++ g) = kidsList f ++ kidsList g := by
  induction f with
  | nil => rfl
  | cons m f ih => simp [kidsList, ih]

@[simp] lemma kidsList_singleton (m : Markup) : kidsList [m] = m.kids := by
  simp [kidsList]

@[simp] lemma placedList_append {d e : Bool} (f g : List Markup) :
    PlacedList d e (f ++ g) ↔ PlacedList d e f ∧ PlacedList d e g := by
  induction f with
  | nil => simp [PlacedList]
  | cons m f ih => simp [PlacedList, ih, and_assoc]

@[simp] lemma placedList_singleton {d e : Bool} (m : Markup) :
    PlacedList d e [m] ↔ m.Placed d e := by
  simp [PlacedList]

@[simp] lemma placedList_nil {d e : Bool} : PlacedList d e [] := trivial

end Markup

lemma Instr.eq_bare {x : Instr} (hx : x.Admitted) (hk : x.op.operandKinds = []) :
    x = ⟨x.op, []⟩ := by
  have hargs : x.args = [] := by
    rw [Instr.Admitted, hk] at hx
    exact List.forall₂_nil_left_iff.1 hx
  cases x
  simp_all

/-! ### Zippers -/

/-- An element or fragment that is open while a program is read, with the markup completed
inside it so far. -/
inductive Level where
  | element (opening : Instr) (done : List Markup)
  | fragment (done : List Markup)

namespace Level

/-- The markup completed inside a level. -/
def done : Level → List Markup
  | .element _ d | .fragment d => d

/-- The instruction that opened a level. -/
def opening : Level → Instr
  | .element o _ => o
  | .fragment _ => Markup.openFragment

/-- A level with one more piece of markup completed inside it. -/
def add : Level → Markup → Level
  | .element o d, m => .element o (d ++ [m])
  | .fragment d, m => .fragment (d ++ [m])

/-- The instructions read for a level so far. -/
def instrs (l : Level) : List Instr :=
  l.opening :: Markup.instrsList l.done

/-- Whether the innermost of some open levels is an element. -/
def direct : List Level → Bool
  | .element .. :: _ => true
  | _ => false

/-- Whether some open level is an element. -/
def enclosed : List Level → Bool
  | [] => false
  | .element .. :: _ => true
  | .fragment _ :: ls => enclosed ls

end Level

/-- A program read part way: the open levels, innermost first, and the markup completed at the
top. -/
structure Zipper where
  /-- The open levels, innermost first. -/
  levels : List Level
  /-- The markup completed at the top. -/
  top : List Markup

namespace Zipper

/-- Nothing read yet. -/
def empty : Zipper := ⟨[], []⟩

/-- Complete one more piece of markup inside the innermost level. -/
def add (z : Zipper) (m : Markup) : Zipper :=
  match z.levels with
  | [] => ⟨[], z.top ++ [m]⟩
  | l :: ls => ⟨l.add m :: ls, z.top⟩

/-- Read one instruction; a close that does not match the innermost level reads nothing. -/
def step (z : Zipper) (x : Instr) : Option Zipper :=
  match x.op.role, z.levels with
  | .opensElement, ls => some ⟨.element x [] :: ls, z.top⟩
  | .opensFragment, ls => some ⟨.fragment [] :: ls, z.top⟩
  | .closesElement, .element o d :: ls => some (Zipper.add ⟨ls, z.top⟩ (.element o d))
  | .closesElement, _ => none
  | .closesFragment, .fragment d :: ls => some (Zipper.add ⟨ls, z.top⟩ (.fragment d))
  | .closesFragment, _ => none
  | _, _ => some (z.add (.leaf x))

/-- Read a list of instructions. -/
def stepAll (z : Zipper) (xs : List Instr) : Option Zipper :=
  xs.foldlM step z

/-- The instructions read so far. -/
def instrs (z : Zipper) : List Instr :=
  Markup.instrsList z.top ++ z.levels.reverse.flatMap Level.instrs

/-- The placement rules, read from the innermost open level out. `rs` are the roles of the
children that the levels inside have already given the innermost element reached: an element
level checks its children together with them, and hands a single element on; a fragment level
hands its children on. -/
def Fit (top : List Markup) : List Level → List Role → Prop
  | [], _ => Markup.PlacedList false false top
  | .element o d :: ls, rs =>
    o.op.role = .opensElement ∧ Markup.PlacedList true true d ∧
      KidsFit ((Markup.kidsList d).map Markup.role ++ rs) ∧ Fit top ls [.opensElement]
  | .fragment d :: ls, rs =>
    Markup.PlacedList false (Level.enclosed ls) d ∧
      Fit top ls ((Markup.kidsList d).map Markup.role ++ rs)

/-- Whether children with roles `new` may join, after children `rs`, the innermost element
reached from the open levels. -/
def Accepts : List Level → List Role → List Role → Prop
  | [], _, _ => True
  | .element _ d :: _, rs, new =>
    KidsFit new ∧ KidsCross ((Markup.kidsList d).map Markup.role ++ rs) new
  | .fragment d :: ls, rs, new => Accepts ls ((Markup.kidsList d).map Markup.role ++ rs) new

/-- More children for the innermost element keep the placement rules exactly when the element
accepts them. -/
theorem fit_append (top : List Markup) (ls : List Level) (rs new : List Role) :
    Fit top ls (rs ++ new) ↔ Fit top ls rs ∧ Accepts ls rs new := by
  induction ls generalizing rs with
  | nil => simp [Fit, Accepts]
  | cons l ls ih =>
    cases l with
    | element o d =>
      simp only [Fit, Accepts, ← List.append_assoc, kidsFit_append (a := _ ++ rs)]
      tauto
    | fragment d =>
      simp only [Fit, Accepts, ← List.append_assoc, ih]
      tauto

/-- Completing a piece of markup keeps the placement rules exactly when it stands where its
role allows and the innermost element accepts its children. -/
theorem fit_add (z : Zipper) (m : Markup) :
    Fit (z.add m).top (z.add m).levels [] ↔
      Fit z.top z.levels [] ∧ m.Placed (Level.direct z.levels) (Level.enclosed z.levels) ∧
        Accepts z.levels [] (m.kids.map Markup.role) := by
  rcases z with ⟨_ | ⟨l, ls⟩, top⟩
  · simp [add, Fit, Accepts, Level.direct, Level.enclosed]
  · cases l with
    | element o d =>
      simp only [add, Level.add, Fit, Markup.kidsList_append, Markup.kidsList_singleton,
        List.map_append, List.append_nil, Markup.placedList_append, Markup.placedList_singleton,
        kidsFit_append, Accepts, Level.direct, Level.enclosed]
      tauto
    | fragment d =>
      have h := fit_append top ls ((Markup.kidsList d).map Markup.role) (m.kids.map Markup.role)
      simp only [add, Level.add, Fit, Markup.kidsList_append, Markup.kidsList_singleton,
        List.map_append, List.append_nil, Markup.placedList_append, Markup.placedList_singleton,
        Accepts, Level.direct, Level.enclosed, h]
      tauto

/-- Where an instruction of a given role may stand, as far as the shape goes: an open element
must be accepted as a child of its element, closes and fragment opens may stand anywhere, and a
leaf must stand where its role allows and be accepted as a child. -/
def Placeable (z : Zipper) (x : Instr) : Prop :=
  match x.op.role with
  | .opensElement => Accepts z.levels [] [.opensElement]
  | .opensFragment | .closesElement | .closesFragment => True
  | _ => (Markup.leaf x).Placed (Level.direct z.levels) (Level.enclosed z.levels) ∧
      Accepts z.levels [] [x.op.role]

/-- Reading one instruction keeps the placement rules exactly when it is placeable. -/
theorem fit_step {z z' : Zipper} {x : Instr} (h : z.step x = some z') :
    Fit z'.top z'.levels [] ↔ Fit z.top z.levels [] ∧ z.Placeable x := by
  rcases z with ⟨ls, top⟩
  have opened : Fit top ls [.opensElement] ↔ Fit top ls [] ∧ Accepts ls [] [.opensElement] :=
    fit_append top ls [] [.opensElement]
  unfold Placeable
  cases hr : x.op.role
  case opensElement =>
    simp only [step, hr, Option.some.injEq] at h
    subst h
    simp [Fit, opened, hr, Markup.kidsList]
  case opensFragment =>
    simp only [step, hr, Option.some.injEq] at h
    subst h
    simp [Fit, Markup.kidsList]
  case closesElement =>
    rcases ls with _ | ⟨_ | _, ls⟩ <;> simp only [step, hr, Option.some.injEq, reduceCtorEq] at h
    subst h
    have outer : Fit top ls [.opensElement] ↔ Fit top ls [] ∧ Accepts ls [] [.opensElement] :=
      fit_append top ls [] [.opensElement]
    -- the element's own rules move from its level into its place in the level below
    rw [fit_add]
    simp only [Fit, Markup.Placed, Markup.kids, List.map_cons, List.map_nil, Markup.role,
      List.append_nil, outer]
    tauto
  case closesFragment =>
    rcases ls with _ | ⟨_ | _, ls⟩ <;> simp only [step, hr, Option.some.injEq, reduceCtorEq] at h
    subst h
    rename_i d
    have inner := fit_append top ls [] ((Markup.kidsList d).map Markup.role)
    rw [List.nil_append] at inner
    rw [fit_add]
    simp only [Fit, Markup.Placed, Markup.kids, List.append_nil, inner]
    tauto
  all_goals
    simp only [step, hr, Option.some.injEq] at h
    subst h
    rw [fit_add]
    simp [Markup.kids, Markup.role, hr]

/-! ### The instructions read -/

lemma instrs_add (z : Zipper) (m : Markup) : (z.add m).instrs = z.instrs ++ m.instrs := by
  rcases z with ⟨_ | ⟨l, ls⟩, top⟩
  · simp [add, instrs]
  · cases l <;> simp [add, instrs, Level.add, Level.instrs, Level.opening, Level.done]

/-- Reading an instruction with its operands adds it to the instructions read. -/
theorem step_instrs {z z' : Zipper} {x : Instr} (h : z.step x = some z') (hx : x.Admitted) :
    z'.instrs = z.instrs ++ [x] := by
  rcases z with ⟨ls, top⟩
  cases hr : x.op.role
  case opensElement =>
    simp only [step, hr, Option.some.injEq] at h
    subst h
    simp [instrs, Level.instrs, Level.opening, Level.done]
  case opensFragment =>
    simp only [step, hr, Option.some.injEq] at h
    subst h
    have hop : x.op = .fragmentOpen := by cases hx' : x.op <;> simp_all [Opcode.role]
    have hx' : x = Markup.openFragment := by
      rw [Instr.eq_bare hx (by rw [hop]; rfl), hop]; rfl
    simp [instrs, Level.instrs, Level.opening, Level.done, hx']
  case closesElement =>
    rcases ls with _ | ⟨_ | _, ls⟩ <;> simp only [step, hr, Option.some.injEq, reduceCtorEq] at h
    subst h
    have hop : x.op = .elementClose := by cases hx' : x.op <;> simp_all [Opcode.role]
    have hx' : x = Markup.closeElement := by
      rw [Instr.eq_bare hx (by rw [hop]; rfl), hop]; rfl
    rw [instrs_add, hx']
    simp [instrs, Level.instrs, Level.opening, Level.done, Markup.instrs]
  case closesFragment =>
    rcases ls with _ | ⟨_ | _, ls⟩ <;> simp only [step, hr, Option.some.injEq, reduceCtorEq] at h
    subst h
    have hop : x.op = .fragmentClose := by cases hx' : x.op <;> simp_all [Opcode.role]
    have hx' : x = Markup.closeFragment := by
      rw [Instr.eq_bare hx (by rw [hop]; rfl), hop]; rfl
    rw [instrs_add, hx']
    simp [instrs, Level.instrs, Level.opening, Level.done, Markup.instrs]
  all_goals
    simp only [step, hr, Option.some.injEq] at h
    subst h
    simp [instrs_add, Markup.instrs]

end Zipper

/-- What the instruction-level rules ask of one more instruction after `xs`: its operands are
of the right kinds, its slots are below the limit, new and distinct, its slot sources name
value slots of `xs`, and its sub-programs satisfy `good`. -/
structure Fresh (limit : Nat) (good : List Word → Prop) (xs : List Instr) (x : Instr) :
    Prop where
  admitted : x.Admitted
  slot_lt : ∀ n ∈ x.slots, n < limit
  slot_new : ∀ n ∈ x.slots, n ∉ xs.flatMap Instr.slots
  slots_nodup : x.slots.Nodup
  sources : ∀ n ∈ x.sources, n ∈ xs.flatMap Instr.valueSlots
  subprograms : ∀ ws ∈ x.subprograms, good ws

/-- The instruction-level rules hold of `xs` and one more instruction exactly when they hold of
`xs` and the instruction is fresh after it. -/
theorem fits_append_singleton {limit : Nat} {good : List Word → Prop} {xs : List Instr}
    {x : Instr} : Fits limit good (xs ++ [x]) ↔ Fits limit good xs ∧ Fresh limit good xs x := by
  constructor
  · intro h
    refine ⟨⟨fun y hy => h.admitted y (by simp [hy]),
        fun n hn => h.slot_lt n (by simp only [List.flatMap_append]; exact List.mem_append_left _ hn),
        (List.nodup_append.1 (by simpa using h.slots_nodup)).1,
        fun pre y post he => h.sources_earlier pre y (post ++ [x]) (by simp [he]),
        fun y hy => h.subprograms_good y (by simp [hy])⟩,
      ⟨h.admitted x (by simp), fun n hn => h.slot_lt n (by simp [hn]), fun n hn hn' => ?_,
        (List.nodup_append.1 (by simpa using h.slots_nodup)).2.1,
        h.sources_earlier xs x [] rfl, h.subprograms_good x (by simp)⟩⟩
    have hnd := List.nodup_append.1 (by simpa using h.slots_nodup)
    exact hnd.2.2 n hn' n hn rfl
  · rintro ⟨h, hx⟩
    refine ⟨fun y hy => ?_, fun n hn => ?_, ?_, fun pre y post he => ?_, fun y hy => ?_⟩
    · rcases List.mem_append.1 hy with hy | hy
      · exact h.admitted y hy
      · exact (List.mem_singleton.1 hy) ▸ hx.admitted
    · simp only [List.flatMap_append, List.flatMap_singleton, List.mem_append] at hn
      rcases hn with hn | hn
      · exact h.slot_lt n hn
      · exact hx.slot_lt n hn
    · simp only [List.flatMap_append, List.flatMap_singleton]
      exact List.nodup_append.2 ⟨h.slots_nodup, hx.slots_nodup,
        fun a ha b hb hab => hx.slot_new b hb (hab ▸ ha)⟩
    · rcases List.eq_nil_or_concat post with rfl | ⟨post, z, rfl⟩
      · obtain ⟨rfl, rfl⟩ := List.append_singleton_inj.1 he
        exact hx.sources
      · have he' : xs = pre ++ y :: post ∧ x = z :=
          List.append_singleton_inj.1 (by simpa using he)
        exact h.sources_earlier pre y post he'.1
    · rcases List.mem_append.1 hy with hy | hy
      · exact h.subprograms_good y hy
      · exact (List.mem_singleton.1 hy) ▸ hx.subprograms

namespace Zipper

/-- A zipper is valid for a program of `limit` words when what has been read follows the
placement rules and the instruction-level rules. -/
structure Valid (limit : Nat) (good : List Word → Prop) (z : Zipper) : Prop where
  fit : Fit z.top z.levels []
  fits : Fits limit good z.instrs

/-- Where one more instruction may be read: it is placeable and fresh. -/
structure Local (limit : Nat) (good : List Word → Prop) (z : Zipper) (x : Instr) : Prop where
  placeable : z.Placeable x
  fresh : Fresh limit good z.instrs x

/-- Reading one instruction with its operands keeps a zipper valid exactly when the
instruction may be read there. -/
theorem valid_step {limit : Nat} {good : List Word → Prop} {z z' : Zipper} {x : Instr}
    (h : z.step x = some z') (hx : x.Admitted) :
    Valid limit good z' ↔ Valid limit good z ∧ Local limit good z x := by
  constructor
  · rintro ⟨hfit, hfits⟩
    rw [step_instrs h hx, fits_append_singleton] at hfits
    rw [fit_step h] at hfit
    exact ⟨⟨hfit.1, hfits.1⟩, ⟨hfit.2, hfits.2⟩⟩
  · rintro ⟨⟨hfit, hfits⟩, ⟨hplace, hfresh⟩⟩
    exact ⟨(fit_step h).2 ⟨hfit, hplace⟩,
      by rw [step_instrs h hx, fits_append_singleton]; exact ⟨hfits, hfresh⟩⟩

lemma valid_empty (limit : Nat) (good : List Word → Prop) : Valid limit good empty :=
  ⟨trivial, ⟨by simp [instrs, empty], by simp [instrs, empty], by simp [instrs, empty],
    fun pre x post h => by simp [instrs, empty] at h, by simp [instrs, empty]⟩⟩

/-- A zipper with nothing open is valid exactly when its forest follows the placement and the
instruction-level rules. -/
lemma valid_top_iff (limit : Nat) (good : List Word → Prop) (f : List Markup) :
    Valid limit good ⟨[], f⟩ ↔
      Markup.PlacedList false false f ∧ Fits limit good (Markup.instrsList f) := by
  constructor
  · rintro ⟨hfit, hfits⟩
    exact ⟨hfit, by simpa [instrs] using hfits⟩
  · rintro ⟨hp, hf⟩
    exact ⟨hp, by simpa [instrs] using hf⟩

/-! ### Reading a whole forest -/

lemma stepAll_append (z : Zipper) (xs ys : List Instr) :
    z.stepAll (xs ++ ys) = (z.stepAll xs).bind (·.stepAll ys) := by
  simp [stepAll, List.foldlM_append]

lemma stepAll_cons (z : Zipper) (x : Instr) (xs : List Instr) :
    z.stepAll (x :: xs) = (z.step x).bind (·.stepAll xs) := rfl

lemma step_leaf {z : Zipper} {x : Instr} (h : x.op.role.isLeaf = true) :
    z.step x = some (z.add (.leaf x)) := by
  cases hr : x.op.role <;> simp_all [Role.isLeaf, step]

lemma foldl_add_cons (f : List Markup) (l : Level) (ls : List Level) (top : List Markup) :
    f.foldl add ⟨l :: ls, top⟩ = ⟨f.foldl Level.add l :: ls, top⟩ := by
  induction f generalizing l with
  | nil => rfl
  | cons m f ih => exact ih (l.add m)

lemma foldl_levelAdd_element (f : List Markup) (o : Instr) (d : List Markup) :
    f.foldl Level.add (.element o d) = .element o (d ++ f) := by
  induction f generalizing d with
  | nil => simp
  | cons m f ih => simpa [Level.add] using ih (d ++ [m])

lemma foldl_levelAdd_fragment (f : List Markup) (d : List Markup) :
    f.foldl Level.add (.fragment d) = .fragment (d ++ f) := by
  induction f generalizing d with
  | nil => simp
  | cons m f ih => simpa [Level.add] using ih (d ++ [m])

lemma foldl_add_top (f top : List Markup) : f.foldl add ⟨[], top⟩ = ⟨[], top ++ f⟩ := by
  induction f generalizing top with
  | nil => simp
  | cons m f ih => simpa [add] using ih (top ++ [m])

mutual
/-- The instructions of placed markup read back as that markup, wherever it stands. -/
theorem stepAll_instrs {d e : Bool} :
    ∀ (m : Markup) (z : Zipper), m.Placed d e → z.stepAll m.instrs = some (z.add m)
  | .element o body, ⟨ls, top⟩, h => by
    obtain ⟨ho, hbody, -⟩ := h
    have hopen : Zipper.step ⟨ls, top⟩ o = some ⟨.element o [] :: ls, top⟩ := by
      simp [step, ho]
    have hclose : Zipper.step ⟨.element o body :: ls, top⟩ Markup.closeElement =
        some (Zipper.add ⟨ls, top⟩ (.element o body)) := rfl
    rw [Markup.instrs, stepAll_append, stepAll_cons, hopen, Option.bind_some,
      stepAll_instrsList body _ hbody, Option.bind_some, foldl_add_cons,
      foldl_levelAdd_element, List.nil_append, stepAll_cons, hclose]
    rfl
  | .fragment body, ⟨ls, top⟩, h => by
    have hopen : Zipper.step ⟨ls, top⟩ Markup.openFragment = some ⟨.fragment [] :: ls, top⟩ :=
      rfl
    have hclose : Zipper.step ⟨.fragment body :: ls, top⟩ Markup.closeFragment =
        some (Zipper.add ⟨ls, top⟩ (.fragment body)) := rfl
    rw [Markup.instrs, stepAll_append, stepAll_cons, hopen, Option.bind_some,
      stepAll_instrsList body _ h, Option.bind_some, foldl_add_cons,
      foldl_levelAdd_fragment, List.nil_append, stepAll_cons, hclose]
    rfl
  | .leaf x, z, h => by
    simp [Markup.instrs, stepAll, step_leaf h.1]

theorem stepAll_instrsList {d e : Bool} :
    ∀ (f : List Markup) (z : Zipper), Markup.PlacedList d e f →
      z.stepAll (Markup.instrsList f) = some (f.foldl add z)
  | [], _, _ => rfl
  | m :: f, z, h => by
    rw [Markup.instrsList, stepAll_append, stepAll_instrs m z h.1, Option.bind_some]
    exact stepAll_instrsList f _ h.2
end

end Zipper

end Canopy.Wire
