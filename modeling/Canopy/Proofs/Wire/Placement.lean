import Canopy.Proofs.Wire.Reading

/-!
# The decoder's record of open elements

The decoder does not keep the markup it has read. For each open element it keeps three facts
about the element's children so far (fragments looked through): how many add a node, where a
loop is if there is one, and whether text content was set; for a fragment it keeps nothing.
That is all the placement rules need.

`Wire.Records es ls rs` says that the decoder's open enclosures `es` record the zipper levels
`ls` in this way, where `rs` are the roles of the children that inner levels have already
added to the innermost element. The lemmas below show that each placement check of the
decoder succeeds exactly when the zipper may take the instruction (`Zipper.Accepts`), and that
its update of the enclosures records the zipper after the instruction.
-/

namespace Canopy

namespace Wire

/-- What the decoder keeps of the children `rs` of an open element: the count is positive
exactly when some child adds a node, the loop offset is set exactly when a child is a loop, and
the text flag exactly when text content was set. -/
structure Summary (rs : List Role) (children : Nat) (loopAt : Option Nat) (hasText : Bool) :
    Prop where
  children_pos : 0 < children ↔ ∃ r ∈ rs, r.addsChild = true
  loop : loopAt.isSome ↔ Role.loop ∈ rs
  text : hasText = true ↔ Role.setsText ∈ rs

/-- The decoder's enclosures record the zipper's levels, innermost first; `rs` are the roles of
children that inner levels added to the innermost element. -/
def Records : List Enclosure → List Level → List Role → Prop
  | [], [], _ => True
  | .element _ _ n loopAt hasText :: es, .element _ d :: ls, rs =>
    Summary ((Markup.kidsList d).map Markup.role ++ rs) n loopAt hasText ∧
      Records es ls [.opensElement]
  | .fragment _ :: es, .fragment d :: ls, rs =>
    Records es ls ((Markup.kidsList d).map Markup.role ++ rs)
  | _, _, _ => False

@[simp] lemma records_nil_left {ls : List Level} {rs : List Role} :
    Records [] ls rs ↔ ls = [] := by
  rcases ls with _ | ⟨_ | _, _⟩ <;> simp [Records]

@[simp] lemma records_nil_right {es : List Enclosure} {rs : List Role} :
    Records es [] rs ↔ es = [] := by
  rcases es with _ | ⟨_ | _, _⟩ <;> simp [Records]

@[simp] lemma summary_nil : Summary [] 0 none false :=
  ⟨by simp, by simp, by simp⟩

/-! ### How children meet -/

lemma kidsCross_addsChild {r : Role} (hr : r.addsChild = true) (a : List Role) :
    KidsCross a [r] ↔ Role.setsText ∉ a ∧ Role.loop ∉ a := by
  have hr' : r ≠ .setsText := by rintro rfl; cases hr
  constructor
  · rintro ⟨ht, -, hl⟩
    exact ⟨fun h => by simpa [hr] using ht h r (by simp),
      fun h => by simpa [hr] using hl h r (by simp)⟩
  · rintro ⟨ht, hl⟩
    exact ⟨fun h => absurd h ht, fun h => absurd (List.mem_singleton.1 h) hr'.symm,
      fun h => absurd h hl⟩

lemma kidsCross_setsText (a : List Role) :
    KidsCross a [.setsText] ↔ ∀ r ∈ a, r.addsChild = false := by
  constructor
  · exact fun h => h.text_right (by simp)
  · intro h
    exact ⟨fun _ r hr => by simp_all [Role.addsChild], fun _ => h,
      fun _ r hr => by simp_all [Role.addsChild]⟩

lemma kidsCross_inert {r : Role} (hc : r.addsChild = false) (ht : r ≠ .setsText)
    (a : List Role) : KidsCross a [r] :=
  ⟨fun _ r' hr' => by simp_all, fun h => absurd (List.mem_singleton.1 h) ht.symm,
    fun _ r' hr' => by simp_all⟩

lemma accepts_inert {r : Role} (hc : r.addsChild = false) (ht : r ≠ .setsText) :
    ∀ (ls : List Level) (rs : List Role), Zipper.Accepts ls rs [r]
  | [], _ => trivial
  | .element .. :: _, _ => ⟨kidsFit_singleton r, kidsCross_inert hc ht _⟩
  | .fragment _ :: ls, _ => accepts_inert hc ht ls _

/-- Such a child changes nothing the decoder records. -/
lemma records_inert {r : Role} (hc : r.addsChild = false) (ht : r ≠ .setsText) :
    ∀ {es : List Enclosure} {ls : List Level} {rs : List Role},
      Records es ls rs → Records es ls (rs ++ [r])
  | [], [], _, _ => trivial
  | .element .. :: _, .element _ d :: _, rs, ⟨hs, h⟩ => by
    have hl : r ≠ .loop := by rintro rfl; cases hc
    refine ⟨⟨?_, ?_, ?_⟩, h⟩ <;> rw [← List.append_assoc]
    · rw [hs.children_pos]; simp [or_and_right, exists_or, hc]
    · rw [hs.loop]; simp [hl.symm]
    · rw [hs.text]; simp [ht.symm]
  | .fragment _ :: es, .fragment d :: ls, rs, h => by
    have := @records_inert r hc ht es ls ((Markup.kidsList d).map Markup.role ++ rs) h
    simpa [Records] using this

/-! ### Adding a node -/

section AddChild

variable {op : Opcode} {offset : Nat} {r : Role}

/-- The decoder takes a new node exactly when the zipper accepts a child that adds one. -/
theorem addChild_ok_iff (hr : r.addsChild = true) :
    ∀ {es : List Enclosure} {ls : List Level} {rs : List Role}, Records es ls rs →
      ((∃ es', Decoder.addChild op offset es = .ok es') ↔ Zipper.Accepts ls rs [r])
  | [], [], _, _ => by simp [Decoder.addChild, Zipper.Accepts]
  | .element _ _ _ loopAt hasText :: _, .element _ d :: _, rs, ⟨hs, _⟩ => by
    simp only [Zipper.Accepts, kidsFit_singleton, true_and, kidsCross_addsChild hr,
      ← hs.text, ← hs.loop, Option.isSome_iff_ne_none, not_not, Bool.not_eq_true]
    cases hasText <;> cases loopAt <;> simp [Decoder.addChild]
  | .fragment _ :: es, .fragment d :: ls, rs, h => by
    rw [Zipper.Accepts, ← addChild_ok_iff hr (show Records es ls _ from h)]
    simp only [Decoder.addChild]
    cases Decoder.addChild op offset es <;> simp

/-- After a new node that is not a loop, the decoder records it as a child. -/
theorem addChild_records (hr : r.addsChild = true) (hl : r ≠ .loop) :
    ∀ {es es' : List Enclosure} {ls : List Level} {rs : List Role}, Records es ls rs →
      Decoder.addChild op offset es = .ok es' → Records es' ls (rs ++ [r])
  | [], _, [], _, _, h => by simp_all [Decoder.addChild]
  | .element _ _ n loopAt hasText :: _, _, .element _ d :: _, rs, ⟨hs, hrec⟩, h => by
    have ht : r ≠ .setsText := by rintro rfl; cases hr
    cases hasText <;> cases loopAt <;> simp [Decoder.addChild] at h
    subst h
    refine ⟨⟨?_, ?_, ?_⟩, hrec⟩ <;> rw [← List.append_assoc]
    · simp only [List.mem_append, List.mem_singleton]
      exact ⟨fun _ => ⟨r, .inr rfl, hr⟩, fun _ => Nat.succ_pos n⟩
    · simpa [hl.symm] using hs.loop
    · simpa [ht.symm] using hs.text
  | .fragment _ :: es, _, .fragment d :: _, rs, h, hok => by
    simp only [Decoder.addChild] at hok
    cases hes : Decoder.addChild op offset es <;> simp [hes] at hok
    subst hok
    simpa [Records] using addChild_records hr hl (show Records es _ _ from h) hes

/-- Marking the loop just added as a node records it as a loop. -/
theorem markLoop_records (hr : r.addsChild = true) :
    ∀ {es : List Enclosure} {ls : List Level} {rs : List Role},
      Records es ls (rs ++ [r]) → Records (Decoder.markLoop offset es) ls (rs ++ [.loop])
  | [], [], _, _ => trivial
  | .element .. :: _, .element _ d :: _, rs, ⟨hs, hrec⟩ => by
    have ht : r ≠ .setsText := by rintro rfl; cases hr
    refine ⟨⟨?_, ?_, ?_⟩, hrec⟩
    · rw [hs.children_pos]
      simp only [← List.append_assoc, List.mem_append, List.mem_singleton]
      exact ⟨fun _ => ⟨.loop, .inr rfl, rfl⟩, fun _ => ⟨r, .inr rfl, hr⟩⟩
    · simp
    · rw [hs.text]
      simp [ht.symm]
  | .fragment _ :: es, .fragment d :: ls, rs, h => by
    have := @markLoop_records hr es ls ((Markup.kidsList d).map Markup.role ++ rs)
      (by simpa [Records] using h)
    simpa [Records, Decoder.markLoop] using this

end AddChild

/-- Text content is taken exactly when the innermost element has no node yet. -/
lemma text_accepts {o : Nat} {c : Opcode} {n : Nat} {l : Option Nat} {t : Bool}
    {es : List Enclosure} {ls : List Level}
    (h : Records (.element o c n l t :: es) ls []) :
    n = 0 ↔ Zipper.Accepts ls [] [.setsText] := by
  rcases ls with _ | ⟨_ | _, ls⟩
  · simp [Records] at h
  · simp only [Zipper.Accepts, kidsFit_singleton, true_and, kidsCross_setsText]
    have hpos := h.1.children_pos
    simp only [List.append_nil] at hpos ⊢
    constructor
    · rintro rfl r hr
      by_contra hc
      exact absurd (hpos.2 ⟨r, hr, by simpa using hc⟩) (Nat.lt_irrefl 0)
    · intro hall
      by_contra hn
      obtain ⟨r, hr, hc⟩ := hpos.1 (Nat.pos_of_ne_zero hn)
      simp [hall r hr] at hc
  · exact False.elim h

lemma text_records {o : Nat} {c : Opcode} {n : Nat} {l : Option Nat} {t : Bool}
    {es : List Enclosure} {ls : List Level}
    (h : Records (.element o c n l t :: es) ls []) :
    Records (.element o c n l true :: es) ls [.setsText] := by
  rcases ls with _ | ⟨_ | _, ls⟩
  · simp [Records] at h
  · obtain ⟨hs, hrec⟩ := h
    simp only [List.append_nil] at hs
    refine ⟨⟨?_, ?_, ?_⟩, hrec⟩
    · rw [hs.children_pos]; simp [or_and_right, exists_or, Role.addsChild]
    · rw [hs.loop]; simp
    · simp
  · exact False.elim h

/-! ### Completing and opening levels -/

lemma records_add (z : Zipper) (m : Markup) (es : List Enclosure) :
    Records es (z.add m).levels [] ↔ Records es z.levels (m.kids.map Markup.role) := by
  rcases z with ⟨_ | ⟨l, ls⟩, top⟩
  · simp [Zipper.add]
  · rcases es with _ | ⟨_ | _, es⟩ <;> cases l <;>
      simp [Zipper.add, Level.add, Records]

lemma records_openElement (offset : Nat) (c : Opcode) (x : Instr) (es : List Enclosure)
    (ls : List Level) :
    Records (.element offset c 0 none false :: es) (.element x [] :: ls) [] ↔
      Records es ls [.opensElement] := by
  simp [Records, Markup.kidsList]

lemma records_openFragment (offset : Nat) (es : List Enclosure) (ls : List Level) :
    Records (.fragment offset :: es) (.fragment [] :: ls) [] ↔ Records es ls [] := by
  simp [Records, Markup.kidsList]

lemma records_enclosed :
    ∀ {es : List Enclosure} {ls : List Level} {rs : List Role}, Records es ls rs →
      (Decoder.enclosingChildren es).isSome = Level.enclosed ls
  | [], [], _, _ => rfl
  | .element .. :: _, .element .. :: _, _, _ => rfl
  | .fragment _ :: es, .fragment d :: ls, rs, h =>
    @records_enclosed es ls ((Markup.kidsList d).map Markup.role ++ rs) h

lemma records_direct :
    ∀ {es : List Enclosure} {ls : List Level} {rs : List Role}, Records es ls rs →
      ((∃ o c n l t es', es = .element o c n l t :: es') ↔ Level.direct ls = true)
  | [], [], _, _ => by simp [Level.direct]
  | .element .. :: _, .element .. :: _, _, _ => by simp [Level.direct]
  | .fragment _ :: _, .fragment _ :: _, _, _ => by simp [Level.direct]

end Wire

namespace Decoder

/-! ### The decoder's placement code -/

section Run

variable {op : Opcode} {offset : Nat} {st st' : Decoder} {u : Unit}

lemma expectElement_run_ok :
    (expectElement op offset).run st = .ok (u, st') ↔
      (∃ o c n l t es, st.enclosures = .element o c n l t :: es) ∧ st = st' := by
  rcases st with ⟨rest, pos, limit, _ | ⟨_ | _, es⟩, used, vs, count, is⟩ <;>
    simp [expectElement]

lemma child_run_ok :
    (child op offset).run st = .ok (u, st') ↔
      ∃ es, addChild op offset st.enclosures = .ok es ∧ { st with enclosures := es } = st' := by
  rcases h : addChild op offset st.enclosures with e | es <;> simp [child, h]

lemma textContent_run_ok {o : Nat} {c : Opcode} {n : Nat} {l : Option Nat} {t : Bool}
    {es : List Enclosure} (h : st.enclosures = .element o c n l t :: es) :
    (textContent op offset).run st = .ok (u, st') ↔
      n = 0 ∧ { st with enclosures := .element o c n l true :: es } = st' := by
  rcases st with ⟨rest, pos, limit, es', used, vs, count, is⟩
  subst h
  by_cases hn : n = 0
  · simp [textContent, hn]
  · simp [textContent, hn, Nat.pos_of_ne_zero hn]

lemma closeElement_run_ok :
    (close op offset true).run st = .ok (u, st') ↔
      ∃ o c n l t es, st.enclosures = .element o c n l t :: es ∧
        { st with enclosures := es } = st' := by
  rcases st with ⟨rest, pos, limit, _ | ⟨_ | _, es⟩, used, vs, count, is⟩ <;>
    simp [close]

lemma closeFragment_run_ok :
    (close op offset false).run st = .ok (u, st') ↔
      ∃ o es, st.enclosures = .fragment o :: es ∧ { st with enclosures := es } = st' := by
  rcases st with ⟨rest, pos, limit, _ | ⟨_ | _, es⟩, used, vs, count, is⟩ <;>
    simp [close]

end Run

end Decoder

namespace Wire
/-! ### The placement checks of one instruction

An instruction is a leaf, a close or an open. The checks `Decoder.placeBefore` makes before a
leaf's or a close's operands, and the open `Decoder.placeAfter` makes after an open's, pass
exactly when the zipper takes the instruction, and leave enclosures that record the zipper
after it. -/

section Steps

open Decoder

/-- The checks before a leaf's operands pass exactly when the zipper may take the leaf, and the
enclosures they leave record the zipper with the leaf added. -/
theorem placeBefore_leaf_sound {z : Zipper} {x : Instr} {offset : Nat} {st st₁ : Decoder}
    (hleaf : x.op.role.isLeaf = true) (hrec : Records st.enclosures z.levels [])
    (h : (placeBefore x.op offset).run st = .ok ((), st₁)) :
    { st with enclosures := st₁.enclosures } = st₁ ∧ z.Placeable x ∧
      Records st₁.enclosures (z.add (.leaf x)).levels [] := by
  rw [records_add]
  simp only [Markup.kids, List.map_cons, List.map_nil, Markup.role, Zipper.Placeable,
    Markup.Placed]
  cases hr : x.op.role
  case setsElement =>
    simp only [placeBefore, hr, expectElement_run_ok] at h
    obtain ⟨hel, rfl⟩ := h
    exact ⟨rfl, ⟨⟨rfl, fun _ => (records_direct hrec).1 hel, (fun h => by cases h)⟩,
      accepts_inert (r := .setsElement) rfl (by decide) _ _⟩,
      records_inert (r := .setsElement) rfl (by decide) hrec⟩
  case hook =>
    simp only [placeBefore, hr, StateT.run_pure, except_pure, Except.ok.injEq, Prod.mk.injEq,
      true_and] at h
    subst h
    exact ⟨rfl, ⟨⟨rfl, (fun h => by cases h), (fun h => by cases h)⟩, accepts_inert (r := .hook) rfl (by decide) _ _⟩,
      records_inert (r := .hook) rfl (by decide) hrec⟩
  case setsText =>
    simp only [placeBefore, hr, run_bind_ok, expectElement_run_ok] at h
    obtain ⟨_, _, ⟨⟨o, c, n, l, t, es, he⟩, rfl⟩, h⟩ := h
    obtain ⟨hn, rfl⟩ := (textContent_run_ok he).1 h
    rw [he] at hrec
    exact ⟨rfl, ⟨⟨rfl, fun _ => (records_direct hrec).1 ⟨_, _, _, _, _, _, rfl⟩, (fun h => by cases h)⟩,
      (text_accepts hrec).1 hn⟩, text_records hrec⟩
  case addsNode =>
    simp only [placeBefore, hr, child_run_ok] at h
    obtain ⟨es, hes, rfl⟩ := h
    exact ⟨rfl, ⟨⟨rfl, (fun h => by cases h), (fun h => by cases h)⟩, (addChild_ok_iff rfl hrec).1 ⟨es, hes⟩⟩,
      addChild_records (r := .addsNode) rfl (by decide) hrec hes⟩
  case loop =>
    simp only [placeBefore, hr, run_bind_ok, StateT.run_get, except_pure, Except.ok.injEq,
      Prod.mk.injEq] at h
    obtain ⟨_, _, ⟨rfl, rfl⟩, h⟩ := h
    rcases hc : enclosingChildren st.enclosures with _ | n <;> simp only [hc] at h
    · simp at h
    simp only [run_bind_ok, StateT.run_pure, except_pure, Except.ok.injEq, Prod.mk.injEq,
      child_run_ok, StateT.run_modify] at h
    obtain ⟨_, _, ⟨rfl, rfl⟩, _, _, ⟨es, hes, rfl⟩, h⟩ := h
    simp only [true_and] at h
    subst h
    refine ⟨rfl, ⟨⟨rfl, (fun h => by cases h), fun _ => ?_⟩, (addChild_ok_iff rfl hrec).1 ⟨es, hes⟩⟩,
      markLoop_records (r := .addsNode) rfl (addChild_records rfl (by decide) hrec hes)⟩
    rw [← records_enclosed hrec, hc]
    rfl
  all_goals simp [hr, Role.isLeaf] at hleaf

theorem placeBefore_leaf_complete {z : Zipper} {x : Instr} (offset : Nat) {st : Decoder}
    (hleaf : x.op.role.isLeaf = true) (hrec : Records st.enclosures z.levels [])
    (hpl : z.Placeable x) :
    ∃ es, (placeBefore x.op offset).run st = .ok ((), { st with enclosures := es }) ∧
      Records es (z.add (.leaf x)).levels [] := by
  simp only [records_add, Markup.kids, List.map_cons, List.map_nil, Markup.role]
  simp only [Zipper.Placeable, Markup.Placed] at hpl
  cases hr : x.op.role
  case setsElement =>
    simp only [hr] at hpl
    obtain ⟨⟨-, hd, -⟩, -⟩ := hpl
    refine ⟨st.enclosures, ?_, records_inert (r := .setsElement) rfl (by decide) hrec⟩
    simp only [placeBefore, hr]
    exact expectElement_run_ok.2 ⟨(records_direct hrec).2 (hd rfl), rfl⟩
  case hook =>
    exact ⟨st.enclosures, by simp [placeBefore, hr], records_inert (r := .hook) rfl (by decide) hrec⟩
  case setsText =>
    simp only [hr] at hpl
    obtain ⟨⟨-, hd, -⟩, hacc⟩ := hpl
    obtain ⟨o, c, n, l, t, es, he⟩ := (records_direct hrec).2 (hd rfl)
    rw [he] at hrec
    refine ⟨.element o c n l true :: es, ?_, text_records hrec⟩
    simp only [placeBefore, hr]
    exact (run_bind_ok ..).2 ⟨(), st, expectElement_run_ok.2 ⟨⟨o, c, n, l, t, es, he⟩, rfl⟩,
      (textContent_run_ok he).2 ⟨(text_accepts hrec).2 hacc, rfl⟩⟩
  case addsNode =>
    simp only [hr] at hpl
    obtain ⟨es, hes⟩ : ∃ es, addChild x.op offset st.enclosures = .ok es :=
      (addChild_ok_iff rfl hrec).2 hpl.2
    exact ⟨es, by simp only [placeBefore, hr]; exact child_run_ok.2 ⟨es, hes, rfl⟩,
      addChild_records (r := .addsNode) rfl (by decide) hrec hes⟩
  case loop =>
    simp only [hr] at hpl
    obtain ⟨⟨-, -, he⟩, hacc⟩ := hpl
    obtain ⟨es, hes⟩ : ∃ es, addChild x.op offset st.enclosures = .ok es :=
      (addChild_ok_iff rfl hrec).2 hacc
    obtain ⟨n, hc⟩ := Option.isSome_iff_exists.1 ((records_enclosed hrec).trans (he trivial))
    refine ⟨markLoop offset es, ?_,
      markLoop_records (r := .addsNode) rfl (addChild_records rfl (by decide) hrec hes)⟩
    simp [placeBefore, hr, hc, child, hes]
  all_goals simp [hr, Role.isLeaf] at hleaf

/-- A close passes exactly when the innermost level is of its kind, and the enclosures it
leaves record the zipper after the close. -/
theorem placeBefore_close_sound {z : Zipper} {x : Instr} {offset : Nat} {st st₁ : Decoder}
    (hclose : x.op.role = .closesElement ∨ x.op.role = .closesFragment)
    (hrec : Records st.enclosures z.levels [])
    (h : (placeBefore x.op offset).run st = .ok ((), st₁)) :
    { st with enclosures := st₁.enclosures } = st₁ ∧
      ∃ z', z.step x = some z' ∧ Records st₁.enclosures z'.levels [] := by
  rcases z with ⟨ls, top⟩
  rcases hclose with hr | hr
  · simp only [placeBefore, hr, closeElement_run_ok] at h
    obtain ⟨o, c, n, l, t, es, he, rfl⟩ := h
    rw [he] at hrec
    rcases ls with _ | ⟨⟨o', d⟩ | _, ls⟩
    · simp at hrec
    · refine ⟨rfl, Zipper.add ⟨ls, top⟩ (.element o' d), by simp [Zipper.step, hr], ?_⟩
      simpa [records_add, Markup.kids, Markup.role] using hrec.2
    · exact False.elim hrec
  · simp only [placeBefore, hr, closeFragment_run_ok] at h
    obtain ⟨o, es, he, rfl⟩ := h
    rw [he] at hrec
    rcases ls with _ | ⟨_ | d, ls⟩
    · simp at hrec
    · exact False.elim hrec
    · refine ⟨rfl, Zipper.add ⟨ls, top⟩ (.fragment d), by simp [Zipper.step, hr], ?_⟩
      simpa [Records, records_add, Markup.kids] using hrec

theorem placeBefore_close_complete {z z' : Zipper} {x : Instr} (offset : Nat) {st : Decoder}
    (hclose : x.op.role = .closesElement ∨ x.op.role = .closesFragment)
    (hrec : Records st.enclosures z.levels []) (hstep : z.step x = some z') :
    ∃ es, (placeBefore x.op offset).run st = .ok ((), { st with enclosures := es }) ∧
      Records es z'.levels [] := by
  rcases z with ⟨ls, top⟩
  rcases hclose with hr | hr <;> rcases ls with _ | ⟨_ | _, ls⟩ <;>
    simp only [Zipper.step, hr, reduceCtorEq, Option.some.injEq] at hstep
  · -- an element closes
    subst hstep
    rcases hes : st.enclosures with _ | ⟨_ | _, es⟩ <;> rw [hes] at hrec
    · simp at hrec
    · refine ⟨es, ?_, by simpa [records_add, Markup.kids, Markup.role] using hrec.2⟩
      simp only [placeBefore, hr]
      exact closeElement_run_ok.2 ⟨_, _, _, _, _, es, hes, rfl⟩
    · exact False.elim hrec
  · -- a fragment closes
    subst hstep
    rcases hes : st.enclosures with _ | ⟨_ | _, es⟩ <;> rw [hes] at hrec
    · simp at hrec
    · exact False.elim hrec
    · refine ⟨es, ?_, by simpa [Records, records_add, Markup.kids] using hrec⟩
      simp only [placeBefore, hr]
      exact closeFragment_run_ok.2 ⟨_, es, hes, rfl⟩

lemma placeBefore_open {x : Instr} {offset : Nat} (st : Decoder)
    (hopen : x.op.role = .opensElement ∨ x.op.role = .opensFragment) :
    (placeBefore x.op offset).run st = .ok ((), st) := by
  rcases hopen with hr | hr <;> simp [placeBefore, hr]

lemma placeAfter_not_open {x : Instr} {offset : Nat} (st : Decoder)
    (hopen : ¬(x.op.role = .opensElement ∨ x.op.role = .opensFragment)) :
    (placeAfter x.op offset).run st = .ok ((), st) := by
  unfold placeAfter
  split <;> simp_all

/-- An open always passes its checks when the zipper takes it, and pushes a record of the new
level. -/
theorem placeAfter_open_sound {z : Zipper} {x : Instr} {offset : Nat} {st st₁ : Decoder}
    (hopen : x.op.role = .opensElement ∨ x.op.role = .opensFragment)
    (hrec : Records st.enclosures z.levels [])
    (h : (placeAfter x.op offset).run st = .ok ((), st₁)) :
    { st with enclosures := st₁.enclosures } = st₁ ∧ z.Placeable x ∧
      ∃ z', z.step x = some z' ∧ Records st₁.enclosures z'.levels [] := by
  rcases hopen with hr | hr
  · simp only [placeAfter, hr, run_bind_ok, child_run_ok, StateT.run_modify, except_pure,
      Except.ok.injEq, Prod.mk.injEq, true_and] at h
    obtain ⟨_, _, ⟨es, hes, rfl⟩, rfl⟩ := h
    refine ⟨rfl, ?_, ⟨.element x [] :: z.levels, z.top⟩, by simp [Zipper.step, hr],
      (records_openElement ..).2 (addChild_records (r := .opensElement) rfl (by decide) hrec hes)⟩
    simp only [Zipper.Placeable, hr]
    exact (addChild_ok_iff rfl hrec).1 ⟨es, hes⟩
  · simp only [placeAfter, hr, StateT.run_modify, except_pure, Except.ok.injEq, Prod.mk.injEq,
      true_and] at h
    subst h
    exact ⟨rfl, by simp [Zipper.Placeable, hr], ⟨.fragment [] :: z.levels, z.top⟩,
      by simp [Zipper.step, hr], (records_openFragment ..).2 hrec⟩

theorem placeAfter_open_complete {z z' : Zipper} {x : Instr} (offset : Nat) {st : Decoder}
    (hopen : x.op.role = .opensElement ∨ x.op.role = .opensFragment)
    (hrec : Records st.enclosures z.levels []) (hpl : z.Placeable x)
    (hstep : z.step x = some z') :
    ∃ es, (placeAfter x.op offset).run st = .ok ((), { st with enclosures := es }) ∧
      Records es z'.levels [] := by
  rcases hopen with hr | hr <;> simp only [Zipper.step, hr, Option.some.injEq] at hstep <;>
    subst hstep
  · simp only [Zipper.Placeable, hr] at hpl
    obtain ⟨es, hes⟩ : ∃ es, addChild x.op offset st.enclosures = .ok es :=
      (addChild_ok_iff rfl hrec).2 hpl
    refine ⟨.element offset x.op 0 none false :: es, ?_, (records_openElement ..).2
      (addChild_records (r := .opensElement) rfl (by decide) hrec hes)⟩
    simp [placeAfter, hr, child, hes]
  · exact ⟨.fragment offset :: st.enclosures, by simp [placeAfter, hr],
      (records_openFragment ..).2 hrec⟩

lemma role_cases (r : Role) :
    (r = .opensElement ∨ r = .opensFragment) ∨ (r = .closesElement ∨ r = .closesFragment) ∨
      r.isLeaf = true ∨ r = .reserved := by
  cases r <;> simp [Role.isLeaf]

/-- The placement checks around an instruction's operands pass only where the zipper may take
the instruction; they change nothing but the enclosures, which then record the zipper after
it. The operands in between (`st₁` to `st₂`) leave the enclosures alone. -/
theorem place_sound {z : Zipper} {x : Instr} {offset : Nat} {st st₁ st₂ st' : Decoder}
    (hrec : Records st.enclosures z.levels [])
    (h₁ : (placeBefore x.op offset).run st = .ok ((), st₁))
    (hmid : st₂.enclosures = st₁.enclosures)
    (h₃ : (placeAfter x.op offset).run st₂ = .ok ((), st')) :
    ∃ z', z.step x = some z' ∧ z.Placeable x ∧ { st with enclosures := st₁.enclosures } = st₁ ∧
      { st₂ with enclosures := st'.enclosures } = st' ∧ Records st'.enclosures z'.levels [] := by
  rcases role_cases x.op.role with hr | hr | hr | hr
  · -- an open: nothing is checked before, the new level is pushed after
    rw [placeBefore_open st hr, Except.ok.injEq, Prod.mk.injEq] at h₁
    obtain ⟨-, rfl⟩ := h₁
    obtain ⟨hframe, hpl, z', hstep, hrec'⟩ := placeAfter_open_sound hr (hmid ▸ hrec) h₃
    exact ⟨z', hstep, hpl, rfl, hframe, hrec'⟩
  · -- a close: the level is popped before, nothing happens after
    have hno : ¬(x.op.role = .opensElement ∨ x.op.role = .opensFragment) := by
      rcases hr with hr | hr <;> simp [hr]
    rw [placeAfter_not_open st₂ hno, Except.ok.injEq, Prod.mk.injEq] at h₃
    obtain ⟨-, rfl⟩ := h₃
    obtain ⟨hframe, z', hstep, hrec'⟩ := placeBefore_close_sound hr hrec h₁
    refine ⟨z', hstep, ?_, hframe, rfl, hmid ▸ hrec'⟩
    rcases hr with hr | hr <;> simp [Zipper.Placeable, hr]
  · -- a leaf: checked and recorded before, nothing happens after
    have hno : ¬(x.op.role = .opensElement ∨ x.op.role = .opensFragment) := by
      rintro (h | h) <;> simp [h, Role.isLeaf] at hr
    rw [placeAfter_not_open st₂ hno, Except.ok.injEq, Prod.mk.injEq] at h₃
    obtain ⟨-, rfl⟩ := h₃
    obtain ⟨hframe, hpl, hrec'⟩ := placeBefore_leaf_sound hr hrec h₁
    exact ⟨_, Zipper.step_leaf hr, hpl, hframe, rfl, hmid ▸ hrec'⟩
  · -- a reserved opcode is refused
    simp [placeBefore, hr] at h₁

/-- Where the zipper may take an instruction, the placement checks around its operands pass,
whatever the operands do to the rest of the state. -/
theorem place_complete {z z' : Zipper} {x : Instr} (offset : Nat) {st : Decoder}
    (hrec : Records st.enclosures z.levels []) (hstep : z.step x = some z')
    (hpl : z.Placeable x) :
    ∃ es₁, (placeBefore x.op offset).run st = .ok ((), { st with enclosures := es₁ }) ∧
      ∀ st₂ : Decoder, st₂.enclosures = es₁ →
        ∃ es', (placeAfter x.op offset).run st₂ = .ok ((), { st₂ with enclosures := es' }) ∧
          Records es' z'.levels [] := by
  rcases role_cases x.op.role with hr | hr | hr | hr
  · refine ⟨st.enclosures, placeBefore_open st hr, fun st₂ h₂ => ?_⟩
    exact placeAfter_open_complete offset hr (h₂ ▸ hrec) hpl hstep
  · have hno : ¬(x.op.role = .opensElement ∨ x.op.role = .opensFragment) := by
      rcases hr with hr | hr <;> simp [hr]
    obtain ⟨es₁, h₁, hrec'⟩ := placeBefore_close_complete offset hr hrec hstep
    exact ⟨es₁, h₁, fun st₂ h₂ => ⟨es₁, by rw [placeAfter_not_open st₂ hno, ← h₂], hrec'⟩⟩
  · have hno : ¬(x.op.role = .opensElement ∨ x.op.role = .opensFragment) := by
      rintro (h | h) <;> simp [h, Role.isLeaf] at hr
    rw [Zipper.step_leaf hr, Option.some.injEq] at hstep
    subst hstep
    obtain ⟨es₁, h₁, hrec'⟩ := placeBefore_leaf_complete offset hr hrec hpl
    exact ⟨es₁, h₁, fun st₂ h₂ => ⟨es₁, by rw [placeAfter_not_open st₂ hno, ← h₂], hrec'⟩⟩
  · simp [Zipper.Placeable, hr, Markup.Placed, Role.isLeaf] at hpl

end Steps

end Wire

end Canopy
