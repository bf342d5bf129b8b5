import Canopy.Proofs.Wire.Placement

/-!
# The decoder accepts exactly the well-formed programs

`Program.decode_ok_iff_wellFormed` states that decoding a list of words succeeds exactly when
the words are a well-formed program in the sense of `Wire.WellFormed`.

The proof runs the decoder beside a zipper. `Wire.Tracks` relates the decoder's state to the
zipper of what it has read: the slots it has claimed and recorded as values are those of the
instructions read, and its enclosures record the zipper's open levels (`Wire.Records`). One
instruction (`Wire.generic_sound`, `Wire.generic_complete`) is read exactly when the zipper
may take it, and the relation holds again after it; by induction on the instructions, a whole
run is accepted exactly when the zipper stays valid (`Wire.run_sound`, `Wire.run_complete`).
Sub-programs are decoded with less nesting fuel, so the main theorem is proved by induction on
the fuel, each level assuming it of the sub-programs.
-/

namespace Canopy

namespace Decoder

variable (sub : List Word → Except DecodeError Program)

/-! ### The decoder's loop -/

lemma run_nil (n : Nat) {st : Decoder} (h : st.rest = []) : (run sub n).run st = .ok ((), st) := by
  cases n <;> simp [run, h]

lemma run_succ_op_ok {n t : Nat} {rest : List Word} {st st' : Decoder}
    (h : st.rest = .op t :: rest) :
    (run sub (n + 1)).run st = .ok ((), st') ↔
      ∃ op i st₁, Opcode.ofTag? t = some op ∧
        (instruction sub op st.pos).run { st with rest := rest, pos := st.pos + 1 } =
          .ok (i, st₁) ∧
        (run sub n).run { st₁ with instructions := st₁.instructions.push i } = .ok ((), st') := by
  rcases st with ⟨_, pos, limit, es, used, vs, count, is⟩
  subst h
  simp only [run, run_bind_ok, StateT.run_get, except_pure, Except.ok.injEq, Prod.mk.injEq]
  rcases hop : Opcode.ofTag? t with _ | op <;>
    simp [hop, except_bind_eq_ok, StateT.run_modify]

lemma run_succ_operand {n : Nat} {w : Word} {rest : List Word} {st : Decoder}
    (h : st.rest = w :: rest) (hw : ∀ t, w ≠ .op t) :
    (run sub (n + 1)).run st = .error (.strayOperand st.pos) := by
  rcases st with ⟨_, pos, limit, es, used, vs, count, is⟩
  subst h
  cases w <;> simp_all [run]

lemma instruction_ok_iff {op : Opcode} {offset : Nat} {st st' : Decoder} :
    (∃ i, (instruction sub op offset).run st = .ok (i, st')) ↔
      (generic sub op offset).run st = .ok ((), st') := by
  rw [← instruction_discard, run_discard_ok]

lemma finish_ok_iff {st : Decoder} :
    (∃ p st', finish.run st = .ok (p, st')) ↔ st.enclosures = [] := by
  rcases st with ⟨rest, pos, limit, _ | ⟨_ | _, es⟩, used, vs, count, is⟩ <;> simp [finish]

end Decoder

namespace Opcode

lemma tag_of_ofTag? {t : Nat} {op : Opcode} (h : ofTag? t = some op) : op.tag = t := by
  simpa using List.find?_some h

end Opcode

namespace Wire

/-! ### Relating the decoder to the zipper -/

/-- The decoder's slot bookkeeping matches the instructions `xs` read so far: the limit is
`limit`, the used slots are the slots of `xs`, and the value slots those of its dynamic
leaves. -/
structure SlotsTrack (limit : Nat) (xs : List Instr) (st : Decoder) : Prop where
  limit : st.limit = limit
  used : ∀ m : Nat, m ∈ st.used ↔ (m : Int) ∈ xs.flatMap Instr.slots
  valueSlots : ∀ m : Nat, m ∈ st.valueSlots ↔ (m : Int) ∈ xs.flatMap Instr.valueSlots

/-- The decoder's state tracks a zipper: its slots are those of the instructions read, and its
enclosures record the open levels. -/
structure Tracks (limit : Nat) (z : Zipper) (st : Decoder) : Prop where
  slots : SlotsTrack limit z.instrs st
  records : Records st.enclosures z.levels []

/-- The sub-program decoder `sub` accepts exactly the sub-programs satisfying `good` among the
sub-program words of `ws`. -/
def SubSound (sub : List Word → Except DecodeError Program) (good : List Word → Prop)
    (ws : List Word) : Prop :=
  ∀ ws', Word.program ws' ∈ ws → ((∃ p, sub ws' = .ok p) ↔ good ws')

lemma SubSound.append_right {sub : List Word → Except DecodeError Program}
    {good : List Word → Prop} {ws ws' : List Word} (h : SubSound sub good (ws ++ ws')) :
    SubSound sub good ws' :=
  fun v hv => h v (List.mem_append_right _ hv)

lemma SubSound.tail {sub : List Word → Except DecodeError Program}
    {good : List Word → Prop} {w : Word} {ws : List Word} (h : SubSound sub good (w :: ws)) :
    SubSound sub good ws :=
  fun v hv => h v (List.mem_cons_of_mem _ hv)

lemma mem_args_of_mem_subprograms {x : Instr} {ws : List Word} (h : ws ∈ x.subprograms) :
    Word.program ws ∈ x.args := by
  simp only [Instr.subprograms, Instr.operandsOf, List.mem_filterMap, List.mem_map,
    List.mem_filter] at h
  obtain ⟨w, ⟨p, ⟨hp, -⟩, rfl⟩, hw⟩ := h
  cases hpw : p.2 <;> simp [hpw, Word.program?] at hw
  subst hw
  exact hpw ▸ (List.of_mem_zip hp).2

lemma valueSlots_subset (x : Instr) : ∀ n ∈ x.valueSlots, n ∈ x.slots := by
  intro n hn
  unfold Instr.valueSlots at hn
  split at hn
  · exact hn
  · simp at hn

variable (sub : List Word → Except DecodeError Program) {limit : Nat}
  {good : List Word → Prop}

/-- Against a state that tracks the instructions `xs`, the operand checks of an instruction
are the instruction-level rules for it after `xs`. -/
theorem argsFine_iff_fresh {xs : List Instr} {st : Decoder} {x : Instr}
    (ht : SlotsTrack limit xs st) (hxs : ∀ y ∈ xs, y.Admitted) (hx : x.Admitted)
    (hsub : ∀ ws ∈ x.subprograms, (∃ p, sub ws = .ok p) ↔ good ws) :
    Decoder.ArgsFine sub st x.op.operandKinds x.args ↔ Fresh limit good xs x := by
  have hnn : ∀ n ∈ x.slots, 0 ≤ n := Decoder.slotInts_nonneg hx
  have hcast : ∀ n : Int, 0 ≤ n → ((n.toNat : Nat) : Int) = n := fun n h => Int.toNat_of_nonneg h
  constructor
  · intro h
    refine ⟨hx, fun n hn => ?_, fun n hn hin => ?_, h.slots_nodup, fun n hn => ?_,
      fun ws hws => (hsub ws hws).1 (h.subprograms ws hws)⟩
    · have := h.slot_lt n hn
      rw [ht.limit] at this
      have := hnn n hn
      omega
    · exact h.slot_new n hn ((ht.used _).2 (by rw [hcast n (hnn n hn)]; exact hin))
    · obtain ⟨h0, hm⟩ := h.sources n hn
      have := (ht.valueSlots _).1 hm
      rwa [hcast n h0] at this
  · intro h
    refine ⟨fun n hn => ?_, fun n hn hin => ?_, h.slots_nodup, fun n hn => ?_,
      fun ws hws => (hsub ws hws).2 (h.subprograms ws hws)⟩
    · have := h.slot_lt n hn
      have := hnn n hn
      rw [ht.limit]
      omega
    · have := (ht.used _).1 hin
      rw [hcast n (hnn n hn)] at this
      exact h.slot_new n hn this
    · have hm := h.sources n hn
      obtain ⟨y, hy, hn'⟩ := List.mem_flatMap.1 hm
      have h0 : 0 ≤ n := Decoder.slotInts_nonneg (hxs y hy) n (valueSlots_subset y n hn')
      refine ⟨h0, (ht.valueSlots _).2 ?_⟩
      rwa [hcast n h0]

/-- Tracking sees only the limit, the slots and the enclosures of the decoder's state. -/
lemma Tracks.congr {z : Zipper} {st st' : Decoder} (h : Tracks limit z st)
    (hl : st'.limit = st.limit) (hu : st'.used = st.used) (hv : st'.valueSlots = st.valueSlots)
    (he : st'.enclosures = st.enclosures) : Tracks limit z st' :=
  ⟨⟨hl.trans h.slots.limit, hu ▸ h.slots.used, hv ▸ h.slots.valueSlots⟩, he ▸ h.records⟩

/-- The slot bookkeeping does not see the enclosures. -/
lemma SlotsTrack.frame {xs : List Instr} {st : Decoder} (h : SlotsTrack limit xs st)
    (es : List Enclosure) : SlotsTrack limit xs { st with enclosures := es } :=
  ⟨h.limit, h.used, h.valueSlots⟩

/-- Reading an instruction's operands adds it to the tracked instructions. -/
lemma SlotsTrack.step {xs : List Instr} {st st' : Decoder} {x : Instr}
    (ht : SlotsTrack limit xs st)
    (he : Decoder.ArgsEffect x.op.holdsValue st st' x.op.operandKinds x.args) :
    SlotsTrack limit (xs ++ [x]) st' where
  limit := he.limit.trans ht.limit
  used m := by
    rw [he.used, ht.used]
    simp [Instr.slots, Instr.operandsOf, Wire.slotInts, Wire.kindWords]
  valueSlots m := by
    rw [he.valueSlots, ht.valueSlots]
    cases hv : x.op.holdsValue <;>
      simp [Instr.valueSlots, Instr.slots, Instr.operandsOf, Wire.slotInts, Wire.kindWords, hv]

/-! ### One instruction -/

/-- Whatever instruction the decoder reads from a state tracking a valid zipper, the zipper
may take it, and the state after it tracks the zipper after it. -/
theorem generic_sound {z : Zipper} {op : Opcode} {offset : Nat} {st st' : Decoder}
    (ht : Tracks limit z st) (hz : ∀ y ∈ z.instrs, y.Admitted) (hsub : SubSound sub good st.rest)
    (h : (Decoder.generic sub op offset).run st = .ok ((), st')) :
    ∃ args z', st.rest = args ++ st'.rest ∧ z.step ⟨op, args⟩ = some z' ∧
      z.Local limit good ⟨op, args⟩ ∧ Tracks limit z' st' := by
  simp only [Decoder.generic, Decoder.run_bind_ok] at h
  obtain ⟨_, st₁, h₁, _, st₂, h₂, h₃⟩ := h
  obtain ⟨args, hrest, hadm, hfine, heff⟩ :=
    Decoder.readArgs_sound sub op offset _ _ _ (sourcesFirst_operandKinds op) h₂
  obtain ⟨z', hstep, hpl, hframe₁, hframe₃, hrec'⟩ :=
    place_sound (x := ⟨op, args⟩) ht.records h₁ heff.enclosures h₃
  -- the placement checks touch only the enclosures
  have hslots : SlotsTrack limit z.instrs st₁ := hframe₁ ▸ ht.slots.frame st₁.enclosures
  have hrest₁ : st₁.rest = st.rest := by rw [← hframe₁]
  have hrest₃ : st'.rest = st₂.rest := by rw [← hframe₃]
  refine ⟨args, z', by rw [← hrest₁, hrest, hrest₃], hstep,
    ⟨hpl, (argsFine_iff_fresh (x := ⟨op, args⟩) sub hslots hz hadm fun ws hws => ?_).1 hfine⟩,
    ⟨?_, hrec'⟩⟩
  · rw [← hrest₁, hrest] at hsub
    exact hsub ws (List.mem_append_left _ (mem_args_of_mem_subprograms hws))
  · rw [Zipper.step_instrs hstep hadm, ← hframe₃]
    exact (hslots.step (x := ⟨op, args⟩) heff).frame _

/-- An instruction that the zipper may take is read from a state tracking the zipper, and the
state after it tracks the zipper after it. -/
theorem generic_complete {z z' : Zipper} {x : Instr} (offset : Nat) {st : Decoder}
    {rest : List Word} (ht : Tracks limit z st) (hz : ∀ y ∈ z.instrs, y.Admitted)
    (hsub : SubSound sub good st.rest) (hrest : st.rest = x.args ++ rest)
    (hstep : z.step x = some z') (hloc : z.Local limit good x) :
    ∃ st', (Decoder.generic sub x.op offset).run st = .ok ((), st') ∧ st'.rest = rest ∧
      Tracks limit z' st' := by
  have hx := hloc.fresh.admitted
  obtain ⟨es₁, h₁, hafter⟩ := place_complete offset ht.records hstep hloc.placeable
  have hslots := ht.slots.frame es₁
  have hfine := (argsFine_iff_fresh sub hslots hz hx fun ws hws => by
    rw [hrest] at hsub
    exact hsub ws (List.mem_append_left _ (mem_args_of_mem_subprograms hws))).2 hloc.fresh
  obtain ⟨st₂, h₂, hrest₂, heff⟩ := Decoder.readArgs_complete sub x.op offset _ x.args rest
    { st with enclosures := es₁ } (sourcesFirst_operandKinds x.op) hrest hx hfine
  obtain ⟨es', h₃, hrec'⟩ := hafter st₂ heff.enclosures
  refine ⟨{ st₂ with enclosures := es' }, ?_, hrest₂, ⟨?_, hrec'⟩⟩
  · simp only [Decoder.generic, Decoder.run_bind_ok]
    exact ⟨(), _, h₁, (), st₂, h₂, h₃⟩
  · rw [Zipper.step_instrs hstep hx]
    exact (hslots.step heff).frame es'

/-! ### A whole run -/

/-- A zipper that reads on to a valid one is valid. -/
lemma stepAll_valid :
    ∀ {xs : List Instr} {z z' : Zipper}, z.stepAll xs = some z' → (∀ x ∈ xs, x.Admitted) →
      Zipper.Valid limit good z' → Zipper.Valid limit good z
  | [], z, z', h, _, hv => by
    simp only [Zipper.stepAll, List.foldlM_nil, Option.pure_def, Option.some.injEq] at h
    exact h ▸ hv
  | x :: xs, z, z', h, hadm, hv => by
    rw [Zipper.stepAll_cons] at h
    cases hstep : z.step x with
    | none => simp [hstep] at h
    | some z₁ =>
      rw [hstep, Option.bind_some] at h
      have hv₁ := stepAll_valid h (fun y hy => hadm y (.tail _ hy)) hv
      exact ((Zipper.valid_step hstep (hadm x (.head _))).1 hv₁).1

/-- Whatever the decoder reads from a state tracking a valid zipper, with fuel for every word
left, it reads all the words, and the zipper it ends beside is valid and holds them. -/
theorem run_sound :
    ∀ (fuel : Nat) {z : Zipper} {st st' : Decoder},
      Zipper.Valid limit good z → Tracks limit z st → SubSound sub good st.rest →
      st.rest.length ≤ fuel → (Decoder.run sub fuel).run st = .ok ((), st') →
      ∃ z', Zipper.Valid limit good z' ∧ Tracks limit z' st' ∧ st'.rest = [] ∧
        z.instrs.flatMap Instr.words ++ st.rest = z'.instrs.flatMap Instr.words
  | 0, z, st, st', hv, ht, _, hlen, h => by
    have hnil : st.rest = [] := List.eq_nil_of_length_eq_zero (Nat.le_zero.1 hlen)
    rw [Decoder.run_nil sub 0 hnil, Except.ok.injEq, Prod.mk.injEq] at h
    obtain ⟨-, rfl⟩ := h
    exact ⟨z, hv, ht, hnil, by simp [hnil]⟩
  | fuel + 1, z, st, st', hv, ht, hsub, hlen, h => by
    rcases hrest : st.rest with _ | ⟨w, rest⟩
    · rw [Decoder.run_nil sub _ hrest, Except.ok.injEq, Prod.mk.injEq] at h
      obtain ⟨-, rfl⟩ := h
      exact ⟨z, hv, ht, hrest, by simp⟩
    cases w
    case op t =>
      obtain ⟨op, i, st₁, hop, hi, hrun⟩ := (Decoder.run_succ_op_ok sub hrest).1 h
      rw [hrest] at hsub hlen
      have ht₀ : Tracks limit z { st with rest := rest, pos := st.pos + 1 } :=
        ht.congr rfl rfl rfl rfl
      obtain ⟨args, z₁, hrest₁, hstep, hloc, ht₁⟩ :=
        generic_sound sub ht₀ hv.fits.admitted hsub.tail
          ((Decoder.instruction_ok_iff sub).1 ⟨i, hi⟩)
      have hv₁ := (Zipper.valid_step hstep hloc.fresh.admitted).2 ⟨hv, hloc⟩
      simp only at hrest₁
      rw [hrest₁] at hsub hlen
      have ht₂ : Tracks limit z₁ { st₁ with instructions := st₁.instructions.push i } :=
        ht₁.congr rfl rfl rfl rfl
      obtain ⟨z', hv', ht', hnil, hwords⟩ :=
        run_sound fuel hv₁ ht₂ hsub.tail.append_right (by simp at hlen ⊢; omega) hrun
      refine ⟨z', hv', ht', hnil, ?_⟩
      rw [← hwords, Zipper.step_instrs hstep hloc.fresh.admitted, hrest₁,
        ← Opcode.tag_of_ofTag? hop]
      simp [Instr.words]
    all_goals
      rw [Decoder.run_succ_operand sub hrest (by simp)] at h
      cases h

/-- Where the words left are those of instructions that take a tracked zipper to a valid one,
the decoder reads them all, ending beside that zipper. -/
theorem run_complete :
    ∀ (xs : List Instr) (fuel : Nat) {z z' : Zipper} {st : Decoder},
      Tracks limit z st → (∀ y ∈ z.instrs, y.Admitted) → SubSound sub good st.rest →
      st.rest = xs.flatMap Instr.words → xs.length ≤ fuel → (∀ x ∈ xs, x.Admitted) →
      z.stepAll xs = some z' → Zipper.Valid limit good z' →
      ∃ st', (Decoder.run sub fuel).run st = .ok ((), st') ∧ Tracks limit z' st'
  | [], fuel, z, z', st, ht, _, _, hrest, _, _, hall, _ => by
    simp only [Zipper.stepAll, List.foldlM_nil, Option.pure_def, Option.some.injEq] at hall
    exact ⟨st, Decoder.run_nil sub fuel hrest, hall ▸ ht⟩
  | x :: xs, 0, _, _, _, _, _, _, _, hlen, _, _, _ => by simp at hlen
  | x :: xs, fuel + 1, z, z', st, ht, hz, hsub, hrest, hlen, hadm, hall, hv' => by
    rw [Zipper.stepAll_cons] at hall
    cases hstep : z.step x with
    | none => simp [hstep] at hall
    | some z₁ =>
      rw [hstep, Option.bind_some] at hall
      have hadm' : ∀ y ∈ xs, y.Admitted := fun y hy => hadm y (.tail _ hy)
      have hx := hadm x (.head _)
      have hloc := ((Zipper.valid_step hstep hx).1 (stepAll_valid hall hadm' hv')).2
      have hrest' : st.rest = .op x.op.tag :: (x.args ++ xs.flatMap Instr.words) := by
        simp [hrest, Instr.words]
      rw [hrest'] at hsub
      have ht₀ : Tracks limit z
          { st with rest := x.args ++ xs.flatMap Instr.words, pos := st.pos + 1 } :=
        ht.congr rfl rfl rfl rfl
      obtain ⟨st₁, hgen, hrest₁, ht₁⟩ := generic_complete sub st.pos ht₀ hz hsub.tail rfl hstep hloc
      obtain ⟨i, hi⟩ := (Decoder.instruction_ok_iff sub).2 hgen
      have hz₁ : ∀ y ∈ z₁.instrs, y.Admitted := by
        rw [Zipper.step_instrs hstep hx]
        simpa [or_imp, forall_and] using ⟨hz, hx⟩
      have ht₂ : Tracks limit z₁ { st₁ with instructions := st₁.instructions.push i } :=
        ht₁.congr rfl rfl rfl rfl
      have hsub₂ : SubSound sub good st₁.rest := hrest₁ ▸ hsub.tail.append_right
      obtain ⟨st', hrun, ht'⟩ :=
        run_complete xs fuel ht₂ hz₁ hsub₂ hrest₁ (by simpa using hlen) hadm' hall hv'
      exact ⟨st', (Decoder.run_succ_op_ok sub hrest').2 ⟨x.op, i, st₁, Opcode.ofTag?_tag _, hi,
        hrun⟩, ht'⟩

end Wire

namespace Wire

/-! ### Programs -/

/-- A sub-program nests less deeply than the words it stands in. -/
lemma nestingList_lt {ws ws' : List Word} (h : Word.program ws' ∈ ws) :
    Word.nestingList ws' < Word.nestingList ws := by
  induction ws with
  | nil => simp at h
  | cons w ws ih =>
    rw [Word.nestingList]
    rcases List.mem_cons.1 h with rfl | h
    · exact Nat.lt_of_lt_of_le (Nat.lt_succ_self _) (Nat.le_max_left _ _)
    · exact Nat.lt_of_lt_of_le (ih h) (Nat.le_max_right _ _)

lemma length_le_words (xs : List Instr) : xs.length ≤ (xs.flatMap Instr.words).length := by
  induction xs with
  | nil => simp
  | cons x xs ih =>
    rw [List.flatMap_cons, List.length_append, List.length_cons]
    have : 1 ≤ x.words.length := by simp [Instr.words]
    omega

lemma tracks_start (ws : List Word) :
    Tracks ws.length Zipper.empty { rest := ws, pos := 0, limit := ws.length } :=
  ⟨⟨rfl, by simp [Zipper.instrs, Zipper.empty], by simp [Zipper.instrs, Zipper.empty]⟩,
    by simp [Zipper.empty]⟩

end Wire

namespace Program

/-- Decoding with fuel succeeds exactly when the run from the start reads every word and
leaves nothing open. -/
lemma decodeWith_succ_ok_iff (n : Nat) (ws : List Word) :
    (∃ p, decodeWith (n + 1) ws = .ok p) ↔
      ∃ st', (Decoder.run (decodeWith n) ws.length).run
          { rest := ws, pos := 0, limit := ws.length } = .ok ((), st') ∧
        st'.enclosures = [] := by
  simp only [decodeWith, StateT.run'_eq, StateT.run_bind]
  rcases (Decoder.run (decodeWith n) ws.length).run
    { rest := ws, pos := 0, limit := ws.length } with e | ⟨u, st'⟩
  · simp
  · simp only [Decoder.except_ok_bind, Except.ok.injEq, Prod.mk.injEq, true_and,
      exists_eq_left']
    rw [← @Decoder.finish_ok_iff st']
    rcases Decoder.finish.run st' with e | ⟨p, st''⟩ <;> simp

/-- With fuel beyond the nesting of its sub-programs, decoding succeeds exactly on the
well-formed programs. -/
theorem decodeWith_ok_iff :
    ∀ (n : Nat) (ws : List Word), Word.nestingList ws < n →
      ((∃ p, decodeWith n ws = .ok p) ↔ Wire.WellFormed ws)
  | 0, _, h => absurd h (Nat.not_lt_zero _)
  | n + 1, ws, h => by
    -- sub-programs nest less deeply, so the theorem holds of them with the fuel they get
    have hsub : Wire.SubSound (decodeWith n) Wire.WellFormed ws := fun ws' hws' =>
      decodeWith_ok_iff n ws' (by have := Wire.nestingList_lt hws'; omega)
    rw [decodeWith_succ_ok_iff, Wire.wellFormed_iff]
    constructor
    · rintro ⟨st', hrun, hfin⟩
      obtain ⟨⟨levels, f⟩, hv, ht, -, hwords⟩ :=
        Wire.run_sound _ ws.length (Wire.Zipper.valid_empty _ _) (Wire.tracks_start ws) hsub
          (Nat.le_refl _) hrun
      -- nothing is open at the end, so the zipper holds a forest
      have hlev : levels = [] := by simpa [hfin] using ht.records
      subst hlev
      obtain ⟨hplaced, hfits⟩ := (Wire.Zipper.valid_top_iff _ _ f).1 hv
      refine ⟨f, ?_, hplaced, hfits⟩
      simpa [Wire.Zipper.instrs, Wire.Zipper.empty, Wire.Markup.wordsList] using hwords.symm
    · rintro ⟨f, hwords, hplaced, hfits⟩
      have hall := Wire.Zipper.stepAll_instrsList f Wire.Zipper.empty hplaced
      rw [Wire.Zipper.empty, Wire.Zipper.foldl_add_top, List.nil_append] at hall
      obtain ⟨st', hrun, ht⟩ :=
        Wire.run_complete _ (Wire.Markup.instrsList f) ws.length (Wire.tracks_start ws)
          (by simp [Wire.Zipper.instrs, Wire.Zipper.empty]) hsub hwords.symm
          (hwords ▸ Wire.length_le_words _) hfits.admitted hall
          ((Wire.Zipper.valid_top_iff _ _ f).2 ⟨hplaced, hfits⟩)
      exact ⟨st', hrun, by simpa using ht.records⟩

/-- Decoding a list of words succeeds exactly when it is a well-formed program: its words are
those of a forest of instructions placed where their roles allow, each with the operands its
opcode takes, with distinct in-range slots, slot sources naming earlier value slots, and
well-formed sub-programs. -/
theorem decode_ok_iff_wellFormed (ws : List Word) :
    (∃ p, decode ws = .ok p) ↔ Wire.WellFormed ws :=
  decodeWith_ok_iff _ ws (Nat.lt_succ_self _)

end Program

end Canopy
