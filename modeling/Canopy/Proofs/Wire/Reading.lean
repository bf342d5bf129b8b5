import Canopy.Proofs.Wire.Zipper

/-!
# Reading one instruction

The decoder reads each opcode with code of its own: a few placement checks on the open
elements and fragments, then its operands one by one, each with the reader of its kind. This
file shows that all of it is one table-driven reader, `Decoder.generic`: the checks an opcode's
role asks for before its operands, the operands of `Opcode.operands` in order, and the open it
makes after them (`Decoder.instruction_discard`).

The rest of the file says what reading the operands does, once for every opcode:

* `Decoder.readArg_run_ok` — one operand word is read exactly when it is of the operand's
  kind and passes the checks on slots, slot sources and sub-programs, and the state it
  leaves is computed by `Decoder.afterArg`;
* `Decoder.readArgs_sound` and `Decoder.readArgs_complete` — the whole operand list of an
  opcode is read exactly when its words are admitted and `Decoder.ArgsFine` holds, which
  states the checks against the slots of the whole instruction.
-/

namespace Canopy

namespace Wire

/-! ### Operand words by kind -/

/-- The operand words of kind `k` among words `args` of kinds `ks`. -/
def kindWords (k : OperandKind) (ks : List OperandKind) (args : List Word) : List Word :=
  ((ks.zip args).filter (·.1 = k)).map Prod.snd

/-- The integer slots among operand words of kinds `ks`. -/
def slotInts (ks : List OperandKind) (args : List Word) : List Int :=
  (kindWords .slotIndex ks args).filterMap Word.int?

/-- The integer slot sources among operand words of kinds `ks`. -/
def sourceInts (ks : List OperandKind) (args : List Word) : List Int :=
  (kindWords .source ks args).filterMap Word.int?

/-- The sub-programs among operand words of kinds `ks`. -/
def programWords (ks : List OperandKind) (args : List Word) : List (List Word) :=
  (kindWords .subProgram ks args).filterMap Word.program?

@[simp] lemma kindWords_nil (k : OperandKind) (args : List Word) : kindWords k [] args = [] := rfl

lemma kindWords_cons (k k' : OperandKind) (ks : List OperandKind) (w : Word) (ws : List Word) :
    kindWords k (k' :: ks) (w :: ws) = kindWords k [k'] [w] ++ kindWords k ks ws := by
  by_cases h : k' = k <;> simp [kindWords, h]

lemma slotInts_cons (k : OperandKind) (ks : List OperandKind) (w : Word) (ws : List Word) :
    slotInts (k :: ks) (w :: ws) = slotInts [k] [w] ++ slotInts ks ws := by
  rw [slotInts, kindWords_cons, List.filterMap_append]; rfl

lemma sourceInts_cons (k : OperandKind) (ks : List OperandKind) (w : Word) (ws : List Word) :
    sourceInts (k :: ks) (w :: ws) = sourceInts [k] [w] ++ sourceInts ks ws := by
  rw [sourceInts, kindWords_cons, List.filterMap_append]; rfl

lemma programWords_cons (k : OperandKind) (ks : List OperandKind) (w : Word) (ws : List Word) :
    programWords (k :: ks) (w :: ws) = programWords [k] [w] ++ programWords ks ws := by
  rw [programWords, kindWords_cons, List.filterMap_append]; rfl

/-- Operand kinds have no slot source after a slot. -/
def SourcesFirst : List OperandKind → Prop
  | [] => True
  | k :: ks => (k = .slotIndex → OperandKind.source ∉ ks) ∧ SourcesFirst ks

lemma sourceInts_eq_nil {ks : List OperandKind} (h : OperandKind.source ∉ ks) (args : List Word) :
    sourceInts ks args = [] := by
  have : kindWords .source ks args = [] := by
    simp only [kindWords, List.map_eq_nil_iff, List.filter_eq_nil_iff, decide_eq_true_eq]
    exact fun p hp hk => h (hk ▸ (List.of_mem_zip hp).1)
  simp [sourceInts, this]

lemma sourcesFirst_operandKinds (op : Opcode) : SourcesFirst op.operandKinds := by
  cases op <;> simp [SourcesFirst, Opcode.operandKinds, Opcode.operands]

end Wire

namespace Decoder

variable {α β : Type}

/-! ### Running the decoder's monad -/

section Monad

@[simp] lemma run_throw (e : DecodeError) (st : Decoder) :
    (throw e : DecodeM α).run st = .error e := rfl

@[simp] lemma map_throw (e : DecodeError) (f : α → β) :
    f <$> (throw e : DecodeM α) = throw e := rfl

@[simp] lemma throw_bind (e : DecodeError) (f : α → DecodeM β) :
    (throw e : DecodeM α) >>= f = throw e := rfl

@[simp] lemma except_throw (e : DecodeError) : (throw e : Except DecodeError α) = .error e := rfl

@[simp] lemma except_pure (a : α) : (pure a : Except DecodeError α) = .ok a := rfl

@[simp] lemma except_ok_bind (a : α) (f : α → Except DecodeError β) :
    (Except.ok a >>= f) = f a := rfl

@[simp] lemma except_error_bind (e : DecodeError) (f : α → Except DecodeError β) :
    (Except.error e >>= f) = .error e := rfl

@[simp] lemma except_map_ok (a : α) (f : α → β) :
    (f <$> Except.ok a : Except DecodeError β) = .ok (f a) := rfl

@[simp] lemma except_map_error (e : DecodeError) (f : α → β) :
    (f <$> Except.error e : Except DecodeError β) = .error e := rfl

@[simp] lemma run_ite (c : Prop) [Decidable c] (m m' : DecodeM α) (st : Decoder) :
    (if c then m else m').run st = if c then m.run st else m'.run st := by
  split <;> rfl

@[simp] lemma except_ite_bind (c : Prop) [Decidable c] (a b : Except DecodeError α)
    (f : α → Except DecodeError β) :
    ((if c then a else b) >>= f) = if c then a >>= f else b >>= f := by
  split <;> rfl

lemma except_bind_eq_ok (x : Except DecodeError α) (f : α → Except DecodeError β) (b : β) :
    (x >>= f) = .ok b ↔ ∃ a, x = .ok a ∧ f a = .ok b := by
  cases x <;> simp

end Monad

lemma run_bind_ok (m : DecodeM α) (f : α → DecodeM β) (st st' : Decoder) (b : β) :
    (m >>= f).run st = .ok (b, st') ↔
      ∃ a st₁, m.run st = .ok (a, st₁) ∧ (f a).run st₁ = .ok (b, st') := by
  rw [StateT.run_bind]
  rcases m.run st with e | ⟨a, st₁⟩ <;> simp

lemma run_discard_ok (m : DecodeM α) (st st' : Decoder) :
    (discard m).run st = .ok ((), st') ↔ ∃ a, m.run st = .ok (a, st') := by
  simp only [discard, LawfulFunctor.map_const, Function.comp_apply, StateT.run_map]
  rcases m.run st with e | ⟨a, st₁⟩ <;> simp

/-! ### The table-driven reader -/

variable (sub : List Word → Except DecodeError Program)

/-- Read one operand of the given kind, with the reader the decoder uses for it. -/
def readArg (op : Opcode) (offset : Nat) : Operand × OperandKind → DecodeM Unit
  | (r, .string) => discard (string op offset r)
  | (r, .function k) => discard (function op offset r k)
  | (r, .functionOrNull k) => discard (optionalFunction op offset r k)
  | (_, .source) => discard (source op offset)
  | (_, .slotIndex) =>
    if op.holdsValue then discard (valueSlot op offset) else discard (slot op offset)
  | (r, .subProgram) => discard (subprogram sub op offset r)

/-- Read a list of operands in order. -/
def readArgs (op : Opcode) (offset : Nat) : List (Operand × OperandKind) → DecodeM Unit
  | [] => pure ()
  | a :: as => do readArg sub op offset a; readArgs op offset as

/-- The checks an opcode's role asks for before its operands are read. -/
def placeBefore (op : Opcode) (offset : Nat) : DecodeM Unit :=
  match op.role with
  | .closesElement => close op offset true
  | .closesFragment => close op offset false
  | .setsElement => expectElement op offset
  | .setsText => do expectElement op offset; textContent op offset
  | .addsNode => child op offset
  | .loop => do
    let _ ← match enclosingChildren (← get).enclosures with
      | some n => pure n
      | none => throw (.loopPlacement offset .outsideElement)
    child op offset
    modify fun st => { st with enclosures := markLoop offset st.enclosures }
  | .reserved => throw (.reserved op offset)
  | _ => pure ()

/-- The open an opcode's role makes after its operands are read. -/
def placeAfter (op : Opcode) (offset : Nat) : DecodeM Unit :=
  match op.role with
  | .opensElement => do
    child op offset
    modify fun st => { st with enclosures := .element offset op 0 none false :: st.enclosures }
  | .opensFragment => modify fun st => { st with enclosures := .fragment offset :: st.enclosures }
  | _ => pure ()

/-- Read one instruction the table-driven way: placement checks, operands, opening. -/
def generic (op : Opcode) (offset : Nat) : DecodeM Unit := do
  placeBefore op offset
  readArgs sub op offset op.operands
  placeAfter op offset

/-- Reading an instruction with the decoder's own code for its opcode does what the
table-driven reader does, up to the instruction built. -/
theorem instruction_discard (op : Opcode) (offset : Nat) :
    discard (instruction sub op offset) = generic sub op offset := by
  cases op
  case loopMap =>
    -- the loop's check on the enclosing element reads the state before anything else
    simp only [instruction, generic, placeBefore, placeAfter, Opcode.role, loop, discard,
      LawfulFunctor.map_const, Function.comp_apply, bind_assoc, map_bind]
    refine congrArg (bind (get : DecodeM Decoder)) (funext fun a => ?_)
    cases enclosingChildren a.enclosures <;>
      simp [readArgs, readArg, Opcode.operands, Opcode.holdsValue, discard,
        LawfulFunctor.map_const, Function.comp_apply]
  all_goals simp [instruction, generic, LawfulFunctor.map_const, map_bind,
    placeBefore, placeAfter, readArgs, readArg, Opcode.role, Opcode.operands, Opcode.holdsValue,
    openElement, compute, discard]

/-! ### One operand -/

/-- What reading operand word `w` of kind `k` checks against the state: a slot is below the
limit and not used yet, an integer slot source names a value slot, a sub-program decodes. -/
def ArgFine (st : Decoder) : OperandKind → Word → Prop
  | .slotIndex, .int n => n.toNat < st.limit ∧ n.toNat ∉ st.used
  | .source, .int n => 0 ≤ n ∧ n.toNat ∈ st.valueSlots
  | .subProgram, .program ws => ∃ p, sub ws = .ok p
  | _, _ => True

/-- The state after reading operand word `w` of kind `k`, from the state `st` past the word: a
slot is claimed, and recorded as a value slot when `value` holds. -/
def afterArg (value : Bool) (st : Decoder) : OperandKind → Word → Decoder
  | .slotIndex, .int n =>
    { st with used := n.toNat :: st.used, slotCount := max st.slotCount (n.toNat + 1),
              valueSlots := if value then n.toNat :: st.valueSlots else st.valueSlots }
  | _, _ => st

/-- One operand is read exactly when its word is of its kind and passes the checks of
`ArgFine`; the state is then `afterArg`'s. -/
theorem readArg_run_ok (op : Opcode) (offset : Nat) (a : Operand × OperandKind)
    (st st' : Decoder) :
    (readArg sub op offset a).run st = .ok ((), st') ↔
      ∃ w rest, st.rest = w :: rest ∧ a.2.Admits w ∧ ArgFine sub st a.2 w ∧
        afterArg op.holdsValue { st with rest := rest, pos := st.pos + 1 } a.2 w = st' := by
  rcases a with ⟨r, k⟩
  -- each kind's reader runs on each shape of word; most cases compute outright
  rcases st with ⟨_ | ⟨w, rest⟩, pos, limit, es, used, vs, count, is⟩ <;>
    cases hv : op.holdsValue <;> cases k <;>
    simp [readArg, hv, run_discard_ok, string, function, optionalFunction, source, slot,
      valueSlot, subprogram, operand]
  all_goals cases w <;> simp [ite_eq_iff, OperandKind.Admits, ArgFine, afterArg, and_assoc]
  all_goals
    rename_i ws
    cases sub ws <;> simp

section AfterArg

variable {k : OperandKind} {w : Word} (v : Bool) (st : Decoder)

@[simp] lemma afterArg_rest : (afterArg v st k w).rest = st.rest := by
  unfold afterArg; split <;> rfl

@[simp] lemma afterArg_limit : (afterArg v st k w).limit = st.limit := by
  unfold afterArg; split <;> rfl

@[simp] lemma afterArg_enclosures : (afterArg v st k w).enclosures = st.enclosures := by
  unfold afterArg; split <;> rfl

lemma mem_afterArg_used (hw : k.Admits w) (m : Nat) :
    m ∈ (afterArg v st k w).used ↔ m ∈ st.used ∨ (m : Int) ∈ Wire.slotInts [k] [w] := by
  cases k <;> cases w <;> simp [afterArg, Wire.slotInts, Wire.kindWords, Word.int?]
  rename_i n
  have e : m = n.toNat ↔ (m : Int) = n := by have : 0 ≤ n := hw; omega
  rw [e, or_comm]

lemma mem_afterArg_valueSlots (hw : k.Admits w) (m : Nat) :
    m ∈ (afterArg v st k w).valueSlots ↔
      m ∈ st.valueSlots ∨ v = true ∧ (m : Int) ∈ Wire.slotInts [k] [w] := by
  cases k <;> cases w <;> simp [afterArg, Wire.slotInts, Wire.kindWords, Word.int?]
  rename_i n
  have e : m = n.toNat ↔ (m : Int) = n := by have : 0 ≤ n := hw; omega
  cases v <;> simp [e, or_comm]

end AfterArg

/-! ### A list of operands -/

/-- What the operand readers check of operand words `args` of kinds `ks`, against the state
before them: slots below the limit, new and distinct, integer slot sources naming value slots,
sub-programs that decode. -/
structure ArgsFine (st : Decoder) (ks : List OperandKind) (args : List Word) : Prop where
  slot_lt : ∀ n ∈ Wire.slotInts ks args, n.toNat < st.limit
  slot_new : ∀ n ∈ Wire.slotInts ks args, n.toNat ∉ st.used
  slots_nodup : (Wire.slotInts ks args).Nodup
  sources : ∀ n ∈ Wire.sourceInts ks args, 0 ≤ n ∧ n.toNat ∈ st.valueSlots
  subprograms : ∀ ws ∈ Wire.programWords ks args, ∃ p, sub ws = .ok p

/-- What reading operand words `args` of kinds `ks` does to the state: it claims their slots,
and records them as value slots when `value` holds. -/
structure ArgsEffect (value : Bool) (st st' : Decoder) (ks : List OperandKind)
    (args : List Word) : Prop where
  limit : st'.limit = st.limit
  enclosures : st'.enclosures = st.enclosures
  used : ∀ m : Nat, m ∈ st'.used ↔ m ∈ st.used ∨ (m : Int) ∈ Wire.slotInts ks args
  valueSlots : ∀ m : Nat,
    m ∈ st'.valueSlots ↔ m ∈ st.valueSlots ∨ value = true ∧ (m : Int) ∈ Wire.slotInts ks args

lemma argFine_iff {k : OperandKind} {w : Word} (hw : k.Admits w) (st : Decoder) :
    ArgFine sub st k w ↔
      (∀ n ∈ Wire.slotInts [k] [w], n.toNat < st.limit ∧ n.toNat ∉ st.used) ∧
      (∀ n ∈ Wire.sourceInts [k] [w], 0 ≤ n ∧ n.toNat ∈ st.valueSlots) ∧
      (∀ ws ∈ Wire.programWords [k] [w], ∃ p, sub ws = .ok p) := by
  cases k <;> cases w <;> simp_all [ArgFine, Wire.slotInts, Wire.sourceInts, Wire.programWords,
    Wire.kindWords, Word.int?, Word.program?, OperandKind.Admits]

lemma slotInts_singleton_eq_nil {k : OperandKind} (hk : k ≠ .slotIndex) (w : Word) :
    Wire.slotInts [k] [w] = [] := by
  simp [Wire.slotInts, Wire.kindWords, hk]

lemma slotInts_singleton_nodup (k : OperandKind) (w : Word) :
    (Wire.slotInts [k] [w]).Nodup := by
  by_cases hk : k = .slotIndex
  · subst hk; cases w <;> simp [Wire.slotInts, Wire.kindWords, List.filterMap_cons, Word.int?]
  · simp [slotInts_singleton_eq_nil hk]

/-- Admitted slot operands are non-negative. -/
lemma slotInts_nonneg {ks : List OperandKind} {args : List Word}
    (h : List.Forall₂ OperandKind.Admits ks args) : ∀ n ∈ Wire.slotInts ks args, 0 ≤ n := by
  induction h with
  | nil => simp [Wire.slotInts, Wire.kindWords]
  | @cons k w ks ws hw _ ih =>
    intro n hn
    rw [Wire.slotInts_cons, List.mem_append] at hn
    rcases hn with hn | hn
    · cases k <;> cases w <;>
        simp_all [Wire.slotInts, Wire.kindWords, Word.int?, OperandKind.Admits]
    · exact ih n hn

/-- The checks on a list of operands split into those on the first and those on the rest,
the rest being checked against the state the first leaves. -/
lemma argsFine_cons {k : OperandKind} {ks : List OperandKind} {w : Word} {ws : List Word}
    (hk : Wire.SourcesFirst (k :: ks)) (hw : k.Admits w)
    (hws : List.Forall₂ OperandKind.Admits ks ws) (v : Bool) (st : Decoder) (rest : List Word) :
    ArgsFine sub st (k :: ks) (w :: ws) ↔
      ArgFine sub st k w ∧
        ArgsFine sub (afterArg v { st with rest := rest, pos := st.pos + 1 } k w) ks ws := by
  set st₁ := afterArg v { st with rest := rest, pos := st.pos + 1 } k w
  have hlimit : st₁.limit = st.limit := afterArg_limit ..
  have hused := mem_afterArg_used v { st with rest := rest, pos := st.pos + 1 } hw
  -- the rest's sources see the same value slots, since no source follows a slot
  have hsrc : ∀ n ∈ Wire.sourceInts ks ws, ∀ m : Nat, m ∈ st₁.valueSlots ↔ m ∈ st.valueSlots := by
    intro n hn m
    by_cases hkk : k = .slotIndex
    · rw [Wire.sourceInts_eq_nil (hk.1 hkk)] at hn
      simp at hn
    · rw [mem_afterArg_valueSlots v _ hw, slotInts_singleton_eq_nil hkk]
      simp
  have hnn := slotInts_nonneg hws
  rw [argFine_iff sub hw]
  constructor
  · rintro ⟨hlt, hnew, hnd, hs, hp⟩
    rw [Wire.slotInts_cons] at hlt hnew hnd
    rw [List.nodup_append] at hnd
    rw [Wire.sourceInts_cons] at hs
    rw [Wire.programWords_cons] at hp
    simp only [List.mem_append] at hlt hnew hs hp
    refine ⟨⟨fun n hn => ⟨hlt n (.inl hn), hnew n (.inl hn)⟩, fun n hn => hs n (.inl hn),
      fun p hp' => hp p (.inl hp')⟩, ⟨fun n hn => hlimit ▸ hlt n (.inr hn), fun n hn h => ?_,
      hnd.2.1, fun n hn => ?_, fun p hp' => hp p (.inr hp')⟩⟩
    · rcases (hused _).1 h with h | h
      · exact hnew n (.inr hn) h
      · exact hnd.2.2 _ h n hn (Int.toNat_of_nonneg (hnn n hn))
    · rw [hsrc n hn]
      exact hs n (.inr hn)
  · rintro ⟨⟨hlt, hs, hp⟩, hrest⟩
    refine ⟨fun n hn => ?_, fun n hn => ?_, ?_, fun n hn => ?_, fun p hp' => ?_⟩
    · rw [Wire.slotInts_cons, List.mem_append] at hn
      rcases hn with hn | hn
      · exact (hlt n hn).1
      · exact hlimit ▸ hrest.slot_lt n hn
    · rw [Wire.slotInts_cons, List.mem_append] at hn
      rcases hn with hn | hn
      · exact (hlt n hn).2
      · exact fun h => hrest.slot_new n hn ((hused _).2 (.inl h))
    · rw [Wire.slotInts_cons, List.nodup_append]
      refine ⟨slotInts_singleton_nodup k w, hrest.slots_nodup, fun a ha b hb hab => ?_⟩
      subst hab
      exact hrest.slot_new a hb ((hused _).2 (.inr (by rw [Int.toNat_of_nonneg (hnn a hb)]; exact ha)))
    · rw [Wire.sourceInts_cons, List.mem_append] at hn
      rcases hn with hn | hn
      · exact hs n hn
      · obtain ⟨h0, hm⟩ := hrest.sources n hn
        exact ⟨h0, (hsrc n hn _).1 hm⟩
    · rw [Wire.programWords_cons, List.mem_append] at hp'
      rcases hp' with hp' | hp'
      · exact hp p hp'
      · exact hrest.subprograms p hp'

lemma argsFine_nil (st : Decoder) : ArgsFine sub st [] [] :=
  ⟨by simp [Wire.slotInts], by simp [Wire.slotInts], by simp [Wire.slotInts],
    by simp [Wire.sourceInts], by simp [Wire.programWords]⟩

lemma argsEffect_nil (v : Bool) (st : Decoder) : ArgsEffect v st st [] [] :=
  ⟨rfl, rfl, by simp [Wire.slotInts], by simp [Wire.slotInts]⟩

lemma argsEffect_cons {v : Bool} {k : OperandKind} {ks : List OperandKind} {w : Word}
    {ws : List Word} (hw : k.Admits w) {st st' : Decoder} {rest : List Word}
    (h : ArgsEffect v (afterArg v { st with rest := rest, pos := st.pos + 1 } k w) st' ks ws) :
    ArgsEffect v st st' (k :: ks) (w :: ws) where
  limit := h.limit.trans (afterArg_limit ..)
  enclosures := h.enclosures.trans (afterArg_enclosures ..)
  used m := by
    rw [h.used, mem_afterArg_used _ _ hw, Wire.slotInts_cons k ks w ws, List.mem_append, or_assoc]
  valueSlots m := by
    rw [h.valueSlots, mem_afterArg_valueSlots _ _ hw, Wire.slotInts_cons k ks w ws,
      List.mem_append, and_or_left, or_assoc]

/-- Whatever list of operands is read, its words are admitted and pass `ArgsFine`, and the
reading has `ArgsEffect`. -/
theorem readArgs_sound (op : Opcode) (offset : Nat) :
    ∀ (ops : List (Operand × OperandKind)) (st st' : Decoder),
      Wire.SourcesFirst (ops.map Prod.snd) →
      (readArgs sub op offset ops).run st = .ok ((), st') →
      ∃ args, st.rest = args ++ st'.rest ∧
        List.Forall₂ OperandKind.Admits (ops.map Prod.snd) args ∧
        ArgsFine sub st (ops.map Prod.snd) args ∧
        ArgsEffect op.holdsValue st st' (ops.map Prod.snd) args
  | [], st, st', _, h => by
    simp only [readArgs, StateT.run_pure, except_pure, Except.ok.injEq, Prod.mk.injEq,
      true_and] at h
    subst h
    exact ⟨[], rfl, .nil, argsFine_nil sub st, argsEffect_nil _ st⟩
  | (r, k) :: ops, st, st', hk, h => by
    have hk' : Wire.SourcesFirst (k :: ops.map Prod.snd) := hk
    rw [readArgs, run_bind_ok] at h
    obtain ⟨_, st₁, h₁, h₂⟩ := h
    obtain ⟨w, rest, hrest, hw, hfine, rfl⟩ := (readArg_run_ok sub op offset _ st st₁).1 h₁
    obtain ⟨args, hrest₂, hadm, hfine₂, heff⟩ := readArgs_sound op offset ops _ st' hk'.2 h₂
    refine ⟨w :: args, ?_, .cons hw hadm,
      (argsFine_cons sub hk' hw hadm _ st rest).2 ⟨hfine, hfine₂⟩, argsEffect_cons hw heff⟩
    simp only [afterArg_rest] at hrest₂
    rw [hrest, hrest₂, List.cons_append]

/-- A list of operands whose words are admitted and pass `ArgsFine` is read. -/
theorem readArgs_complete (op : Opcode) (offset : Nat) :
    ∀ (ops : List (Operand × OperandKind)) (args rest : List Word) (st : Decoder),
      Wire.SourcesFirst (ops.map Prod.snd) → st.rest = args ++ rest →
      List.Forall₂ OperandKind.Admits (ops.map Prod.snd) args →
      ArgsFine sub st (ops.map Prod.snd) args →
      ∃ st', (readArgs sub op offset ops).run st = .ok ((), st') ∧ st'.rest = rest ∧
        ArgsEffect op.holdsValue st st' (ops.map Prod.snd) args
  | [], [], rest, st, _, hrest, _, _ => ⟨st, rfl, by simpa using hrest, argsEffect_nil _ st⟩
  | (r, k) :: ops, w :: args, rest, st, hk, hrest, hadm, hfine => by
    have hk' : Wire.SourcesFirst (k :: ops.map Prod.snd) := hk
    obtain ⟨hw, hadm'⟩ := List.forall₂_cons.1 hadm
    obtain ⟨hf₁, hf₂⟩ :=
      (argsFine_cons sub hk' hw hadm' op.holdsValue st (args ++ rest)).1 hfine
    have h₁ : (readArg sub op offset (r, k)).run st =
        .ok ((), afterArg op.holdsValue { st with rest := args ++ rest, pos := st.pos + 1 } k w) :=
      (readArg_run_ok sub op offset _ st _).2 ⟨w, args ++ rest, by simpa using hrest, hw, hf₁, rfl⟩
    obtain ⟨st', h₂, hrest', heff⟩ :=
      readArgs_complete op offset ops args rest _ hk'.2 (by simp) hadm' hf₂
    exact ⟨st', (run_bind_ok ..).2 ⟨(), _, h₁, h₂⟩, hrest', argsEffect_cons hw heff⟩

end Decoder

end Canopy
