import ClosureLang.Proofs.Evaluation.Agreement
import ClosureLang.Proofs.Likeness.Mirrors

namespace ClosureLang

open Float.Model Float.Model.UnpackedFloat

/-- The same bits, two zeros of any sign, or two numbers that are none. The last case is part of
the first here, as `Float` has a single number that is none. -/
def Indistinct (x y : Float) : Prop :=
  x.toBits = y.toBits ∨ (x == 0 ∧ y == 0) ∨ (x.isNaN ∧ y.isNaN)

/-- Unpacked numbers that differ in the sign of a zero at most. -/
inductive ZeroTwins : UnpackedFloat → UnpackedFloat → Prop where
  | same (u : UnpackedFloat) : ZeroTwins u u
  | zeros (s t : Sign) : ZeroTwins (.zero s) (.zero t)

namespace ZeroTwins

variable {u u' v v' : UnpackedFloat}

theorem trans (h : ZeroTwins u u') (h' : ZeroTwins u' v) : ZeroTwins u v := by
  cases h with
  | same => exact h'
  | zeros s t =>
    cases h' with
    | same => exact .zeros s t
    | zeros _ r => exact .zeros s r

/-- An operator that looks at the sign of a zero in neither operand keeps twins. -/
theorem binary {op : UnpackedFloat → UnpackedFloat → UnpackedFloat}
    (left : ∀ s t v, ZeroTwins (op (.zero s) v) (op (.zero t) v))
    (right : ∀ u s t, ZeroTwins (op u (.zero s)) (op u (.zero t))) (hu : ZeroTwins u u')
    (hv : ZeroTwins v v') : ZeroTwins (op u v) (op u' v') := by
  have hl : ZeroTwins (op u v) (op u' v) := by
    cases hu with
    | same => exact .same _
    | zeros s t => exact left s t v
  have hr : ZeroTwins (op u' v) (op u' v') := by
    cases hv with
    | same => exact .same _
    | zeros s t => exact right u' s t
  exact hl.trans hr

theorem neg (h : ZeroTwins u u') : ZeroTwins u.neg u'.neg := by
  cases h with
  | same => exact .same _
  | zeros s t => exact .zeros (-s) (-t)

theorem sqrt (h : ZeroTwins u u') : ZeroTwins (.sqrt .binary64 u) (.sqrt .binary64 u') := by
  cases h with
  | same => exact .same _
  | zeros s t => exact .zeros s t

theorem add (hu : ZeroTwins u u') (hv : ZeroTwins v v') :
    ZeroTwins (.add .binary64 u v) (.add .binary64 u' v') := by
  refine binary (fun s t v => ?_) (fun u s t => ?_) hu hv
  · cases v with
    | zero r => cases s <;> cases t <;> cases r <;> exact .zeros _ _
    | notANumber | infinity | finite => exact .same _
  · cases u with
    | zero r => cases s <;> cases t <;> cases r <;> exact .zeros _ _
    | notANumber | infinity | finite => exact .same _

theorem sub (hu : ZeroTwins u u') (hv : ZeroTwins v v') :
    ZeroTwins (.sub .binary64 u v) (.sub .binary64 u' v') := by
  refine binary (fun s t v => ?_) (fun u s t => ?_) hu hv
  · cases v with
    | zero r => cases s <;> cases t <;> cases r <;> exact .zeros _ _
    | notANumber | infinity | finite => exact .same _
  · cases u with
    | zero r => cases s <;> cases t <;> cases r <;> exact .zeros _ _
    | notANumber | infinity | finite => exact .same _

theorem mul (hu : ZeroTwins u u') (hv : ZeroTwins v v') :
    ZeroTwins (.mul .binary64 u v) (.mul .binary64 u' v') := by
  refine binary (fun s t v => ?_) (fun u s t => ?_) hu hv
  · cases v with
    | zero | finite => exact .zeros _ _
    | notANumber | infinity => exact .same _
  · cases u with
    | zero | finite => exact .zeros _ _
    | notANumber | infinity => exact .same _

/-- Only a divisor that is zero shows its sign. -/
theorem div (hu : ZeroTwins u u') (hv : ZeroTwins v v') (hz : ∀ s, v ≠ .zero s) :
    ZeroTwins (.div .binary64 u v) (.div .binary64 u' v') := by
  cases hv with
  | zeros s t => exact absurd rfl (hz s)
  | same =>
    cases hu with
    | same => exact .same _
    | zeros s t =>
      cases v with
      | zero r => exact absurd rfl (hz r)
      | finite | infinity => exact .zeros _ _
      | notANumber => exact .same _

theorem compare (hu : ZeroTwins u u') (hv : ZeroTwins v v') :
    u.compare v = u'.compare v' := by
  have hl : u.compare v = u'.compare v := by
    cases hu with
    | same => rfl
    | zeros s t =>
      cases v with
      | infinity r | finite r => cases r <;> rfl
      | notANumber | zero => rfl
  have hr : u'.compare v = u'.compare v' := by
    cases hv with
    | same => rfl
    | zeros s t =>
      cases u' with
      | infinity r | finite r => cases r <;> rfl
      | notANumber | zero => rfl
  exact hl.trans hr

end ZeroTwins

namespace Indistinct

variable {x x' y y' : Float}

theorem unpack_of_beq_zero (h : x == 0) : ∃ s, x.toModel.unpack = .zero s := by
  have hc : (x.toModel.unpack.compare (.zero .positive) == some .eq) = true := h
  cases hx : x.toModel.unpack with
  | zero s => exact ⟨s, rfl⟩
  | notANumber => simp [hx, UnpackedFloat.compare] at hc
  | infinity s => cases s <;> simp [hx, UnpackedFloat.compare] at hc
  | finite s => cases s <;> simp [hx, UnpackedFloat.compare] at hc

theorem unpack_of_isNaN (h : x.isNaN) : x.toModel.unpack = .notANumber := by
  have hn : x.toModel.unpack.isNaN = true := h
  cases hx : x.toModel.unpack with
  | notANumber => rfl
  | zero | infinity | finite => simp [hx, UnpackedFloat.isNaN] at hn

/-- Indistinct numbers differ in the sign of a zero at most. -/
theorem twins (h : Indistinct x y) : ZeroTwins x.toModel.unpack y.toModel.unpack := by
  rcases h with hbits | ⟨hx, hy⟩ | ⟨hx, hy⟩
  · have hu : x.toModel.unpack = y.toModel.unpack :=
      congrArg (fun b : UInt64 => unpack .binary64 b.toBitVec) hbits
    exact hu ▸ .same _
  · obtain ⟨s, hs⟩ := unpack_of_beq_zero hx
    obtain ⟨t, ht⟩ := unpack_of_beq_zero hy
    rw [hs, ht]
    exact .zeros s t
  · rw [unpack_of_isNaN hx, unpack_of_isNaN hy]
    exact .same _

theorem of_twins {u v : UnpackedFloat} (h : ZeroTwins u v) :
    Indistinct ⟨.pack u⟩ ⟨.pack v⟩ := by
  cases h with
  | same => exact .inl rfl
  | zeros s t =>
    have hz (s : Sign) : (⟨.pack (.zero s)⟩ : Float) == 0 := by cases s <;> rfl
    exact .inr (.inl ⟨hz s, hz t⟩)

theorem neg (h : Indistinct x x') : Indistinct (-x) (-x') :=
  of_twins h.twins.neg

theorem sqrt (h : Indistinct x x') : Indistinct x.sqrt x'.sqrt :=
  of_twins h.twins.sqrt

theorem add (hx : Indistinct x x') (hy : Indistinct y y') : Indistinct (x + y) (x' + y') :=
  of_twins (hx.twins.add hy.twins)

theorem sub (hx : Indistinct x x') (hy : Indistinct y y') : Indistinct (x - y) (x' - y') :=
  of_twins (hx.twins.sub hy.twins)

theorem mul (hx : Indistinct x x') (hy : Indistinct y y') : Indistinct (x * y) (x' * y') :=
  of_twins (hx.twins.mul hy.twins)

theorem beq (hx : Indistinct x x') (hy : Indistinct y y') : (x == y) = (x' == y') :=
  congrArg (· == some Ordering.eq) (hx.twins.compare hy.twins)

theorem lt (hx : Indistinct x x') (hy : Indistinct y y') : x < y ↔ x' < y' := by
  have h := congrArg (· == some Ordering.lt) (hx.twins.compare hy.twins)
  change decide (x.toModel < y.toModel) = true ↔ decide (x'.toModel < y'.toModel) = true
  rw [decide_eq_true_iff, decide_eq_true_iff]
  exact iff_of_eq (congrArg (· = true) h)

theorem le (hx : Indistinct x x') (hy : Indistinct y y') : x ≤ y ↔ x' ≤ y' := by
  have h := congrArg (·.any Ordering.isLE) (hx.twins.compare hy.twins)
  change decide (x.toModel ≤ y.toModel) = true ↔ decide (x'.toModel ≤ y'.toModel) = true
  rw [decide_eq_true_iff, decide_eq_true_iff]
  exact iff_of_eq (congrArg (· = true) h)

theorem ordered (hx : Indistinct x x') (hy : Indistinct y y') (op : BinaryOp) :
    ordered op x y = ordered op x' y' := by
  cases op with
  | less => exact decide_eq_decide.mpr (hx.lt hy)
  | greater => exact decide_eq_decide.mpr (hy.lt hx)
  | lessEqual => exact decide_eq_decide.mpr (hx.le hy)
  | greaterEqual => exact decide_eq_decide.mpr (hy.le hx)
  | add | sub | mul | div | equal | notEqual => rfl

theorem div (hx : Indistinct x x') (hy : Indistinct y y') (hz : (y == 0) = false) :
    Indistinct (x / y) (x' / y') := by
  refine of_twins (hx.twins.div hy.twins fun s hs => ?_)
  have hbeq : (y == 0) = (y.toModel.unpack.compare (.zero .positive) == some .eq) := rfl
  rw [hs] at hbeq
  exact absurd (hz.symm.trans hbeq) (by simp [UnpackedFloat.compare])

end Indistinct

namespace Binary64

theorem field_eq (x : Float) :
    (@unpackExponent .binary64 x.toBits.toBitVec).toNat = x.toBits.toNat / hiddenBit % 2048 := by
  simp [unpackExponent, hiddenBit, Nat.shiftRight_eq_div_pow]

theorem fraction_eq (x : Float) :
    (@unpackMantissa .binary64 x.toBits.toBitVec).toNat = x.toBits.toNat % hiddenBit := by
  simp [unpackMantissa, hiddenBit]

theorem ofFloat_zero {x : Float} {s : Sign} (h : x.toModel.unpack = .zero s) :
    ∃ negative, ofFloat x = .finite negative 0 leastExponent := by
  have hf : x.toBits.toNat / hiddenBit % 2048 = 0 ∧ x.toBits.toNat % hiddenBit = 0 := by
    rw [← field_eq, ← fraction_eq]
    change UnpackedFloat.unpack .binary64 x.toBits.toBitVec = _ at h
    simp only [UnpackedFloat.unpack] at h
    split at h
    · split at h <;> cases h
    · split at h
      next he =>
        split at h
        next hm => exact ⟨by rw [he]; rfl, by rw [hm]; rfl⟩
        next => cases h
      next => cases h
  refine ⟨x.toBits.toNat / signBit % 2 == 1, ?_⟩
  simp [ofFloat, ofBits, hf, specialField]

theorem ofFloat_notANumber {x : Float} (h : x.toModel.unpack = .notANumber) :
    ofFloat x = .notANumber := by
  have hf : x.toBits.toNat / hiddenBit % 2048 = 2047 ∧ x.toBits.toNat % hiddenBit ≠ 0 := by
    rw [← field_eq, ← fraction_eq]
    change UnpackedFloat.unpack .binary64 x.toBits.toBitVec = _ at h
    simp only [UnpackedFloat.unpack] at h
    split at h
    next he =>
      split at h
      next => cases h
      next hm => exact ⟨by rw [he]; rfl, fun h0 => hm (BitVec.eq_of_toNat_eq h0)⟩
    next =>
      split at h
      · split at h <;> cases h
      · cases h
  simp [ofFloat, ofBits, hf, specialField]

end Binary64

/-- Displaying a number does not look at the sign of a zero. -/
theorem Indistinct.render {x x' : Float} (h : Indistinct x x') :
    NumberStyle.display.render x = NumberStyle.display.render x' := by
  have hzero : ∀ y : Float, y == 0 → NumberStyle.display.render y = "0" := by
    intro y hy
    obtain ⟨s, hs⟩ := unpack_of_beq_zero hy
    obtain ⟨negative, hb⟩ := Binary64.ofFloat_zero hs
    cases negative <;> simp [NumberStyle.render, hb] <;> rfl
  rcases h with hbits | ⟨hx, hx'⟩ | ⟨hx, hx'⟩
  · simp [NumberStyle.render, Binary64.ofFloat, hbits]
  · rw [hzero x hx, hzero x' hx']
  · simp [NumberStyle.render, Binary64.ofFloat_notANumber (unpack_of_isNaN hx),
      Binary64.ofFloat_notANumber (unpack_of_isNaN hx')]

/-- Numbers may differ in the sign of a zero. -/
def Likeness.unsigned : Likeness where
  line := Eq
  number := Indistinct
  output := Eq
  neg := Indistinct.neg
  add := Indistinct.add
  sub := Indistinct.sub
  mul := Indistinct.mul
  div := Indistinct.div
  sqrt := Indistinct.sqrt
  zero h := h.beq (.inl rfl)
  equal := Indistinct.beq
  order := Indistinct.ordered
  render := Indistinct.render
  println := Likeness.same.println

theorem Likeness.unsigned_reflexive : Likeness.unsigned.Reflexive :=
  ⟨fun _ => rfl, fun _ => .inl rfl⟩

theorem Fault.eq_of_like_unsigned {f f' : Fault} (h : f.Like .unsigned f') : f' = f := by
  obtain ⟨hl, hf⟩ := h
  have hline : f.line = f'.line := hl
  rw [← hline] at hf
  rw [hf]
  cases f <;> rfl

namespace World

/-- Two runs show the same: the same fault, or results that differ in the signs of zeros at most,
the same printed text, and worlds that differ in the signs of zeros at most. -/
structure ShowSame (r r' : Outcome × World) : Prop where
  outcome : r.1.Like .unsigned .same r'.1
  fault : ∀ f, r.1 = .fault f ↔ r'.1 = .fault f
  output : r.2.output.text = r'.2.output.text
  world : r.2.Mirrors .unsigned r'.2

/-- Runs that end in worlds that mirror each other show the same. -/
theorem EndsMirrored.showSame {r r' : Option (Outcome × World)}
    (h : EndsMirrored .unsigned r r') : Option.Rel ShowSame r r' := by
  cases h with
  | none => exact .none
  | @some a b h =>
    obtain ⟨o, u⟩ := a
    obtain ⟨o', u'⟩ := b
    obtain ⟨ho, -, hm⟩ := h
    refine .some ⟨ho, fun f => ?_, congrArg Output.text hm.output, hm⟩
    cases ho with
    | value | signal => simp
    | fault hf => simp [Fault.eq_of_like_unsigned hf]

/-- No run can tell the sign of a zero: what differs in the signs of zeros at most, in the trees
and in the values of the world, is evaluated, executed and interpreted with the same output, to
the same fault or to results that differ in the signs of zeros at most. -/
theorem run_ignores_zero_signs {w w' : World} (hw : w.WellFormed) (h : w.Mirrors .unsigned w')
    (n : Nat) :
    (∀ e e' : Expr, e.Like .unsigned e' →
      Option.Rel ShowSame (w.evaluate n e) (w'.evaluate n e')) ∧
    (∀ s s' : Stmt, s.Like .unsigned s' →
      Option.Rel ShowSame (w.execute n s) (w'.execute n s')) ∧
    ∀ body body' : List Stmt, List.Forall₂ (Stmt.Like .unsigned) body body' →
      Option.Rel
        (fun r r' => r.1 = r'.1 ∧ r.2.output.text = r'.2.output.text ∧ r.2.Mirrors .unsigned r'.2)
        (w.interpret n body) (w'.interpret n body') := by
  refine ⟨fun e e' he => (h.evaluate hw he n).showSame,
    fun s s' hs => (h.execute hw hs n).showSame, fun body body' hb => ?_⟩
  have hr := h.interpret hw hb n
  generalize w.interpret n body = r at hr
  generalize w'.interpret n body' = r' at hr
  cases hr with
  | none => exact .none
  | @some a b hr =>
    obtain ⟨x, u⟩ := a
    obtain ⟨x', u'⟩ := b
    obtain ⟨hx, -, hm⟩ := hr
    refine .some ⟨?_, congrArg Output.text hm.output, hm⟩
    cases hx with
    | ok => rfl
    | error hf => rw [Fault.eq_of_like_unsigned hf]

/-- The initial world with a variable `z`. -/
def withNumber (x : Float) : World :=
  initial.bindAt 0 "z" (.number x)

theorem withNumber_like {x x' : Float} (h : Indistinct x x') :
    (withNumber x).Like .unsigned (.identity 1) (withNumber x') :=
  (initial_wellFormed.like Likeness.unsigned_reflexive rfl).bindAt
    ⟨⟨rfl, Nat.zero_lt_one⟩, fun _ => List.not_mem_nil⟩ "z" (.number h)

/-- `output z + "!";` and, on the next line, `output x / -z;` with a literal for `x`. -/
def division (x : Float) : List Stmt :=
  [.output (.binary (.lookup "z" 1) .add (.literal (.text "!")) 1),
    .output (.binary (.literal (.number x)) .div (.unary .negate (.lookup "z" 2) 2) 2)]

/-- Programs that differ in the signs of zeros print the same in both worlds, and divide by zero. -/
theorem run_ignores_zero_signs_division :
    ((withNumber 0).WellFormed ∧ (withNumber 0).Mirrors .unsigned (withNumber (-0))) ∧
      ∃ w w', (withNumber 0).interpret 30 (division (-0)) = some (.error (.divisionByZero 2), w) ∧
        (withNumber (-0)).interpret 30 (division 0) = some (.error (.divisionByZero 2), w') ∧
        w.output.text = "0!\n" ∧ w'.output.text = "0!\n" ∧ w.Mirrors .unsigned w' := by
  have hz : Indistinct (0 : Float) (-0) := .inr (.inl ⟨by rfl, by rfl⟩)
  have hz' : Indistinct (-0 : Float) 0 := .inr (.inl ⟨by rfl, by rfl⟩)
  have hw := withNumber_like hz
  have hbody : List.Forall₂ (Stmt.Like .unsigned) (division (-0)) (division 0) :=
    .cons (.output (.binary (.lookup rfl) (.literal .text) rfl))
      (.cons (.output (.binary (.literal (.number hz')) (.unary (.lookup rfl) rfl) rfl)) .nil)
  have hrun : ∃ w, (withNumber 0).interpret 30 (division (-0)) =
      some (.error (.divisionByZero 2), w) ∧ w.output.text = "0!\n" :=
    ⟨_, by with_unfolding_all rfl, by with_unfolding_all rfl⟩
  obtain ⟨w, hrun, htext⟩ := hrun
  have hsame := (run_ignores_zero_signs hw.wellFormed (hw.mirrors rfl) 30).2.2 _ _ hbody
  rw [hrun] at hsame
  generalize (withNumber (-0)).interpret 30 (division 0) = r' at hsame
  cases hsame with
  | @some _ r' h =>
    obtain ⟨x', w'⟩ := r'
    obtain ⟨hx, ho, hm⟩ := h
    cases hx
    exact ⟨⟨hw.wellFormed, hw.mirrors rfl⟩, w, w', hrun, rfl, htext, ho.symm.trans htext, hm⟩

end World

end ClosureLang
