import ClosureLang.Proofs.Numbers.Floats
import ClosureLang.Proofs.Numbers.Reading
import ClosureLang.Proofs.Scanning.LineBreaks

namespace ClosureLang

open Float.Model Float.Model.UnpackedFloat Binary64

namespace Spelling

theorem lexeme (s : Spelling) (h : s.mark = []) : Lexeme .number s.text := by
  have hwhole (c : Char) (hc : c ∈ s.whole) : Digit c := s.digit c (List.mem_append_left _ hc)
  unfold text
  rw [h, List.append_nil]
  by_cases hf : s.fraction = []
  · rw [hf, pointed, List.append_nil]
    exact .whole s.whole_ne_nil hwhole
  · rw [pointed_of_ne_nil hf]
    exact .fraction s.whole_ne_nil hwhole hf fun c hc => s.digit c (List.mem_append_right _ hc)

theorem toLower_of_digit {c : Char} (h : Digit c) : c.toLower = c := by
  unfold Char.toLower
  refine dif_neg fun hupper => ?_
  exact absurd (hupper.1.trans h.2) (by decide)

/-- No name of a special value starts with a digit. -/
theorem ne_word_of_digit {c : Char} (h : Digit c) (rest : List Char) (word : String)
    (hw : ∀ d ∈ word.toList.head?, ¬ Digit d) : (c :: rest).map Char.toLower ≠ word.toList := by
  intro he
  rw [List.map_cons, toLower_of_digit h] at he
  exact hw c (by rw [← he]; rfl) h

/-- A spelling is read as the double nearest to its decimal, a minus in front of it as the sign. -/
theorem readNumber?_signed (negative : Bool) (s : Spelling) :
    readNumber? (NumberStyle.signed negative s.text) =
      some (Float.ofBits (.ofNat ((if negative then signBit else 0) +
        s.decimal.nearestBits (s.whole ++ s.fraction).length))) := by
  obtain ⟨c, whole, hwhole⟩ := List.exists_cons_of_ne_nil s.whole_ne_nil
  have hc : Digit c := s.digit c (by simp [hwhole])
  have hread := s.readBits?_text
  obtain ⟨rest, htext⟩ : ∃ rest, s.text = c :: rest := by
    rw [text, hwhole]
    exact ⟨_, rfl⟩
  rw [htext] at hread ⊢
  have hinf := ne_word_of_digit hc rest "inf" (by rintro d ⟨⟩; decide)
  have hinfinity := ne_word_of_digit hc rest "infinity" (by rintro d ⟨⟩; decide)
  have hnan := ne_word_of_digit hc rest "nan" (by rintro d ⟨⟩; decide)
  have hbits : (if (c :: rest).map Char.toLower = "inf".toList ∨
        (c :: rest).map Char.toLower = "infinity".toList then some infinityBits
      else if (c :: rest).map Char.toLower = "nan".toList then some (infinityBits + hiddenBit / 2)
      else Decimal.readBits? (c :: rest)) =
        some (s.decimal.nearestBits (s.whole ++ s.fraction).length) := by
    rw [if_neg (not_or.mpr ⟨hinf, hinfinity⟩), if_neg hnan, hread]
  cases negative with
  | true =>
    simp only [readNumber?, NumberStyle.signed, if_true]
    rw [hbits, Option.map_some, Nat.add_comm]
  | false =>
    simp only [readNumber?, NumberStyle.signed, Bool.false_eq_true, if_false]
    split
    next he => exact absurd ((List.cons.inj he).1 ▸ hc) (by decide)
    next he => exact absurd ((List.cons.inj he).1 ▸ hc) (by decide)
    next => simp only [Bool.false_eq_true, if_false, hbits, Option.map_some, Nat.zero_add]

end Spelling

theorem longest_of_nil (l : List Char) : Longest l [] := by
  intro kind l' _ hl'
  rw [List.append_nil] at hl'
  exact hl'.length_le

theorem segmented_number {l : List Char} (h : Lexeme .number l) :
    Segmented l [.token .number l] := by
  have hfirst : FirstSegment (l ++ []) (.token .number l) [] :=
    .token h ⟨nofun, nofun⟩ (longest_of_nil l) nofun
  rw [List.append_nil] at hfirst
  exact .cons hfirst .nil

theorem count_number {l : List Char} (h : Lexeme .number l) : l.count '\n' = 0 := by
  have hdigit (ds : List Char) (hds : ∀ d ∈ ds, Digit d) : '\n' ∉ ds :=
    fun hmem => absurd (hds _ hmem) (by decide)
  rw [List.count_eq_zero]
  cases h with
  | symbol h | keyword h => cases h
  | whole _ hds => exact hdigit l hds
  | fraction _ hds _ hes => simp [hdigit _ hds, hdigit _ hes]

/-- A number is scanned as a number. -/
theorem scan_number {l : List Char} (h : Lexeme .number l) :
    scan (.ofList l) = ⟨[.make .number (.ofList l) 1, .endOfInput 1], []⟩ := by
  have hcut := Segment.cutAll_eq_iff.mpr (segmented_number h)
  unfold scan
  rw [String.toList_ofList, hcut]
  simp [Scanning.start, Scanning.add, Scanning.finish, Segment.text, count_number h]

/-- A minus in front of a number is a token of its own. -/
theorem scan_minus_number {l : List Char} (h : Lexeme .number l) :
    scan (.ofList ('-' :: l)) =
      ⟨[.make .minus "-" 1, .make .number (.ofList l) 1, .endOfInput 1], []⟩ := by
  have hminus : Segment.cut '-' l = (.token .minus ['-'], l) := rfl
  have hsegmented : Segmented ('-' :: l) [.token .minus ['-'], .token .number l] :=
    .cons (Segment.cut_eq_iff.mp hminus) (segmented_number h)
  have hcut := Segment.cutAll_eq_iff.mpr hsegmented
  unfold scan
  rw [String.toList_ofList, hcut]
  simp [Scanning.start, Scanning.add, Scanning.finish, Segment.text, count_number h]

theorem ZeroTwins.symm {u v : UnpackedFloat} (h : ZeroTwins u v) : ZeroTwins v u := by
  cases h with
  | same => exact .same _
  | zeros s t => exact .zeros t s

/-- Finite numbers that differ in the sign of a zero at most are equal. -/
theorem ZeroTwins.beq {x y : Float} (h : ZeroTwins x.toModel.unpack y.toModel.unpack)
    (hf : y.isFinite) : x == y := by
  have hfinite : y.toModel.unpack.isFinite = true := hf
  change (x.toModel.unpack.compare y.toModel.unpack == some .eq) = true
  generalize x.toModel.unpack = u at h
  generalize y.toModel.unpack = v at h hfinite
  cases h with
  | zeros => rfl
  | same =>
    cases u with
    | notANumber | infinity => cases hfinite
    | zero => rfl
    | finite s => cases s <;> simp [UnpackedFloat.compare]

namespace NumberStyle

open RoundingInterval Spelling

variable {style : NumberStyle} {x y : Float} {negative : Bool} {m : ℕ} {q : ℤ}

/-- A number other than zero is written by its sign and the layout of its shortest decimal. -/
theorem render_of_finite {hm : 0 < m} (style : NumberStyle)
    (h : x.toModel.unpack = .finite (signOf negative) m q hm) :
    Canonical m q ∧
      style.render x = .ofList (signed negative (style.layout (ofMantissa m q).shortest)) := by
  obtain ⟨negative', hsign, hbits, hc⟩ := ofBits_of_unpack (b := x.toBits.toBitVec) h
  obtain rfl : negative = negative' := by
    revert hsign
    cases negative <;> cases negative' <;> simp [signOf]
  have hfloat : ofFloat x = .finite negative m q := hbits
  have hne : (m != 0) = true := bne_iff_ne.mpr hm.ne'
  refine ⟨hc, ?_⟩
  simp [render, hfloat, magnitude, hm.ne', hne]

/-- A zero is written as a spelling of zero, behind a minus if the style shows the sign. -/
theorem render_of_zero {s : Sign} (style : NumberStyle) (h : x.toModel.unpack = .zero s) :
    ∃ negative, ∃ t : Spelling,
      style.render x = .ofList (signed (negative && style.signedZero) t.text) ∧
      t.decimal.digits = 0 ∧ t.mark = [] := by
  obtain ⟨negative, hfloat⟩ := ofFloat_zero h
  have hdigit (c : Char) (hc : c ∈ ['0']) : Digit c := Decimal.digit_of_mem_zeros (k := 1) hc
  obtain ⟨t, htext, hvalue, hmark⟩ := trailing_spelling (by simp) hdigit 0 style.fraction
  refine ⟨negative, t, ?_, ?_, hmark⟩
  · have hmagnitude : style.magnitude 0 leastExponent = t.text := by
      rw [← htext, magnitude, if_pos rfl]
      split <;> rfl
    simp only [render, hfloat, hmagnitude]
    rfl
  · have hzero : Decimal.digitsValue ['0'] = 0 := Decimal.digitsValue_zeros 1
    have hscale : (10 : ℚ) ^ t.decimal.exponent ≠ 0 := zpow_ne_zero _ (by norm_num)
    simpa [Decimal.value, hzero, hscale] using hvalue

/-- The shortest decimal of a double is written so that it reads back. -/
theorem shortest_spelling (style : NumberStyle) (h : Canonical m q) :
    ∃ s : Spelling, style.layout (ofMantissa m q).shortest = s.text ∧
      s.decimal.nearestBits (s.whole ++ s.fraction).length = bitsOf m q ∧
      (style.least ≤ place (ofMantissa m q).shortest - 1 →
        place (ofMantissa m q).shortest - 1 ≤ style.greatest → s.mark = []) := by
  obtain ⟨s, htext, hvalue, hmark⟩ := style.layout_spelling (ofMantissa m q).shortest
  refine ⟨s, htext, Decimal.nearestBits_eq h s.decimal_digits_lt ?_, hmark⟩
  rw [hvalue]
  exact shortest_mem h

/-- What a style writes for a finite number is read as that number, up to the sign of a zero. -/
theorem readNumber?_render (style : NumberStyle) (h : x.isFinite) :
    ∃ y, readNumber? (style.render x).toList = some y ∧
      ZeroTwins y.toModel.unpack x.toModel.unpack := by
  have hfinite : x.toModel.unpack.isFinite = true := h
  cases hx : x.toModel.unpack with
  | notANumber | infinity =>
    rw [hx] at hfinite
    cases hfinite
  | zero s =>
    obtain ⟨negative, t, hrender, hdigits, -⟩ := render_of_zero style hx
    have hread := readNumber?_signed (negative && style.signedZero) t
    rw [Decimal.nearestBits, if_pos hdigits] at hread
    refine ⟨_, by rw [hrender, String.toList_ofList, hread], ?_⟩
    cases negative && style.signedZero with
    | false => exact .zeros .positive s
    | true => exact .zeros .negative s
  | finite s m q hm =>
    obtain ⟨negative, rfl⟩ : ∃ negative, s = signOf negative := by
      cases s
      · exact ⟨true, rfl⟩
      · exact ⟨false, rfl⟩
    obtain ⟨hc, hrender⟩ := render_of_finite style hx
    obtain ⟨t, htext, hbits, -⟩ := shortest_spelling style hc
    have hread := readNumber?_signed negative t
    rw [hbits] at hread
    refine ⟨_, by rw [hrender, String.toList_ofList, htext, hread], ?_⟩
    rw [← unpack_ofBits negative hc]
    exact .same _

/-- A number has no more digits than it needs. -/
theorem pow_length_le {n : ℕ} (h : 0 < n) : 10 ^ ((Nat.toDigits 10 n).length - 1) ≤ n := by
  have hlength : 0 < (Nat.toDigits 10 n).length := Nat.length_toDigits_pos
  by_contra hlt
  obtain hone | hmore : (Nat.toDigits 10 n).length = 1 ∨ 0 < (Nat.toDigits 10 n).length - 1 := by
    omega
  · rw [hone] at hlt
    omega
  · have hle := (Nat.length_toDigits_le_iff (by decide) hmore).mpr (not_le.mp hlt)
    omega

theorem place_bounds {d : Decimal} (h : 0 < d.digits) :
    10 ^ (place d - 1) ≤ d.value ∧ d.value < 10 ^ place d := by
  have hlength : 0 < (Nat.toDigits 10 d.digits).length := Nat.length_toDigits_pos
  have hupper : d.digits < 10 ^ (Nat.toDigits 10 d.digits).length :=
    (Nat.length_toDigits_le_iff (by decide) hlength).mp le_rfl
  have hlower := pow_length_le h
  have hplace : place d = (Nat.toDigits 10 d.digits).length + d.exponent := rfl
  generalize (Nat.toDigits 10 d.digits).length = length at *
  have hupper' : (d.digits : ℚ) < 10 ^ length := by exact_mod_cast hupper
  have hlower' : (10 : ℚ) ^ (length - 1) ≤ d.digits := by exact_mod_cast hlower
  constructor
  · calc (10 : ℚ) ^ (place d - 1) = 10 ^ (length - 1) * 10 ^ d.exponent := by
          rw [← zpow_natCast, ← zpow_add₀ (by norm_num)]
          congr 1
          omega
      _ ≤ d.digits * 10 ^ d.exponent := by gcongr
  · calc (d.digits : ℚ) * 10 ^ d.exponent < 10 ^ length * 10 ^ d.exponent := by gcongr
      _ = 10 ^ place d := by rw [hplace, zpow_add₀ (by norm_num), zpow_natCast]

/-- The double nearest to a millionth. -/
theorem unpack_millionth :
    (1e-6 : Float).toModel.unpack = .finite .positive 4722366482869645 (-72) (by decide) := by
  with_unfolding_all rfl

theorem unpack_sextillion :
    (1e21 : Float).toModel.unpack = .finite .positive 7629394531250000 17 (by decide) := by
  with_unfolding_all rfl

theorem canonical_of_unpack {s : Sign} {hm : 0 < m} (h : x.toModel.unpack = .finite s m q hm) :
    Canonical m q :=
  (ofBits_of_unpack (b := x.toBits.toBitVec) h).choose_spec.2.2

/-- From a millionth up to `10 ^ 21` the notation is positional. -/
theorem place_of_range (h : Canonical m q)
    (hl : (4722366482869645 = m ∧ -72 = q) ∨ Below 4722366482869645 (-72) m q)
    (hu : Below m q 7629394531250000 17) :
    -6 ≤ place (ofMantissa m q).shortest - 1 ∧ place (ofMantissa m q).shortest - 1 ≤ 20 := by
  have hmem := shortest_mem h
  have hpos := ofMantissa_pos h.pos hmem
  have hdigits : 0 < (ofMantissa m q).shortest.digits := by
    refine Nat.pos_of_ne_zero fun hzero => ?_
    simp [Decimal.value, hzero] at hpos
  obtain ⟨hlower, hupper⟩ := place_bounds hdigits
  have hbelow : (ofMantissa m q).shortest.value < 10 ^ (21 : ℤ) := by
    have hsextillion : (10 : ℚ) ^ (21 : ℤ) ∈ (ofMantissa 7629394531250000 17).points := by
      have := mem_ofMantissa (m := 7629394531250000) (by decide) 17
      norm_num at this ⊢
      exact this
    exact points_lt h (canonical_of_unpack unpack_sextillion) hu hmem hsextillion
  have habove : (10 : ℚ) ^ (-6 : ℤ) ≤ (ofMantissa m q).shortest.value := by
    obtain ⟨rfl, rfl⟩ | hl := hl
    · have hshortest : (ofMantissa 4722366482869645 (-72)).shortest = ⟨1, -6⟩ := by
        decide +kernel
      rw [hshortest, Decimal.value]
      simp
    · have hmillionth : (10 : ℚ) ^ (-6 : ℤ) ∈ (ofMantissa 4722366482869645 (-72)).points := by
        refine mem_of_between (by decide) ?_ ?_ <;> norm_num [gap, hiddenBit]
      exact (points_lt (canonical_of_unpack unpack_millionth) h hl hmillionth hmem).le
  have h₁ := (zpow_lt_zpow_iff_right₀ (by norm_num : (1 : ℚ) < 10)).mp (hlower.trans_lt hbelow)
  have h₂ := (zpow_lt_zpow_iff_right₀ (by norm_num : (1 : ℚ) < 10)).mp (habove.trans_lt hupper)
  omega

/-- The token of a text in positional notation has the number that it is read as. -/
theorem exists_token {t : Spelling} (hr : display.render x = .ofList t.text) (hf : x.isFinite) :
    ∃ y, Token.make .number (.ofList t.text) 1 =
      ⟨.number, display.render x, some (.number y), 1⟩ ∧ y == x := by
  obtain ⟨y, hread, htwins⟩ := readNumber?_render display hf
  rw [hr, String.toList_ofList] at hread
  exact ⟨y, by simp [Token.make, Token.literalOf, hread, hr], htwins.beq hf⟩

/-- From a millionth up to `10 ^ 21` numbers are written in positional notation. -/
theorem positional_of_range (hl : 1e-6 ≤ x) (hu : x < 1e21) :
    ∃ m q, ∃ hm : 0 < m, x.toModel.unpack = .finite (signOf false) m q hm ∧
      ∃ t : Spelling, display.layout (ofMantissa m q).shortest = t.text ∧ t.mark = [] := by
  obtain ⟨m, q, hm, hx, hlower, hupper⟩ := between unpack_millionth unpack_sextillion hl hu
  have hc := canonical_of_unpack hx
  obtain ⟨t, htext, -, hmark⟩ := shortest_spelling display hc
  obtain ⟨h₁, h₂⟩ := place_of_range hc hlower hupper
  exact ⟨m, q, hm, hx, t, htext, hmark h₁ h₂⟩

theorem isFinite_of_finite {s : Sign} {hm : 0 < m} (h : x.toModel.unpack = .finite s m q hm) :
    x.isFinite := by
  change x.toModel.unpack.isFinite = true
  rw [h]
  rfl

/-- What a number displays reads back as the number, so that numbers which display the same are
equal. A zero and the numbers from a millionth up to `10 ^ 21` display as what is scanned as one
number, and those with a sign as a minus and that number. -/
theorem display_reads_back :
    (∀ x : Float, x.isFinite →
      ∃ y, readNumber? (display.render x).toList = some y ∧ y == x) ∧
    (∀ x y : Float, x.isFinite → y.isFinite → display.render x = display.render y → x == y) ∧
    (∀ x : Float, x == 0 ∨ 1e-6 ≤ x ∧ x < 1e21 →
      ∃ y, scan (display.render x) =
        ⟨[⟨.number, display.render x, some (.number y), 1⟩, .endOfInput 1], []⟩ ∧ y == x) ∧
    ∀ x : Float, 1e-6 ≤ -x ∧ -x < 1e21 →
      ∃ y, scan (display.render x) =
        ⟨[.make .minus "-" 1, ⟨.number, display.render (-x), some (.number y), 1⟩,
          .endOfInput 1], []⟩ ∧ y == -x := by
  refine ⟨fun x h => ?_, fun x y hx hy he => ?_, fun x h => ?_, fun x h => ?_⟩
  · obtain ⟨y, hread, htwins⟩ := readNumber?_render display h
    exact ⟨y, hread, htwins.beq h⟩
  · obtain ⟨z, hz, htwins⟩ := readNumber?_render display hx
    obtain ⟨z', hz', htwins'⟩ := readNumber?_render display hy
    rw [he, hz'] at hz
    obtain rfl := Option.some.inj hz
    exact (htwins.symm.trans htwins').beq hy
  · obtain ⟨t, hrender, hmark, hf⟩ : ∃ t : Spelling, display.render x = .ofList t.text ∧
        t.mark = [] ∧ x.isFinite := by
      obtain hzero | ⟨hl, hu⟩ := h
      · obtain ⟨s, hs⟩ := Indistinct.unpack_of_beq_zero hzero
        obtain ⟨negative, t, hrender, -, hmark⟩ := render_of_zero display hs
        refine ⟨t, ?_, hmark, ?_⟩
        · rw [hrender]
          cases negative <;> rfl
        · change x.toModel.unpack.isFinite = true
          rw [hs]
          rfl
      · obtain ⟨m, q, hm, hx, t, htext, hmark⟩ := positional_of_range hl hu
        obtain ⟨-, hrender⟩ := render_of_finite display hx
        rw [htext] at hrender
        exact ⟨t, hrender, hmark, isFinite_of_finite hx⟩
    obtain ⟨y, htoken, hy⟩ := exists_token hrender hf
    refine ⟨y, ?_, hy⟩
    rw [← htoken, hrender, scan_number (t.lexeme hmark)]
  · obtain ⟨m, q, hm, hneg, t, htext, hmark⟩ := positional_of_range h.1 h.2
    obtain ⟨-, hrender⟩ := render_of_finite display hneg
    have hx : x.toModel.unpack = .finite (signOf true) m q hm := unpack_of_neg hneg
    obtain ⟨-, hrender'⟩ := render_of_finite display hx
    rw [htext] at hrender hrender'
    obtain ⟨y, htoken, hy⟩ := exists_token hrender (isFinite_of_finite hneg)
    refine ⟨y, ?_, hy⟩
    rw [← htoken, hrender']
    exact scan_minus_number (t.lexeme hmark)

/-- The least positive number, two zeros, a sum that is no tenth, and a number with a sign. -/
theorem display_reads_back_examples :
    (∃ y, readNumber? "5e-324".toList = some y ∧ y == Float.ofBits 1) ∧
    (0 : Float) == -0 ∧
    (∃ y, scan "0.30000000000000004" =
      ⟨[⟨.number, "0.30000000000000004", some (.number y), 1⟩, .endOfInput 1], []⟩ ∧
        y == 0.1 + 0.2) ∧
    ∃ y, scan "-1.5" =
      ⟨[.make .minus "-" 1, ⟨.number, "1.5", some (.number y), 1⟩, .endOfInput 1], []⟩ ∧
        y == - -1.5 := by
  obtain ⟨hread, hsame, hscan, hminus⟩ := display_reads_back
  have hleast : display.render (Float.ofBits 1) = "5e-324" := by decide +kernel
  have hzeros : display.render 0 = display.render (-0) := by decide +kernel
  have hsum : display.render (0.1 + 0.2) = "0.30000000000000004" := by decide +kernel
  have hsigned : display.render (-1.5) = "-1.5" := by decide +kernel
  have hunsigned : display.render (- -1.5) = "1.5" := by decide +kernel
  refine ⟨?_, hsame 0 (-0) (by decide +kernel) (by decide +kernel) hzeros, ?_, ?_⟩
  · have h := hread (Float.ofBits 1) (by decide +kernel)
    rwa [hleast] at h
  · have h := hscan (0.1 + 0.2) (.inr (by decide +kernel))
    rwa [hsum] at h
  · have h := hminus (-1.5) (by decide +kernel)
    rwa [hsigned, hunsigned] at h

end NumberStyle

end ClosureLang
