import ClosureLang.Number.Reading
import ClosureLang.Number.Style
import ClosureLang.Proofs.Numbers.Shortest
import ClosureLang.Proofs.Scanning.Segmentation

namespace ClosureLang

namespace Decimal

open Binary64 RoundingInterval

variable {m length : ℕ} {q : ℤ} {d : Decimal}

theorem digitsValue_eq (cs : List Char) : digitsValue cs = Nat.ofDigitChars 10 cs 0 :=
  rfl

theorem digitsValue_append (cs cs' : List Char) :
    digitsValue (cs ++ cs') = 10 ^ cs'.length * digitsValue cs + digitsValue cs' := by
  simp only [digitsValue_eq]
  rw [Nat.ofDigitChars_append, Nat.ofDigitChars_eq_ofDigitChars_zero]

theorem digitsValue_lt {cs : List Char} (h : ∀ c ∈ cs, Digit c) :
    digitsValue cs < 10 ^ cs.length := by
  induction cs with
  | nil => exact Nat.one_pos
  | cons c cs ih =>
    obtain ⟨hc, hcs⟩ := List.forall_mem_cons.mp h
    have hle : c.toNat ≤ '9'.toNat := hc.2
    have hone : digitsValue [c] ≤ 9 := by
      change 10 * 0 + (c.toNat - '0'.toNat) ≤ 9
      simp at hle ⊢
      omega
    have hrest := ih hcs
    have hmul := Nat.mul_le_mul_left (10 ^ cs.length) hone
    rw [← List.singleton_append, digitsValue_append, List.singleton_append, List.length_cons,
      Nat.pow_succ]
    omega

theorem two_pow_le_ten_pow (n : ℕ) : (2 : ℚ) ^ (3 * n) ≤ 10 ^ n := by
  rw [pow_mul]
  gcongr
  norm_num

theorem ten_zpow_neg_le (n : ℕ) : (10 : ℚ) ^ (-n : ℤ) ≤ 2 ^ (-(3 * n : ℕ) : ℤ) := by
  rw [zpow_neg, zpow_neg, zpow_natCast, zpow_natCast]
  exact inv_anti₀ (by positivity) (two_pow_le_ten_pow n)

/-- A decimal in the rounding interval of a double is rounded to it, however its digits are
written. -/
theorem nearestBits_eq (h : Canonical m q) (hd : d.digits < 10 ^ length)
    (hv : d.value ∈ (ofMantissa m q).points) : d.nearestBits length = bitsOf m q := by
  obtain ⟨hlower, hupper⟩ := ofMantissa_range h hv
  have hdigits : d.digits ≠ 0 := by
    have hpos := ofMantissa_pos h.pos hv
    intro hzero
    simp [value, hzero] at hpos
  have hbelow : ¬ 400 < d.exponent := by
    intro hlt
    have hone : (1 : ℚ) ≤ d.digits := by exact_mod_cast Nat.pos_of_ne_zero hdigits
    have hle : (2 : ℚ) ^ 1024 ≤ d.value :=
      calc (2 : ℚ) ^ 1024 ≤ 2 ^ (3 * 401) := pow_le_pow_right₀ one_le_two (by norm_num)
        _ ≤ 10 ^ 401 := two_pow_le_ten_pow 401
        _ ≤ 10 ^ d.exponent := by
            rw [← zpow_natCast]
            exact zpow_le_zpow_right₀ (by norm_num) (by omega)
        _ ≤ d.digits * 10 ^ d.exponent := le_mul_of_one_le_left (by positivity) hone
    exact absurd (hle.trans_lt hupper) (lt_irrefl _)
  have habove : ¬ d.exponent + length < -400 := by
    intro hlt
    have hdigits' : (d.digits : ℚ) < 10 ^ length := by exact_mod_cast hd
    have hgt : d.value < 2 ^ (-1075 : ℤ) :=
      calc (d.digits : ℚ) * 10 ^ d.exponent < 10 ^ length * 10 ^ d.exponent := by gcongr
        _ = 10 ^ (d.exponent + length) := by
            rw [zpow_add₀ (by norm_num), zpow_natCast, mul_comm]
        _ ≤ 10 ^ (-(401 : ℕ) : ℤ) := zpow_le_zpow_right₀ (by norm_num) (by omega)
        _ ≤ 2 ^ (-(3 * 401 : ℕ) : ℤ) := ten_zpow_neg_le 401
        _ ≤ 2 ^ (-1075 : ℤ) := zpow_le_zpow_right₀ one_le_two (by norm_num)
    exact absurd (hgt.trans_le hlower) (lt_irrefl _)
  have hfraction : ((d.digits * tenPow d.exponent.toNat : ℕ) : ℚ) / tenPow (-d.exponent).toNat =
      d.value := by
    push_cast [cast_tenPow]
    rw [mul_div_assoc, toNat_pow_div (by norm_num)]
    rfl
  unfold nearestBits
  rw [if_neg hdigits, if_neg hbelow, if_neg habove]
  exact nearest_eq h (tenPow_pos _) (by rwa [hfraction])

end Decimal

open Decimal

/-- A number as it is written without a sign: digits, digits behind a point if there are any, and a
mark with the exponent if there is one. -/
structure Spelling where
  whole : List Char
  fraction : List Char
  mark : List Char
  exponent : ℤ
  whole_ne_nil : whole ≠ []
  digit : ∀ c ∈ whole ++ fraction, Digit c
  read : readExponent? mark = some exponent

namespace Spelling

/-- The digits behind the point, with the point. -/
def pointed : List Char → List Char
  | [] => []
  | fraction => '.' :: fraction

def text (s : Spelling) : List Char :=
  s.whole ++ pointed s.fraction ++ s.mark

def decimal (s : Spelling) : Decimal :=
  ⟨digitsValue (s.whole ++ s.fraction), s.exponent - s.fraction.length⟩

theorem pointed_of_ne_nil {fraction : List Char} (h : fraction ≠ []) :
    pointed fraction = '.' :: fraction := by
  cases fraction with
  | nil => contradiction
  | cons => rfl

theorem head_mark (s : Spelling) : ∀ c ∈ s.mark.head?, c = 'e' ∨ c = 'E' := by
  intro c hc
  obtain ⟨rest, he⟩ := List.head?_eq_some_iff.mp hc
  have h := s.read
  rw [he] at h
  by_contra hne
  simp [readExponent?, hne] at h

/-- A spelling is read as the double nearest to its decimal. -/
theorem readBits?_text (s : Spelling) :
    readBits? s.text = some (s.decimal.nearestBits (s.whole ++ s.fraction).length) := by
  have hdigit (c : Char) (hc : c ∈ s.whole ++ s.fraction) : c.isDigit = true :=
    Segment.isDigit_iff.mpr (s.digit c hc)
  have hmark : ∀ c ∈ s.mark.head?, c.isDigit = false := by
    intro c hc
    obtain rfl | rfl := s.head_mark c hc <;> rfl
  have hempty : (s.whole ++ s.fraction).isEmpty = false := by
    simp [s.whole_ne_nil]
  unfold readBits? text
  by_cases hf : s.fraction = []
  · have hspan : (s.whole ++ s.mark).takeWhile Char.isDigit = s.whole ∧
        (s.whole ++ s.mark).dropWhile Char.isDigit = s.mark :=
      Segment.takeWhile_span _ (fun c hc => hdigit c (List.mem_append_left _ hc)) hmark
    have hpoint : ∀ r, s.mark ≠ '.' :: r := by
      intro r hr
      have hhead := s.head_mark '.' (by rw [hr]; rfl)
      revert hhead
      decide
    simp [hf, pointed, hspan, s.whole_ne_nil, s.read, decimal]
  · have hspan : (s.whole ++ '.' :: (s.fraction ++ s.mark)).takeWhile Char.isDigit = s.whole ∧
        (s.whole ++ '.' :: (s.fraction ++ s.mark)).dropWhile Char.isDigit =
          '.' :: (s.fraction ++ s.mark) :=
      Segment.takeWhile_span _ (fun c hc => hdigit c (List.mem_append_left _ hc)) (by simp)
    have hspan' : (s.fraction ++ s.mark).takeWhile Char.isDigit = s.fraction ∧
        (s.fraction ++ s.mark).dropWhile Char.isDigit = s.mark :=
      Segment.takeWhile_span _ (fun c hc => hdigit c (List.mem_append_right _ hc)) hmark
    rw [pointed_of_ne_nil hf, List.append_assoc, List.cons_append]
    simp [hspan, hspan', hempty, s.read, decimal]

theorem decimal_digits_lt (s : Spelling) :
    s.decimal.digits < 10 ^ (s.whole ++ s.fraction).length :=
  digitsValue_lt s.digit

end Spelling

namespace Decimal

theorem value_congr {d d' : Decimal} (hd : d.digits = d'.digits) (he : d.exponent = d'.exponent) :
    d.value = d'.value := by
  rw [value, value, hd, he]

theorem value_shift (n k : ℕ) (e : ℤ) : value ⟨10 ^ k * n, e⟩ = value ⟨n, e + k⟩ := by
  simp only [value, Nat.cast_mul, Nat.cast_pow, Nat.cast_ofNat]
  rw [zpow_add₀ (by norm_num), zpow_natCast]
  ring

@[simp] theorem digitsValue_zeros (k : ℕ) : digitsValue (List.replicate k '0') = 0 := by
  simp [digitsValue_eq]

@[simp] theorem digitsValue_toDigits (n : ℕ) : digitsValue (Nat.toDigits 10 n) = n :=
  Nat.ofDigitChars_ten_toDigits

theorem digit_of_mem_toDigits {n : ℕ} {c : Char} (h : c ∈ Nat.toDigits 10 n) : Digit c :=
  Segment.isDigit_iff.mp (Nat.isDigit_of_mem_toDigits (by decide) (by decide) h)

theorem digit_of_mem_zeros {k : ℕ} {c : Char} (h : c ∈ List.replicate k '0') : Digit c := by
  rw [List.eq_of_mem_replicate h]
  decide

/-- The exponent mark of scientific notation. -/
theorem readExponent?_mark (style : NumberStyle) (e : ℤ) :
    readExponent? ('e' :: ((if e < 0 then ['-'] else if style.plus then ['+'] else []) ++
      Nat.toDigits 10 e.natAbs)) = some e := by
  have hne := Nat.toDigits_ne_nil (n := e.natAbs) (b := 10)
  have hvalue := digitsValue_toDigits e.natAbs
  have hall (c : Char) (hc : c ∈ Nat.toDigits 10 e.natAbs) : c.isDigit = true :=
    Segment.isDigit_iff.mpr (digit_of_mem_toDigits hc)
  generalize Nat.toDigits 10 e.natAbs = digits at hne hvalue hall ⊢
  by_cases hneg : e < 0
  · rw [if_pos hneg]
    simp [readExponent?, hne, hvalue, abs_of_neg hneg]
    exact hall
  · have he : |e| = e := abs_of_nonneg (not_lt.mp hneg)
    rw [if_neg hneg]
    by_cases hplus : style.plus = true
    · rw [if_pos hplus]
      simp [readExponent?, hne, hvalue, he]
      exact hall
    · rw [if_neg hplus]
      have hminus : ∀ r, digits ≠ '-' :: r := by
        rintro r rfl
        exact absurd (hall '-' List.mem_cons_self) (by decide)
      have hplus' : ∀ r, digits ≠ '+' :: r := by
        rintro r rfl
        exact absurd (hall '+' List.mem_cons_self) (by decide)
      simp [readExponent?, hne, hvalue, he]
      exact hall

end Decimal

namespace NumberStyle

open Spelling

/-- How many digits of a decimal stand in front of its point. -/
def place (d : Decimal) : ℤ :=
  (Nat.toDigits 10 d.digits).length + d.exponent

section Points

variable {digits : List Char} {k : ℕ}

/-- The point in front of all digits. -/
theorem leading_spelling (hne : digits ≠ []) (hdigit : ∀ c ∈ digits, Digit c) (k : ℕ) :
    ∃ s : Spelling, '0' :: '.' :: List.replicate k '0' ++ digits = s.text ∧
      s.decimal.value = value ⟨digitsValue digits, -(k + digits.length)⟩ ∧ s.mark = [] := by
  have hzeros : digitsValue ('0' :: List.replicate k '0') = 0 := digitsValue_zeros (k + 1)
  refine ⟨⟨['0'], List.replicate k '0' ++ digits, [], 0, by simp, ?_, rfl⟩, ?_,
    value_congr ?_ ?_, rfl⟩
  · intro c hc
    obtain hc | hc | hc : c ∈ ['0'] ∨ c ∈ List.replicate k '0' ∨ c ∈ digits := by simpa using hc
    · exact digit_of_mem_zeros (k := 1) hc
    · exact digit_of_mem_zeros hc
    · exact hdigit c hc
  · rw [text, pointed_of_ne_nil (by simp [hne])]
    simp
  · change digitsValue ('0' :: List.replicate k '0' ++ digits) = digitsValue digits
    rw [digitsValue_append, hzeros, Nat.mul_zero, Nat.zero_add]
  · change 0 - ((List.replicate k '0' ++ digits).length : ℤ) = -(k + digits.length)
    rw [List.length_append, List.length_replicate]
    omega

/-- The point behind all digits, if there is one. -/
theorem trailing_spelling (hne : digits ≠ []) (hdigit : ∀ c ∈ digits, Digit c) (k : ℕ)
    (fraction : Bool) :
    ∃ s : Spelling,
      digits ++ List.replicate k '0' ++ (if fraction then ['.', '0'] else []) = s.text ∧
      s.decimal.value = value ⟨digitsValue digits, k⟩ ∧ s.mark = [] := by
  let tail := List.replicate (if fraction then 1 else 0) '0'
  refine ⟨⟨digits ++ List.replicate k '0', tail, [], 0, by simp [hne], ?_, rfl⟩, ?_, ?_, rfl⟩
  · intro c hc
    obtain hc | hc | hc : c ∈ digits ∨ c ∈ List.replicate k '0' ∨ c ∈ tail := by simpa using hc
    · exact hdigit c hc
    · exact digit_of_mem_zeros hc
    · exact digit_of_mem_zeros hc
  · simp only [text, tail]
    split <;> simp [pointed]
  · change value ⟨digitsValue (digits ++ List.replicate k '0' ++ tail), 0 - tail.length⟩ = _
    rw [digitsValue_append, digitsValue_append, digitsValue_zeros, digitsValue_zeros,
      Nat.add_zero, Nat.add_zero, ← mul_assoc, ← pow_add, value_shift]
    refine value_congr rfl ?_
    simp only [tail, List.length_replicate]
    omega

/-- The point between the digits. -/
theorem inner_spelling (hdigit : ∀ c ∈ digits, Digit c) (hpos : 0 < k) (hk : k < digits.length) :
    ∃ s : Spelling, digits.take k ++ '.' :: digits.drop k = s.text ∧
      s.decimal.value = value ⟨digitsValue digits, k - digits.length⟩ ∧ s.mark = [] := by
  have hjoin := List.take_append_drop k digits
  have hwhole : digits.take k ≠ [] := List.ne_nil_of_length_pos (by rw [List.length_take]; omega)
  have htail : digits.drop k ≠ [] := List.ne_nil_of_length_pos (by rw [List.length_drop]; omega)
  refine ⟨⟨digits.take k, digits.drop k, [], 0, hwhole, by rwa [hjoin], rfl⟩, ?_,
    value_congr ?_ ?_, rfl⟩
  · rw [text, pointed_of_ne_nil htail, List.append_nil]
  · change digitsValue (digits.take k ++ digits.drop k) = digitsValue digits
    rw [hjoin]
  · change 0 - ((digits.drop k).length : ℤ) = k - digits.length
    rw [List.length_drop]
    omega

end Points

/-- Positional notation spells a decimal of the same value, without an exponent. -/
theorem positional_spelling (style : NumberStyle) (d : Decimal) :
    ∃ s : Spelling, style.positional (Nat.toDigits 10 d.digits) (place d) = s.text ∧
      s.decimal.value = d.value ∧ s.mark = [] := by
  have hdigit (c : Char) (hc : c ∈ Nat.toDigits 10 d.digits) : Digit c := digit_of_mem_toDigits hc
  have hplace : place d = (Nat.toDigits 10 d.digits).length + d.exponent := rfl
  have hne := Nat.toDigits_ne_nil (n := d.digits) (b := 10)
  have hvalue := digitsValue_toDigits d.digits
  generalize Nat.toDigits 10 d.digits = digits at hdigit hplace hne hvalue ⊢
  unfold positional
  split
  next hneg =>
    obtain ⟨s, htext, hs, hmark⟩ := leading_spelling hne hdigit (-place d).toNat
    refine ⟨s, htext, hs.trans (value_congr hvalue ?_), hmark⟩
    change -(((-place d).toNat : ℤ) + digits.length) = d.exponent
    omega
  next hpos =>
    split
    next hlen =>
      obtain ⟨s, htext, hs, hmark⟩ :=
        trailing_spelling hne hdigit ((place d).toNat - digits.length) style.fraction
      refine ⟨s, htext, hs.trans (value_congr hvalue ?_), hmark⟩
      change (((place d).toNat - digits.length : ℕ) : ℤ) = d.exponent
      omega
    next hlen =>
      have hk : (place d).toNat < digits.length := by omega
      obtain ⟨s, htext, hs, hmark⟩ := inner_spelling hdigit (by omega) hk
      refine ⟨s, htext, hs.trans (value_congr hvalue ?_), hmark⟩
      change ((place d).toNat : ℤ) - digits.length = d.exponent
      omega

/-- Scientific notation spells a decimal of the same value. -/
theorem scientific_spelling (style : NumberStyle) (d : Decimal) :
    ∃ s : Spelling, style.scientific (Nat.toDigits 10 d.digits) (place d - 1) = s.text ∧
      s.decimal.value = d.value := by
  have hdigit {c : Char} (hc : c ∈ Nat.toDigits 10 d.digits) : Digit c := digit_of_mem_toDigits hc
  have hplace : place d = (Nat.toDigits 10 d.digits).length + d.exponent := rfl
  have hne := Nat.toDigits_ne_nil (n := d.digits) (b := 10)
  have hvalue := digitsValue_toDigits d.digits
  have hmark := readExponent?_mark style (place d - 1)
  generalize Nat.toDigits 10 d.digits = digits at hdigit hplace hne hvalue ⊢
  have hjoin := List.take_append_drop 1 digits
  have hlen := List.length_pos_iff.mpr hne
  refine ⟨⟨digits.take 1, digits.drop 1, _, place d - 1, by simp [hne], ?_, hmark⟩, ?_,
    value_congr ?_ ?_⟩
  · rw [hjoin]
    exact fun c => hdigit
  · have hpoint : (if digits.length ≤ 1 then [] else '.' :: digits.drop 1) =
        pointed (digits.drop 1) := by
      split
      next hle =>
        rw [List.drop_eq_nil_of_le hle]
        rfl
      next hgt => exact (pointed_of_ne_nil (mt List.drop_eq_nil_iff.mp hgt)).symm
    rw [scientific, hpoint]
    simp [text]
  · change digitsValue (digits.take _ ++ digits.drop _) = d.digits
    rw [hjoin, hvalue]
  · change place d - 1 - ((digits.drop 1).length : ℤ) = d.exponent
    rw [List.length_drop]
    omega

theorem layout_eq (style : NumberStyle) (d : Decimal) :
    style.layout d =
      if style.least ≤ place d - 1 ∧ place d - 1 ≤ style.greatest then
        style.positional (Nat.toDigits 10 d.digits) (place d)
      else style.scientific (Nat.toDigits 10 d.digits) (place d - 1) :=
  rfl

/-- What is laid out is a spelling of the decimal, and it has no exponent between the exponents up
to which notation is positional. -/
theorem layout_spelling (style : NumberStyle) (d : Decimal) :
    ∃ s : Spelling, style.layout d = s.text ∧ s.decimal.value = d.value ∧
      (style.least ≤ place d - 1 → place d - 1 ≤ style.greatest → s.mark = []) := by
  rw [layout_eq]
  split
  next hrange =>
    obtain ⟨s, ht, hv, hm⟩ := style.positional_spelling d
    exact ⟨s, ht, hv, fun _ _ => hm⟩
  next hrange =>
    obtain ⟨s, ht, hv⟩ := style.scientific_spelling d
    exact ⟨s, ht, hv, fun hl hg => absurd ⟨hl, hg⟩ hrange⟩

end NumberStyle

end ClosureLang
