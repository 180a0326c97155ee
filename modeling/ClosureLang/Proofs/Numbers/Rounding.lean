import Mathlib.Algebra.Order.Field.Power
import Mathlib.Tactic.FieldSimp
import Mathlib.Tactic.Linarith
import Mathlib.Tactic.NormNum
import Mathlib.Tactic.Positivity
import Mathlib.Tactic.Ring
import ClosureLang.Number.Shortest

namespace ClosureLang

/-- A quotient of powers with exponents cut off at zero. -/
theorem toNat_pow_div {b : ℚ} (hb : b ≠ 0) (k : ℤ) : b ^ k.toNat / b ^ (-k).toNat = b ^ k := by
  rw [← zpow_natCast_sub_natCast₀ hb, Int.toNat_sub_toNat_neg]

@[simp] theorem cast_twoPow (n : ℕ) : (twoPow n : ℚ) = 2 ^ n := by
  simp [twoPow]

@[simp] theorem cast_tenPow (n : ℕ) : (tenPow n : ℚ) = 10 ^ n := by
  simp [tenPow]

theorem twoPow_pos (n : ℕ) : 0 < twoPow n :=
  Nat.pow_pos (by decide)

theorem tenPow_pos (n : ℕ) : 0 < tenPow n :=
  Nat.pow_pos (by decide)

namespace Binary64

/-- The mantissas and exponents of positive doubles: there are 53 bits in a mantissa, except at the
least exponent. -/
structure Canonical (m : ℕ) (q : ℤ) : Prop where
  pos : 0 < m
  lt : m < 2 * hiddenBit
  least : leastExponent ≤ q
  greatest : q ≤ 971
  full : q = leastExponent ∨ hiddenBit ≤ m

/-- The bits of a positive double. -/
def bitsOf (m : ℕ) (q : ℤ) : ℕ :=
  (q - leastExponent).toNat * hiddenBit + m

/-- Doubles are ordered as their exponents are, and as their mantissas where the exponents agree. -/
def Below (m : ℕ) (q : ℤ) (m' : ℕ) (q' : ℤ) : Prop :=
  q < q' ∨ q = q' ∧ m < m'

variable {n d m k : ℕ} {q : ℤ}

theorem Canonical.bitsOf_lt (h : Canonical m q) : bitsOf m q < infinityBits := by
  obtain ⟨-, hlt, hleast, hgreatest, -⟩ := h
  unfold bitsOf infinityBits specialField hiddenBit leastExponent at *
  omega

theorem Below.bitsOf_lt {m' : ℕ} {q' : ℤ} (h : Below m q m' q') (hm : Canonical m q)
    (hm' : Canonical m' q') : bitsOf m q < bitsOf m' q' := by
  obtain ⟨-, hlt, hleast, -, -⟩ := hm
  obtain ⟨-, -, hleast', -, hfull'⟩ := hm'
  unfold Below at h
  unfold bitsOf hiddenBit leastExponent at *
  omega

/-- Doubles are ordered as their mantissas and exponents are. -/
theorem Below.value_lt {m' : ℕ} {q' : ℤ} (h : Below m q m' q') (hm : Canonical m q)
    (hm' : Canonical m' q') : (m * 2 ^ q : ℚ) < m' * 2 ^ q' := by
  obtain hq | ⟨rfl, hlt⟩ := h
  · have hfull : hiddenBit ≤ m' := hm'.full.resolve_left (hm.least.trans_lt hq).ne'
    calc (m * 2 ^ q : ℚ) < (2 * hiddenBit : ℕ) * 2 ^ q := by
          gcongr
          exact hm.lt
      _ = hiddenBit * 2 ^ (q + 1) := by
          rw [zpow_add_one₀ two_ne_zero]
          push_cast
          ring
      _ ≤ m' * 2 ^ q' := by
          gcongr
          · exact one_le_two
          · omega
  · gcongr

theorem scale_div (n d : ℕ) (q : ℤ) :
    ((scale n d q).1 : ℚ) / (scale n d q).2 = n / d / 2 ^ q := by
  have hq := toNat_pow_div (b := 2) (by norm_num) (-q)
  rw [neg_neg, zpow_neg] at hq
  simp only [scale, Nat.cast_mul, cast_twoPow]
  rw [mul_div_mul_comm, hq, div_eq_mul_inv (n / d : ℚ)]

theorem scale_pos (hd : 0 < d) : 0 < (scale n d q).2 :=
  Nat.mul_pos hd (twoPow_pos _)

/-- A fraction at most half away from a whole number rounds to it, and one exactly half away only if
the number is even. -/
theorem roundDiv_eq {a b : ℕ} (hb : 0 < b) (hl : (k : ℚ) - 1 / 2 ≤ a / b)
    (hu : (a / b : ℚ) ≤ k + 1 / 2)
    (hodd : k % 2 = 1 → (k : ℚ) - 1 / 2 < a / b ∧ (a / b : ℚ) < k + 1 / 2) :
    roundDiv a b = k := by
  have hb' : (0 : ℚ) < b := by exact_mod_cast hb
  rw [le_div_iff₀ hb'] at hl
  rw [div_le_iff₀ hb'] at hu
  rw [lt_div_iff₀ hb', div_lt_iff₀ hb'] at hodd
  have hlower : 2 * (b * k) ≤ 2 * a + b := by
    have : (2 * (b * k) : ℚ) ≤ 2 * a + b := by linarith
    exact_mod_cast this
  have hupper : 2 * a ≤ 2 * (b * k) + b := by
    have : (2 * a : ℚ) ≤ 2 * (b * k) + b := by linarith
    exact_mod_cast this
  have hstrict : k % 2 = 1 → 2 * (b * k) < 2 * a + b ∧ 2 * a < 2 * (b * k) + b := by
    intro hk
    obtain ⟨h₁, h₂⟩ := hodd hk
    have h₁' : (2 * (b * k) : ℚ) < 2 * a + b := by linarith
    have h₂' : (2 * a : ℚ) < 2 * (b * k) + b := by linarith
    exact ⟨by exact_mod_cast h₁', by exact_mod_cast h₂'⟩
  have hdiv := Nat.div_add_mod a b
  have hmod := Nat.mod_lt a hb
  have hk : k = a / b ∨ k = a / b + 1 := by
    have hle : k ≤ a / b + 1 := by
      by_contra hgt
      have hmul : b * (a / b + 2) ≤ b * k := Nat.mul_le_mul_left b (by omega)
      rw [Nat.mul_add] at hmul
      omega
    have hge : a / b ≤ k := by
      by_contra hlt
      have hmul : b * (k + 1) ≤ b * (a / b) := Nat.mul_le_mul_left b (by omega)
      rw [Nat.mul_add] at hmul
      omega
    omega
  unfold roundDiv
  obtain rfl | rfl := hk
  · rw [if_pos (by omega)]
  · rw [Nat.mul_add] at hlower hupper hstrict
    rw [if_neg (by omega)]

/-- Scaled by a power of two, a fraction has at most 53 bits in front of its point. -/
theorem scale_lt_iff (hd : 0 < d) :
    (scale n d q).1 / (scale n d q).2 < 2 * hiddenBit ↔ (n / d : ℚ) < 2 ^ (q + 53) := by
  have hb : (0 : ℚ) < (scale n d q).2 := by exact_mod_cast scale_pos hd
  have hq : (0 : ℚ) < 2 ^ q := by positivity
  have hpow : (2 : ℚ) ^ (q + 53) = 2 ^ 53 * 2 ^ q := by
    rw [zpow_add₀ two_ne_zero, mul_comm]
    norm_num
  rw [Nat.div_lt_iff_lt_mul (scale_pos hd), hpow, ← div_lt_iff₀ hq, ← scale_div, div_lt_iff₀ hb]
  norm_num [hiddenBit]
  exact_mod_cast Iff.rfl

/-- The exponent at which a fraction has a mantissa of 53 bits, or the least one. -/
theorem exponentOf_spec (hn : 0 < n) (hd : 0 < d) :
    leastExponent ≤ exponentOf n d ∧ (n / d : ℚ) < 2 ^ (exponentOf n d + 53) ∧
      (exponentOf n d = leastExponent ∨ 2 ^ (exponentOf n d + 52) ≤ (n / d : ℚ)) := by
  have hnl : (2 : ℚ) ^ n.log2 ≤ n := by exact_mod_cast Nat.log2_self_le hn.ne'
  have hnu : (n : ℚ) < 2 ^ (n.log2 + 1) := by exact_mod_cast Nat.lt_log2_self
  have hdl : (2 : ℚ) ^ d.log2 ≤ d := by exact_mod_cast Nat.log2_self_le hd.ne'
  have hdu : (d : ℚ) < 2 ^ (d.log2 + 1) := by exact_mod_cast Nat.lt_log2_self
  have hlower : (2 : ℚ) ^ ((n.log2 : ℤ) - d.log2 - 53 + 52) < n / d := by
    calc (2 : ℚ) ^ ((n.log2 : ℤ) - d.log2 - 53 + 52) = 2 ^ n.log2 / 2 ^ (d.log2 + 1) := by
          rw [← zpow_natCast_sub_natCast₀ two_ne_zero]
          congr 1
          push_cast
          ring
      _ < n / d := div_lt_div₀' hnl hdu (by exact_mod_cast hn) (by exact_mod_cast hd)
  have hupper : (n / d : ℚ) < 2 ^ ((n.log2 : ℤ) - d.log2 - 53 + 54) := by
    calc (n / d : ℚ) < 2 ^ (n.log2 + 1) / 2 ^ d.log2 :=
          div_lt_div₀ hnu hdl (by positivity) (by positivity)
      _ = 2 ^ ((n.log2 : ℤ) - d.log2 - 53 + 54) := by
          rw [← zpow_natCast_sub_natCast₀ two_ne_zero]
          congr 1
          push_cast
          ring
  unfold exponentOf
  generalize (n.log2 : ℤ) - d.log2 - 53 = estimate at hlower hupper ⊢
  have hq : ∃ q, (if estimate < leastExponent then leastExponent else estimate) = q ∧
      leastExponent ≤ q ∧ estimate ≤ q ∧ (q = leastExponent ∨ q = estimate) := by
    split
    · exact ⟨_, rfl, by omega, by omega, .inl rfl⟩
    · exact ⟨_, rfl, by omega, by omega, .inr rfl⟩
  obtain ⟨q, hq, hleast, hle, heq⟩ := hq
  simp only [hq]
  split
  next hlt =>
    refine ⟨hleast, (scale_lt_iff hd).mp hlt, heq.imp_right ?_⟩
    rintro rfl
    exact hlower.le
  next hge =>
    rw [scale_lt_iff hd, not_lt] at hge
    refine ⟨by omega, hupper.trans_le (zpow_le_zpow_right₀ one_le_two (by omega)), .inr ?_⟩
    rwa [add_assoc]

/-- A fraction has a mantissa of 53 bits at one exponent only. -/
theorem exponentOf_eq (hn : 0 < n) (hd : 0 < d) (hleast : leastExponent ≤ q)
    (hlt : (n / d : ℚ) < 2 ^ (q + 53))
    (hfull : q = leastExponent ∨ 2 ^ (q + 52) ≤ (n / d : ℚ)) : exponentOf n d = q := by
  obtain ⟨hleast', hlt', hfull'⟩ := exponentOf_spec hn hd
  -- a larger exponent is not the least one, so it leaves the mantissa too few bits
  have not_lt {p p' : ℤ} (hp : leastExponent ≤ p) (hpp : p < p')
      (hltp : (n / d : ℚ) < 2 ^ (p + 53))
      (hfullp : p' = leastExponent ∨ 2 ^ (p' + 52) ≤ (n / d : ℚ)) : False := by
    obtain hleastp | hfullp := hfullp
    · omega
    · have hpow : (2 : ℚ) ^ (p + 53) ≤ 2 ^ (p' + 52) := zpow_le_zpow_right₀ one_le_two (by omega)
      exact absurd (hltp.trans_le (hpow.trans hfullp)) (lt_irrefl _)
  obtain h | h | h := lt_trichotomy (exponentOf n d) q
  · exact (not_lt hleast' h hlt' hfull).elim
  · exact h
  · exact (not_lt hleast h hlt hfull').elim

/-- A fraction rounds to the mantissa it is at most half away from. -/
theorem nearest_eq_of_exponentOf (hn : 0 < n) (hd : 0 < d) (hq : exponentOf n d = q)
    (hl : ((k : ℚ) - 1 / 2) * 2 ^ q ≤ n / d) (hu : (n / d : ℚ) ≤ (k + 1 / 2) * 2 ^ q)
    (hodd : k % 2 = 1 →
      ((k : ℚ) - 1 / 2) * 2 ^ q < n / d ∧ (n / d : ℚ) < (k + 1 / 2) * 2 ^ q)
    (hk : bitsOf k q < infinityBits) : nearest n d = bitsOf k q := by
  have hpow : (0 : ℚ) < 2 ^ q := by positivity
  rw [← le_div_iff₀ hpow] at hl
  rw [← div_le_iff₀ hpow] at hu
  rw [← lt_div_iff₀ hpow, ← div_lt_iff₀ hpow] at hodd
  rw [← scale_div] at hl hu hodd
  have hround := roundDiv_eq (scale_pos hd) hl hu hodd
  unfold nearest
  rw [if_neg hn.ne', hq]
  simp only [hround]
  exact if_pos hk

end Binary64

namespace RoundingInterval

open Binary64

variable {m : ℕ} {q : ℤ} {v : ℚ}

/-- The fractions in the interval. -/
def points (r : RoundingInterval) : Set ℚ :=
  if r.closed then Set.Icc (r.lower / r.denominator) (r.upper / r.denominator)
  else Set.Ioo (r.lower / r.denominator) (r.upper / r.denominator)

/-- How far the interval of a double reaches down, in units of its last place. -/
def gap (m : ℕ) (q : ℤ) : ℚ :=
  if m = hiddenBit ∧ leastExponent < q then 1 / 4 else 1 / 2

theorem gap_le (m : ℕ) (q : ℤ) : gap m q ≤ 1 / 2 := by
  unfold gap
  split <;> norm_num

theorem quarter_le_gap (m : ℕ) (q : ℤ) : 1 / 4 ≤ gap m q := by
  unfold gap
  split <;> norm_num

theorem ofMantissa_scale (n : ℕ) (m : ℕ) (q : ℤ) :
    ((n * twoPow (q - 2).toNat : ℕ) : ℚ) / (ofMantissa m q).denominator = n / 4 * 2 ^ q := by
  have hq := toNat_pow_div (b := 2) (by norm_num) (q - 2)
  rw [neg_sub, zpow_sub₀ two_ne_zero] at hq
  simp only [ofMantissa, Nat.cast_mul, cast_twoPow]
  rw [mul_div_assoc, hq]
  ring

theorem ofMantissa_value (m : ℕ) (q : ℤ) :
    ((ofMantissa m q).value : ℚ) / (ofMantissa m q).denominator = m * 2 ^ q := by
  rw [show (ofMantissa m q).value = 4 * m * twoPow (q - 2).toNat from rfl, ofMantissa_scale]
  push_cast
  ring

theorem ofMantissa_upper (m : ℕ) (q : ℤ) :
    ((ofMantissa m q).upper : ℚ) / (ofMantissa m q).denominator = (m + 1 / 2) * 2 ^ q := by
  rw [show (ofMantissa m q).upper = (4 * m + 2) * twoPow (q - 2).toNat from rfl, ofMantissa_scale]
  push_cast
  ring

theorem ofMantissa_lower (hm : 0 < m) (q : ℤ) :
    ((ofMantissa m q).lower : ℚ) / (ofMantissa m q).denominator = (m - gap m q) * 2 ^ q := by
  unfold gap
  rw [show (ofMantissa m q).lower =
    (4 * m - if m = hiddenBit ∧ leastExponent < q then 1 else 2) * twoPow (q - 2).toNat from rfl,
    ofMantissa_scale, Nat.cast_sub (by split <;> omega)]
  split <;> push_cast <;> ring

/-- A point of the interval lies between the ends, and strictly between them if the mantissa is
odd. -/
theorem ofMantissa_bounds (hm : 0 < m) (hv : v ∈ (ofMantissa m q).points) :
    (m - gap m q) * 2 ^ q ≤ v ∧ v ≤ (m + 1 / 2) * 2 ^ q ∧
      (m % 2 = 1 → (m - gap m q) * 2 ^ q < v ∧ v < (m + 1 / 2) * 2 ^ q) := by
  unfold points at hv
  rw [ofMantissa_lower hm, ofMantissa_upper] at hv
  split at hv
  next hc =>
    have heven : m % 2 = 0 := beq_iff_eq.mp hc
    exact ⟨hv.1, hv.2, by omega⟩
  next => exact ⟨hv.1.le, hv.2.le, fun _ => hv⟩

theorem ofMantissa_pos (hm : 0 < m) (hv : v ∈ (ofMantissa m q).points) : 0 < v := by
  have hgap := gap_le m q
  have hm' : (1 : ℚ) ≤ m := by exact_mod_cast hm
  have hpos : 0 < (m - gap m q) * 2 ^ q := mul_pos (by linarith) (by positivity)
  exact hpos.trans_le (ofMantissa_bounds hm hv).1

/-- Nothing rounds to a double below the half of the least one or from `2 ^ 1024` on. -/
theorem ofMantissa_range (h : Canonical m q) (hv : v ∈ (ofMantissa m q).points) :
    2 ^ (-1075 : ℤ) ≤ v ∧ v < 2 ^ (1024 : ℤ) := by
  obtain ⟨hlower, hupper, -⟩ := ofMantissa_bounds h.pos hv
  have hgap := gap_le m q
  have hm : (1 : ℚ) ≤ m := by exact_mod_cast h.pos
  have hm' : (m : ℚ) + 1 ≤ 2 ^ (53 : ℤ) := by
    have hle : m + 1 ≤ 2 ^ 53 := h.lt
    exact_mod_cast hle
  constructor
  · calc (2 : ℚ) ^ (-1075 : ℤ) = 2 ^ (-1 : ℤ) * 2 ^ leastExponent := by
          rw [← zpow_add₀ two_ne_zero]
          rfl
      _ ≤ (m - gap m q) * 2 ^ q := by
          refine mul_le_mul ?_ (zpow_le_zpow_right₀ one_le_two h.least) (by positivity) ?_
          · norm_num
            linarith
          · linarith
      _ ≤ v := hlower
  · calc v ≤ (m + 1 / 2) * 2 ^ q := hupper
      _ < 2 ^ (53 : ℤ) * 2 ^ q := by
          gcongr
          linarith
      _ ≤ 2 ^ (53 : ℤ) * 2 ^ (971 : ℤ) := by
          gcongr
          · exact one_le_two
          · exact h.greatest
      _ = 2 ^ (1024 : ℤ) := by
          rw [← zpow_add₀ two_ne_zero]
          rfl

section Nearest

variable {n d : ℕ} (h : Canonical m q) (hn : 0 < n) (hd : 0 < d)
  (hv : (n / d : ℚ) ∈ (ofMantissa m q).points)

theorem two_zpow_shift (q j : ℤ) : (2 : ℚ) ^ (q + j) = 2 ^ j * 2 ^ q := by
  rw [zpow_add₀ two_ne_zero, mul_comm]

include h hn hd hv

/-- Where the fraction has its 53 bits at the exponent of the double, it rounds to the mantissa. -/
theorem nearest_eq_of_full (hfull : q = leastExponent ∨ 2 ^ (q + 52) ≤ (n / d : ℚ)) :
    nearest n d = bitsOf m q := by
  obtain ⟨hlower, hupper, hstrict⟩ := ofMantissa_bounds h.pos hv
  have hgap := gap_le m q
  have hm : (m : ℚ) + 1 / 2 < 2 ^ (53 : ℤ) := by
    have hle : m + 1 ≤ 2 ^ 53 := h.lt
    have hle' : (m : ℚ) + 1 ≤ 2 ^ 53 := by exact_mod_cast hle
    norm_num at hle' ⊢
    linarith
  have hlt : (n / d : ℚ) < 2 ^ (q + 53) := by
    rw [two_zpow_shift]
    exact hupper.trans_lt (by gcongr)
  have hlow : ((m : ℚ) - 1 / 2) * 2 ^ q ≤ (m - gap m q) * 2 ^ q := by gcongr
  exact nearest_eq_of_exponentOf hn hd (exponentOf_eq hn hd h.least hlt hfull)
    (hlow.trans hlower) hupper (fun hodd => ⟨hlow.trans_lt (hstrict hodd).1, (hstrict hodd).2⟩)
    h.bitsOf_lt

omit hn hd in
/-- A fraction below the least one with 53 bits rounds to a power of two only. -/
theorem eq_hiddenBit_of_low (hne : q ≠ leastExponent) (hlt : (n / d : ℚ) < 2 ^ (q + 52)) :
    m = hiddenBit := by
  obtain ⟨hlower, -, -⟩ := ofMantissa_bounds h.pos hv
  have hgap := gap_le m q
  have hfull : hiddenBit ≤ m := h.full.resolve_left hne
  rw [two_zpow_shift] at hlt
  by_contra hne'
  have hmin : (2 : ℚ) ^ (52 : ℤ) + 1 ≤ m := by
    have hle : hiddenBit + 1 ≤ m := by omega
    have hle' : (hiddenBit : ℚ) + 1 ≤ m := by exact_mod_cast hle
    norm_num [hiddenBit] at hle' ⊢
    linarith
  have hle : (2 : ℚ) ^ (52 : ℤ) * 2 ^ q ≤ (m - gap m q) * 2 ^ q := by
    gcongr
    linarith
  linarith

/-- Below a power of two the exponent is one less, and the mantissa rounds up to a power of two. -/
theorem nearest_eq_of_low (hne : q ≠ leastExponent) (hlt : (n / d : ℚ) < 2 ^ (q + 52)) :
    nearest n d = bitsOf m q := by
  have hm := eq_hiddenBit_of_low h hv hne hlt
  obtain ⟨hlower, -, -⟩ := ofMantissa_bounds h.pos hv
  have hleast : leastExponent ≤ q - 1 := by
    have := h.least
    omega
  have hquarter : gap m q = 1 / 4 := if_pos ⟨hm, by omega⟩
  rw [hquarter, hm] at hlower
  have hhalf : (2 : ℚ) ^ q = 2 * 2 ^ (q - 1) := by
    rw [zpow_sub_one₀ two_ne_zero]
    ring
  have hexp : exponentOf n d = q - 1 := by
    refine exponentOf_eq hn hd hleast (by rwa [show q - 1 + 53 = q + 52 by ring]) (.inr ?_)
    have hcast : (2 : ℚ) ^ (q - 1 + 52) = 2 ^ 51 * 2 ^ q := by
      rw [show q - 1 + 52 = q + 51 by ring, two_zpow_shift]
      norm_num
    rw [hcast]
    refine le_trans ?_ hlower
    gcongr
    norm_num [hiddenBit]
  have hbits : bitsOf (2 * hiddenBit) (q - 1) = bitsOf m q := by
    rw [hm]
    unfold bitsOf hiddenBit
    omega
  have hfits : bitsOf (2 * hiddenBit) (q - 1) < infinityBits := by
    rw [hbits]
    exact h.bitsOf_lt
  rw [← hbits]
  refine nearest_eq_of_exponentOf hn hd hexp ?_ ?_ ?_ hfits
  · refine le_trans (le_of_eq ?_) hlower
    rw [hhalf]
    push_cast
    ring
  · rw [two_zpow_shift] at hlt
    refine hlt.le.trans ?_
    rw [hhalf, ← mul_assoc]
    gcongr
    norm_num [hiddenBit]
  · intro hodd
    rw [Nat.mul_mod_right] at hodd
    cases hodd

omit hn in
/-- What lies in the rounding interval of a double rounds to it. -/
theorem nearest_eq : nearest n d = bitsOf m q := by
  have hn : 0 < n := by
    have hpos := ofMantissa_pos h.pos hv
    have hd' : (0 : ℚ) < d := by exact_mod_cast hd
    rw [div_pos_iff_of_pos_right hd'] at hpos
    exact_mod_cast hpos
  by_cases hfull : q = leastExponent ∨ 2 ^ (q + 52) ≤ (n / d : ℚ)
  · exact nearest_eq_of_full h hn hd hv hfull
  · obtain ⟨hne, hlt⟩ := not_or.mp hfull
    exact nearest_eq_of_low h hn hd hv hne (not_le.mp hlt)

end Nearest

/-- Whatever lies between two points of an interval lies in it. -/
theorem points_convex {r : RoundingInterval} {u w : ℚ} (hu : u ∈ r.points) (hw : w ∈ r.points)
    (huv : u ≤ v) (hvw : v ≤ w) : v ∈ r.points := by
  unfold points at *
  split at hu
  next hc =>
    rw [if_pos hc] at hw ⊢
    exact ⟨hu.1.trans huv, hvw.trans hw.2⟩
  next hc =>
    rw [if_neg hc] at hw ⊢
    exact ⟨hu.1.trans_le huv, hvw.trans_lt hw.2⟩

theorem mem_of_between (hm : 0 < m) (hl : (m - gap m q) * 2 ^ q < v)
    (hu : v < (m + 1 / 2) * 2 ^ q) : v ∈ (ofMantissa m q).points := by
  unfold points
  rw [ofMantissa_lower hm, ofMantissa_upper]
  split
  · exact ⟨hl.le, hu.le⟩
  · exact ⟨hl, hu⟩

/-- A double lies inside its rounding interval. -/
theorem mem_ofMantissa (hm : 0 < m) (q : ℤ) : (m * 2 ^ q : ℚ) ∈ (ofMantissa m q).points := by
  have hgap := quarter_le_gap m q
  refine mem_of_between hm ?_ ?_
  · gcongr
    linarith
  · gcongr
    linarith

variable {m' : ℕ} {q' : ℤ} {w : ℚ}

/-- A fraction lies in one rounding interval only. -/
theorem bitsOf_eq_of_mem (h : Canonical m q) (h' : Canonical m' q')
    (hv : v ∈ (ofMantissa m q).points) (hv' : v ∈ (ofMantissa m' q').points) :
    bitsOf m q = bitsOf m' q' := by
  have hnum : 0 ≤ v.num := Rat.num_nonneg.mpr (ofMantissa_pos h.pos hv).le
  have hfraction : ((v.num.toNat : ℕ) : ℚ) / v.den = v := by
    have hcast : ((v.num.toNat : ℕ) : ℚ) = v.num := by exact_mod_cast Int.toNat_of_nonneg hnum
    rw [hcast, Rat.num_div_den]
  rw [← hfraction] at hv hv'
  exact (nearest_eq h v.den_pos hv).symm.trans (nearest_eq h' v.den_pos hv')

/-- The rounding intervals of doubles lie in the order of the doubles. -/
theorem points_lt (h : Canonical m q) (h' : Canonical m' q') (hb : Below m q m' q')
    (hv : v ∈ (ofMantissa m q).points) (hw : w ∈ (ofMantissa m' q').points) : v < w := by
  have hne := (hb.bitsOf_lt h h').ne
  by_contra hge
  rw [not_lt] at hge
  obtain hle | hgt := le_total w (m * 2 ^ q)
  · -- the smaller double lies between `w` and the larger double
    have hmem := points_convex hw (mem_ofMantissa h'.pos q') hle (hb.value_lt h h').le
    exact hne (bitsOf_eq_of_mem h h' (mem_ofMantissa h.pos q) hmem)
  · have hmem := points_convex (mem_ofMantissa h.pos q) hv hgt hge
    exact hne (bitsOf_eq_of_mem h h' hmem hw)

end RoundingInterval

end ClosureLang
