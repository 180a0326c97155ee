import ClosureLang.Proofs.Numbers.Rounding

namespace ClosureLang

/-- The fraction that a decimal stands for. -/
def Decimal.value (d : Decimal) : ℚ :=
  d.digits * 10 ^ d.exponent

/-- Between `2 ^ 93` and `2 ^ 94` lies `10 ^ 28`. -/
theorem ten_zpow_le_two_zpow {g p : ℤ} (h : 93 * g ≤ 28 * p) (h' : 94 * g ≤ 28 * p) :
    (10 : ℚ) ^ g ≤ 2 ^ p := by
  have hpow : (10 : ℚ) ^ (28 * g) ≤ 2 ^ (28 * p) := by
    rw [zpow_mul]
    obtain hg | hg := le_total 0 g
    · calc ((10 : ℚ) ^ (28 : ℤ)) ^ g ≤ (2 ^ (94 : ℤ)) ^ g :=
            zpow_le_zpow_left₀ hg (by positivity) (by norm_num)
        _ = 2 ^ (94 * g) := (zpow_mul 2 94 g).symm
        _ ≤ 2 ^ (28 * p) := zpow_le_zpow_right₀ one_le_two h'
    · have hinv : ((2 : ℚ) ^ (93 : ℤ)) ^ (-g) ≤ (10 ^ (28 : ℤ)) ^ (-g) :=
        zpow_le_zpow_left₀ (by omega) (by positivity) (by norm_num)
      calc ((10 : ℚ) ^ (28 : ℤ)) ^ g ≤ (2 ^ (93 : ℤ)) ^ g := by
            have := inv_anti₀ (by positivity) hinv
            rwa [← zpow_neg, ← zpow_neg, neg_neg] at this
        _ = 2 ^ (93 * g) := (zpow_mul 2 93 g).symm
        _ ≤ 2 ^ (28 * p) := zpow_le_zpow_right₀ one_le_two h
  rw [mul_comm, mul_comm 28, zpow_mul, zpow_mul] at hpow
  exact le_of_pow_le_pow_left₀ (n := 28) (by norm_num) (by positivity) (by exact_mod_cast hpow)

namespace RoundingInterval

open Binary64

variable {r : RoundingInterval} {m n : ℕ} {q t : ℤ} {v : ℚ}

theorem contains_iff (hd : 0 < r.denominator) :
    r.contains n = true ↔ (n / r.denominator : ℚ) ∈ r.points := by
  have hd' : (0 : ℚ) < r.denominator := by exact_mod_cast hd
  unfold contains points
  split
  · simp [div_le_div_iff_of_pos_right hd']
  · simp [div_lt_div_iff_of_pos_right hd']

/-- On a grid, the interval is measured in the unit of the grid. -/
theorem onGrid_scale (a : ℕ) (r : RoundingInterval) (t : ℤ) :
    ((a * tenPow (-t).toNat : ℕ) : ℚ) / (r.onGrid t).denominator = a / r.denominator / 10 ^ t := by
  have ht := toNat_pow_div (b := 10) (by norm_num) (-t)
  rw [neg_neg, zpow_neg] at ht
  simp only [onGrid, Nat.cast_mul, cast_tenPow]
  rw [mul_div_mul_comm, ht, div_eq_mul_inv (a / r.denominator : ℚ)]

theorem onGrid_lower (r : RoundingInterval) (t : ℤ) :
    ((r.onGrid t).lower : ℚ) / (r.onGrid t).denominator = r.lower / r.denominator / 10 ^ t :=
  onGrid_scale r.lower r t

theorem onGrid_value (r : RoundingInterval) (t : ℤ) :
    ((r.onGrid t).value : ℚ) / (r.onGrid t).denominator = r.value / r.denominator / 10 ^ t :=
  onGrid_scale r.value r t

theorem onGrid_upper (r : RoundingInterval) (t : ℤ) :
    ((r.onGrid t).upper : ℚ) / (r.onGrid t).denominator = r.upper / r.denominator / 10 ^ t :=
  onGrid_scale r.upper r t

/-- On a grid the interval is the same one in units of the grid. -/
theorem mem_onGrid_points : v ∈ (r.onGrid t).points ↔ v * 10 ^ t ∈ r.points := by
  have ht : (0 : ℚ) < 10 ^ t := by positivity
  have hclosed : (r.onGrid t).closed = r.closed := rfl
  unfold points
  rw [onGrid_lower, onGrid_upper, hclosed]
  split
  · simp [div_le_iff₀ ht, le_div_iff₀ ht]
  · simp [div_lt_iff₀ ht, lt_div_iff₀ ht]

theorem onGrid_denominator_pos (hd : 0 < r.denominator) : 0 < (r.onGrid t).denominator :=
  Nat.mul_pos hd (tenPow_pos _)

theorem wholePoint?_mem (hd : 0 < r.denominator) (h : r.wholePoint? = some n) :
    (n : ℚ) ∈ r.points := by
  have hd' : (r.denominator : ℚ) ≠ 0 := by exact_mod_cast hd.ne'
  have hbelow (k : ℕ) (hk : r.contains (k * r.denominator) = true) : (k : ℚ) ∈ r.points := by
    rw [contains_iff hd] at hk
    simpa [hd'] using hk
  have habove (k : ℕ) (hk : r.contains (k * r.denominator + r.denominator) = true) :
      ((k + 1 : ℕ) : ℚ) ∈ r.points := hbelow (k + 1) (by rwa [Nat.succ_mul])
  unfold wholePoint? at h
  dsimp only at h
  split at h
  next hb ha =>
    split at h
    · cases h
      exact hbelow _ hb
    · cases h
      exact habove _ ha
  next hb _ =>
    cases h
    exact hbelow _ hb
  next _ ha =>
    cases h
    exact habove _ ha
  next => cases h

/-- A grid with a unit no longer than the way from the value down to the lower end has a point in
the interval. -/
theorem exists_wholePoint? (hd : 0 < r.denominator)
    (hl : (r.lower / r.denominator : ℚ) + 1 ≤ r.value / r.denominator)
    (hu : (r.value / r.denominator : ℚ) < r.upper / r.denominator) :
    ∃ n, r.wholePoint? = some n := by
  have hd' : (0 : ℚ) < r.denominator := by exact_mod_cast hd
  have hlower : r.lower + r.denominator ≤ r.value := by
    rw [← div_self hd'.ne', ← add_div, div_le_div_iff_of_pos_right hd'] at hl
    exact_mod_cast hl
  have hupper : r.value < r.upper := by
    rw [div_lt_div_iff_of_pos_right hd'] at hu
    exact_mod_cast hu
  have hdiv := Nat.div_add_mod' r.value r.denominator
  have hmod := Nat.mod_lt r.value hd
  have hbelow : r.contains (r.value / r.denominator * r.denominator) = true := by
    unfold contains
    split <;> simp <;> omega
  unfold wholePoint?
  dsimp only
  rw [hbelow]
  split
  next => split <;> exact ⟨_, rfl⟩
  next => exact ⟨_, rfl⟩
  next h _ => cases h
  next h _ => cases h

/-- If one of the grids tried has a point in the interval, a point in the interval is found. -/
theorem search_mem {fuel : ℕ} (hd : 0 < r.denominator)
    (h : ∃ k < fuel, ∃ n, (r.onGrid (t - k)).wholePoint? = some n) :
    (r.search fuel t).value ∈ r.points := by
  induction fuel generalizing t with
  | zero =>
    obtain ⟨k, hk, -⟩ := h
    cases hk
  | succ fuel ih =>
    unfold search
    split
    next n hn => exact mem_onGrid_points.mp (wholePoint?_mem (onGrid_denominator_pos hd) hn)
    next hnone =>
      obtain ⟨k, hk, n, hn⟩ := h
      cases k with
      | zero =>
        rw [Int.natCast_zero, sub_zero, hnone] at hn
        cases hn
      | succ k => exact ih ⟨k, by omega, n, by rwa [sub_sub, add_comm 1, ← Nat.cast_succ]⟩

theorem ofMantissa_denominator_pos (m : ℕ) (q : ℤ) : 0 < (ofMantissa m q).denominator :=
  twoPow_pos _

theorem log2_mul_twoPow (hm : 0 < m) (k : ℕ) : (4 * m * twoPow k).log2 = m.log2 + 2 + k := by
  induction k with
  | zero =>
    have hfour : 4 * m * twoPow 0 = 2 * (2 * m) := by
      change 4 * m * 1 = _
      ring
    rw [hfour, Nat.log2_two_mul (by omega), Nat.log2_two_mul hm.ne']
  | succ k ih =>
    have hne : 4 * m * twoPow k ≠ 0 := (Nat.mul_pos (by omega) (twoPow_pos k)).ne'
    have hdouble : 4 * m * twoPow (k + 1) = 2 * (4 * m * twoPow k) := by
      change 4 * m * 2 ^ (k + 1) = 2 * (4 * m * 2 ^ k)
      ring
    rw [hdouble, Nat.log2_two_mul hne, ih]
    rfl

/-- The coarsest grid has at most the exponent of the double, counted in powers of ten. -/
theorem topExponent_le (hm : 0 < m) (q : ℤ) :
    100000 * ((ofMantissa m q).topExponent - 1) ≤ 30103 * (m.log2 + 1 + q) := by
  have hvalue : (ofMantissa m q).value.log2 = m.log2 + 2 + (q - 2).toNat := log2_mul_twoPow hm _
  have hdenominator : (ofMantissa m q).denominator.log2 = (2 - q).toNat := Nat.log2_two_pow
  unfold topExponent
  rw [hvalue, hdenominator, Int.fdiv_eq_ediv_of_nonneg _ (by omega)]
  omega

/-- The finest grid that is tried has a unit of at most a quarter of the last place. -/
theorem finest_le (h : Canonical m q) :
    (10 : ℚ) ^ ((ofMantissa m q).topExponent - (23 : ℕ)) ≤ 2 ^ q / 4 := by
  have hlog : m.log2 < 53 := (Nat.log2_lt h.pos.ne').mpr h.lt
  have htop := topExponent_le h.pos q
  have hleast := h.least
  have hgreatest := h.greatest
  have hfour : (2 : ℚ) ^ q / 4 = 2 ^ (q - 2) := by
    rw [zpow_sub₀ two_ne_zero]
    norm_num
  rw [hfour]
  unfold leastExponent at hleast
  exact ten_zpow_le_two_zpow (by omega) (by omega)

/-- The shortest decimal of a double lies in its rounding interval. -/
theorem shortest_mem (h : Canonical m q) :
    (ofMantissa m q).shortest.value ∈ (ofMantissa m q).points := by
  have hpos := ofMantissa_denominator_pos m q
  have hfinest := finest_le h
  refine search_mem hpos ⟨23, by omega, exists_wholePoint? (onGrid_denominator_pos hpos) ?_ ?_⟩
  · generalize (ofMantissa m q).topExponent - (23 : ℕ) = t at hfinest ⊢
    have ht : (0 : ℚ) < 10 ^ t := by positivity
    have hgap : 1 / 4 * 2 ^ q ≤ gap m q * 2 ^ q := by
      gcongr
      exact quarter_le_gap m q
    rw [onGrid_lower, onGrid_value, ofMantissa_lower h.pos, ofMantissa_value, ← div_self ht.ne',
      ← add_div, div_le_div_iff_of_pos_right ht]
    linarith
  · rw [onGrid_value, onGrid_upper, ofMantissa_value, ofMantissa_upper]
    gcongr
    norm_num

end RoundingInterval

end ClosureLang
