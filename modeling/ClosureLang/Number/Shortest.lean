import ClosureLang.Number.Binary64

namespace ClosureLang

/-- The number `digits * 10 ^ exponent`. -/
structure Decimal where
  digits : Nat
  exponent : Int
deriving Repr, DecidableEq

/-- The reals that round to one double, as fractions over a common denominator. -/
structure RoundingInterval where
  lower : Nat
  value : Nat
  upper : Nat
  denominator : Nat
  /-- Whether the two ends round to the double as well. -/
  closed : Bool
deriving Repr

namespace RoundingInterval

/--
The interval of `m * 2 ^ q` in quarters of its last place. The lower neighbour of a power of two
is half as far away as the upper one, except at the least exponent.
-/
def ofMantissa (m : Nat) (q : Int) : RoundingInterval :=
  let up := twoPow (q - 2).toNat
  let below := if m = Binary64.hiddenBit ∧ Binary64.leastExponent < q then 1 else 2
  { lower := (4 * m - below) * up
    value := 4 * m * up
    upper := (4 * m + 2) * up
    denominator := twoPow (2 - q).toNat
    closed := m % 2 == 0 }

/-- Whether the fraction `n / denominator` lies in the interval. -/
def contains (r : RoundingInterval) (n : Nat) : Bool :=
  if r.closed then r.lower ≤ n && n ≤ r.upper else r.lower < n && n < r.upper

/-- The interval in units of `10 ^ t`, so that the points of that grid are the whole numbers. -/
def onGrid (r : RoundingInterval) (t : Int) : RoundingInterval :=
  let down := tenPow (-t).toNat
  { lower := r.lower * down
    value := r.value * down
    upper := r.upper * down
    denominator := r.denominator * tenPow t.toNat
    closed := r.closed }

/-- The whole number in the interval nearest to its value, the upper one of two equally near. -/
def wholePoint? (r : RoundingInterval) : Option Nat :=
  let floor := r.value / r.denominator
  let below := floor * r.denominator
  let above := below + r.denominator
  match r.contains below, r.contains above with
  | true, true => if r.value - below < above - r.value then some floor else some (floor + 1)
  | true, false => some floor
  | false, true => some (floor + 1)
  | false, false => none

/-- The coarsest grid, from `10 ^ t` down through `fuel` finer ones, that meets the interval. -/
def search (r : RoundingInterval) : Nat → Int → Decimal
  | 0, t => ⟨(r.onGrid t).value / (r.onGrid t).denominator, t⟩
  | fuel + 1, t =>
    match (r.onGrid t).wholePoint? with
    | some n => ⟨n, t⟩
    | none => r.search fuel (t - 1)

/-- A power of ten that no point of the interval reaches. -/
def topExponent (r : RoundingInterval) : Int :=
  Int.fdiv (((r.value.log2 : Int) + 1 - r.denominator.log2) * 30103) 100000 + 1

/-- The fewest digits that read back; seventeen always do. -/
def shortest (r : RoundingInterval) : Decimal :=
  r.search 24 r.topExponent

end RoundingInterval

end ClosureLang
