namespace ClosureLang

def twoPow (n : Nat) : Nat := Nat.pow 2 n

def tenPow (n : Nat) : Nat := Nat.pow 10 n

/-- What the 64 bits of a double stand for: `finite s m q` is `m * 2 ^ q`, negated if `s`. -/
inductive Binary64 where
  | notANumber
  | infinite (negative : Bool)
  | finite (negative : Bool) (mantissa : Nat) (exponent : Int)
deriving Repr, DecidableEq

namespace Binary64

/-- The bit of the sign, `2 ^ 63`. -/
def signBit : Nat := 0x8000000000000000

/-- The leading bit of a mantissa, `2 ^ 52`, which the format does not store. -/
def hiddenBit : Nat := 0x10000000000000

/-- The exponent field of infinities and of what is not a number. -/
def specialField : Nat := 2047

/-- The exponent of the smallest positive double. -/
def leastExponent : Int := -1074

/-- The bits of positive infinity; larger patterns without a sign are not numbers. -/
def infinityBits : Nat := specialField * hiddenBit

/-- Reads sign, exponent field and fraction; exponent field 0 has no hidden bit. -/
def ofBits (bits : Nat) : Binary64 :=
  let negative := bits / signBit % 2 == 1
  let field := bits / hiddenBit % 2048
  let fraction := bits % hiddenBit
  if field = specialField then
    if fraction = 0 then .infinite negative else .notANumber
  else if field = 0 then .finite negative fraction leastExponent
  else .finite negative (hiddenBit + fraction) (leastExponent - 1 + field)

/-- The decoded form of a number. -/
def ofFloat (x : Float) : Binary64 :=
  ofBits x.toBits.toNat

/-- The whole number nearest to `n / d`, a half going to the even neighbour. -/
def roundDiv (n d : Nat) : Nat :=
  let floor := n / d
  let twice := 2 * (n % d)
  if twice < d ∨ (twice = d ∧ floor % 2 = 0) then floor else floor + 1

/-- The fraction `n / d` divided by `2 ^ q`. -/
def scale (n d : Nat) (q : Int) : Nat × Nat :=
  (n * twoPow (-q).toNat, d * twoPow q.toNat)

/-- The exponent at which `n / d` has a mantissa of 53 bits, or the least one. -/
def exponentOf (n d : Nat) : Int :=
  let estimate := (n.log2 : Int) - d.log2 - 53
  let q := if estimate < leastExponent then leastExponent else estimate
  let (a, b) := scale n d q
  if a / b < 2 * hiddenBit then q else q + 1

/--
The bits of the double nearest to the positive fraction `n / d`, ties going to the even mantissa.
A mantissa that rounds up to `2 ^ 53` carries into the exponent field by itself.
-/
def nearest (n d : Nat) : Nat :=
  if n = 0 then 0
  else
    let q := exponentOf n d
    let (a, b) := scale n d q
    let bits := (q - leastExponent).toNat * hiddenBit + roundDiv a b
    if bits < infinityBits then bits else infinityBits

end Binary64

end ClosureLang
