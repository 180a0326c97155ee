import ClosureLang.Number.Shortest

namespace ClosureLang

namespace Decimal

def digitsValue (cs : List Char) : Nat :=
  cs.foldl (fun n c => 10 * n + (c.toNat - '0'.toNat)) 0

/--
The bits of the double nearest to a decimal whose digits are written with `length` places. Far
outside the range of doubles the answer is known without the power of ten.
-/
def nearestBits (d : Decimal) (length : Nat) : Nat :=
  if d.digits = 0 then 0
  else if 400 < d.exponent then Binary64.infinityBits
  else if d.exponent + length < -400 then 0
  else Binary64.nearest (d.digits * tenPow d.exponent.toNat) (tenPow (-d.exponent).toNat)

/-- An exponent mark with an optional sign and at least one digit, to the end of the text. -/
def readExponent? : List Char → Option Int
  | [] => some 0
  | c :: rest =>
    if c = 'e' ∨ c = 'E' then
      let (negative, digits) := match rest with
        | '-' :: r => (true, r)
        | '+' :: r => (false, r)
        | r => (false, r)
      if digits.isEmpty ∨ ¬ digits.all Char.isDigit then none
      else
        let n : Int := digitsValue digits
        some (if negative then -n else n)
    else none

/-- The bits of a number without a sign; at least one digit stands before or after the point. -/
def readBits? (cs : List Char) : Option Nat :=
  let whole := cs.takeWhile Char.isDigit
  let rest := cs.dropWhile Char.isDigit
  let (fraction, tail) := match rest with
    | '.' :: r => (r.takeWhile Char.isDigit, r.dropWhile Char.isDigit)
    | r => ([], r)
  let digits := whole ++ fraction
  if digits.isEmpty then none
  else do
    let exponent ← readExponent? tail
    pure (nearestBits ⟨digitsValue digits, exponent - fraction.length⟩ digits.length)

end Decimal

/-- The double nearest to the number written in `cs`, if it is one. -/
def readNumber? (cs : List Char) : Option Float :=
  let (negative, body) := match cs with
    | '-' :: r => (true, r)
    | '+' :: r => (false, r)
    | r => (false, r)
  let word := body.map Char.toLower
  let bits? :=
    if word = "inf".toList ∨ word = "infinity".toList then some Binary64.infinityBits
    else if word = "nan".toList then some (Binary64.infinityBits + Binary64.hiddenBit / 2)
    else Decimal.readBits? body
  bits?.map fun bits =>
    Float.ofBits (UInt64.ofNat (if negative then bits + Binary64.signBit else bits))

end ClosureLang
