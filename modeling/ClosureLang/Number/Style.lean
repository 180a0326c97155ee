import ClosureLang.Number.Shortest

namespace ClosureLang

/-- The decisions of one way to write numbers. -/
structure NumberStyle where
  /-- Scientific exponents from `least` to `greatest` are written positionally. -/
  least : Int
  greatest : Int
  /-- Whether a whole number in positional notation ends in `.0`. -/
  fraction : Bool
  /-- Whether an exponent that is not negative has a plus sign. -/
  plus : Bool
  /-- Whether a negative zero keeps its sign. -/
  signedZero : Bool
  infinity : String
  notANumber : String

namespace NumberStyle

/-- What `output` prints: positional from a millionth up to `10 ^ 21`. -/
def display : NumberStyle :=
  { least := -6, greatest := 20, fraction := false, plus := true, signedZero := false,
    infinity := "Infinity", notANumber := "NaN" }

/-- What listings print: always a point or an exponent, positional from `0.0001` up to `10 ^ 16`. -/
def listing : NumberStyle :=
  { least := -4, greatest := 15, fraction := true, plus := false, signedZero := true,
    infinity := "inf", notANumber := "NaN" }

/-- Digits with the point after the first `place` of them, padded with zeros on either side. -/
def positional (style : NumberStyle) (digits : List Char) (place : Int) : List Char :=
  if place ≤ 0 then '0' :: '.' :: List.replicate (-place).toNat '0' ++ digits
  else if digits.length ≤ place then
    digits ++ List.replicate (place.toNat - digits.length) '0' ++
      (if style.fraction then ['.', '0'] else [])
  else digits.take place.toNat ++ '.' :: digits.drop place.toNat

/-- One digit, the other digits behind a point if there are any, and the exponent. -/
def scientific (style : NumberStyle) (digits : List Char) (exponent : Int) : List Char :=
  digits.take 1 ++ (if digits.length ≤ 1 then [] else '.' :: digits.drop 1) ++ 'e' ::
    (if exponent < 0 then ['-'] else if style.plus then ['+'] else []) ++
    Nat.toDigits 10 exponent.natAbs

/-- Lays out a decimal that is not zero. -/
def layout (style : NumberStyle) (d : Decimal) : List Char :=
  let digits := Nat.toDigits 10 d.digits
  let place := digits.length + d.exponent
  if style.least ≤ place - 1 ∧ place - 1 ≤ style.greatest then style.positional digits place
  else style.scientific digits (place - 1)

/-- The text of a decoded number without its sign. -/
def magnitude (style : NumberStyle) (m : Nat) (q : Int) : List Char :=
  if m = 0 then (if style.fraction then ['0', '.', '0'] else ['0'])
  else style.layout (RoundingInterval.ofMantissa m q).shortest

/-- A minus sign in front of negative numbers. -/
def signed (negative : Bool) (text : List Char) : List Char :=
  if negative then '-' :: text else text

def render (style : NumberStyle) (x : Float) : String :=
  match Binary64.ofFloat x with
  | .notANumber => style.notANumber
  | .infinite negative => .ofList (signed negative style.infinity.toList)
  | .finite negative m q =>
    .ofList (signed (negative && (m != 0 || style.signedZero)) (style.magnitude m q))

end NumberStyle

end ClosureLang
