import Storyboard.Number.Double
import Storyboard.Number.Shortest

/-!
# Written numbers

The three forms in which a double appears in a text: plain digits without an
exponent, digits that always show a fraction or an exponent, and one decimal
place.  The first two write the shortest decimal that reads back.
-/

namespace Storyboard

namespace Decimal

/-- The minus sign of a negative number. -/
def sign (negative : Bool) : String := if negative then "-" else ""

/-- A run of zeros. -/
def zeros (n : Nat) : String := String.ofList (List.replicate n '0')

/-- Digits with the point `places` from the right, and at least one before it. -/
def pointed (digits : Nat) (places : Nat) : String :=
  let text := (Nat.toDigits 10 digits).leftpad (places + 1) '0'
  let whole := text.length - places
  String.ofList (text.take whole) ++ "." ++ String.ofList (text.drop whole)

/-- The digits written out without an exponent, and without a fraction if it is zero. -/
def plain (d : Decimal) : String :=
  sign d.negative ++
    if 0 ≤ d.exponent then
      toString d.digits ++ (if d.digits = 0 then "" else zeros d.exponent.toNat)
    else pointed d.digits (-d.exponent).toNat

/-- One digit before the point, the rest behind it, and the power of ten. -/
def scientific (d : Decimal) : String :=
  let text := Nat.toDigits 10 d.digits
  let power := d.exponent + (text.length - 1 : Nat)
  let mark := if power < 0 then "e-" else "e+"
  sign d.negative ++ String.ofList (text.take 1) ++
    (if text.length = 1 then "" else "." ++ String.ofList (text.drop 1)) ++
    mark ++ toString power.natAbs

/-- Positional from `10 ^ -5` up to `10 ^ 16`, scientific outside; never a bare integer. -/
def marked (d : Decimal) : String :=
  let power := d.exponent + ((Nat.toDigits 10 d.digits).length - 1 : Nat)
  if d.digits = 0 then sign d.negative ++ "0.0"
  else if -5 ≤ power ∧ power < 16 then
    if 0 ≤ d.exponent then plain d ++ ".0" else plain d
  else scientific d

end Decimal

namespace Written

/-- The names of the doubles that have no digits. -/
def nonFinite (x : Float) : String :=
  if Scalar.isUndefined x then "NaN" else if x < 0 then "-inf" else "inf"

/-- The shortest digits without an exponent; of two nearest ones the larger. -/
def plain (x : Float) : String :=
  if Scalar.isFinite x then (Decimal.shortest .upward (Binary.ofFloat x)).plain
  else nonFinite x

/-- The shortest digits with a fraction or an exponent; of two nearest ones the even. -/
def marked (x : Float) : String :=
  if Scalar.isFinite x then (Decimal.shortest .toEven (Binary.ofFloat x)).marked
  else nonFinite x

/-- The exact value rounded to one decimal place, a half going to the even digit. -/
def tenths (x : Float) : String :=
  if Scalar.isFinite x then
    let b := Binary.ofFloat x
    let (num, den) := Decimal.ratio b.mantissa b.exponent 1
    Decimal.sign b.negative ++ Decimal.pointed (Decimal.roundQuotient .toEven num den) 1
  else nonFinite x

end Written

instance : NumberText Float where
  plain := Written.plain
  tenths := Written.tenths

end Storyboard
