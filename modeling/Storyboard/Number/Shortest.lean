/-!
# Shortest decimals

A double precision number is a whole multiple of a power of two, and every real
number that lies close enough to it is read back as the same double.  Among the
decimals in that interval this module finds one with the fewest digits, and the
nearest of those.  All of it is arithmetic on natural numbers.
-/

namespace Storyboard

/-- A finite double as sign, whole mantissa and power of two. -/
structure Binary where
  negative : Bool
  mantissa : Nat
  exponent : Int
  deriving DecidableEq

/-- A decimal number `digits * 10 ^ exponent` with a sign. -/
structure Decimal where
  negative : Bool
  digits : Nat
  exponent : Int
  deriving DecidableEq

/-- Which of two equally near neighbours is taken. -/
inductive Tie where
  | toEven
  | upward
  deriving DecidableEq

namespace Binary

/-- The fields of a double: sign bit, eleven bits of exponent, the rest mantissa. -/
def ofFloat (x : Float) : Binary :=
  let bits := x.toBits.toNat
  let fraction : Nat := bits % Nat.pow 2 52
  let scale : Nat := bits / Nat.pow 2 52 % Nat.pow 2 11
  let negative := bits / Nat.pow 2 63 == 1
  if scale = 0 then ⟨negative, fraction, -1074⟩
  else ⟨negative, Nat.pow 2 52 + fraction, (scale : Int) - 1075⟩

/-- The gap to the next smaller double is half as wide just above a power of two. -/
def isLowEdge (b : Binary) : Bool :=
  b.mantissa == Nat.pow 2 52 && b.exponent > -1074

end Binary

namespace Decimal

/-- Numerator and denominator of `n * 2 ^ two * 10 ^ ten`. -/
def ratio (n : Nat) (two ten : Int) : Nat × Nat :=
  (n * Nat.pow 2 two.toNat * Nat.pow 10 ten.toNat,
    Nat.pow 2 (-two).toNat * Nat.pow 10 (-ten).toNat)

/-- Whether a quotient goes up to its upper neighbour. -/
def goesUp (tie : Tie) (floor num den : Nat) : Bool :=
  let twice := 2 * num
  let middle := (2 * floor + 1) * den
  if twice < middle then false
  else if middle < twice then true
  else match tie with
    | .toEven => floor % 2 == 1
    | .upward => true

/-- The quotient of two numbers rounded to the nearest whole one. -/
def roundQuotient (tie : Tie) (num den : Nat) : Nat :=
  let floor := num / den
  if goesUp tie floor num den then floor + 1 else floor

/--
The neighbour of `b` among the multiples of `10 ^ place` that is read back as
`b`, the nearer one if both are.
-/
def onGrid? (tie : Tie) (b : Binary) (place : Int) : Option Nat :=
  let four := 4 * b.mantissa
  let low := if b.isLowEdge then four - 1 else four - 2
  let high := four + 2
  let (num, den) := ratio four (b.exponent - 2) (-place)
  let (lowNum, _) := ratio low (b.exponent - 2) (-place)
  let (highNum, _) := ratio high (b.exponent - 2) (-place)
  let closed := b.mantissa % 2 == 0
  let floor := num / den
  let lowerFits := if closed then lowNum ≤ floor * den else lowNum < floor * den
  let upperFits :=
    if closed then (floor + 1) * den ≤ highNum else (floor + 1) * den < highNum
  match decide lowerFits, decide upperFits with
  | true, true => some (if goesUp tie floor num den then floor + 1 else floor)
  | true, false => some floor
  | false, true => some (floor + 1)
  | false, false => none

/-- A power of ten that is certainly above the number. -/
def ceilingPlace (b : Binary) : Int :=
  (b.mantissa.log2 + 1 + b.exponent) * 30103 / 100000 + 2

/--
The shortest decimal that is read back as `b`.  Seventeen digits always suffice,
so one of the places below the ceiling has a hit.
-/
def shortest (tie : Tie) (b : Binary) : Decimal :=
  if b.mantissa = 0 then ⟨b.negative, 0, 0⟩
  else
    let top := ceilingPlace b
    let hit := (List.range 24).findSome? fun (n : Nat) =>
      (onGrid? tie b (top - n)).map fun digits => (digits, top - (n : Int))
    match hit with
    | some (digits, place) => ⟨b.negative, digits, place⟩
    | none => ⟨b.negative, b.mantissa, 0⟩

end Decimal

end Storyboard
