import WordMachine.Number

/-!
# Numbers in decimal

A number is written with the fewest digits that read back as it, and among such numerals by the one
nearest to it. Numerals of up to 21 places before the point or six behind it are written out; all
others have an exponent.
-/

namespace WordMachine

/-- What a positive number is written by: digits without zeros at the end, and how many of them
stand before the point. Less than none stands for zeros right behind the point. -/
structure Numeral where
  digits : List Char
  -- How many of them stand before the point.
  point : Int
  deriving DecidableEq, Repr

namespace Numeral

def digitsOf (n : Nat) : List Char :=
  Nat.toDigits 10 n

/-- So many times a power of ten. -/
def ofScaled (multiple : Nat) (exponent : Int) : Numeral :=
  let digits := digitsOf multiple
  { digits := (digits.reverse.dropWhile fun digit => digit == '0').reverse
    point := digits.length + exponent }

/-- Zeros, if there is a place for any. -/
def zeros (count : Int) : List Char :=
  List.replicate count.toNat '0'

/-- A numeral with an exponent, which has a sign always. -/
def withExponent (numeral : Numeral) : List Char :=
  let exponent := numeral.point - 1
  let fraction := numeral.digits.drop 1
  numeral.digits.take 1 ++ (if fraction.isEmpty then [] else '.' :: fraction) ++
    'e' :: (if exponent < 0 then '-' else '+') :: digitsOf exponent.natAbs

def written (numeral : Numeral) : List Char :=
  let length : Int := numeral.digits.length
  let point := numeral.point
  if point < -5 || 21 < point then numeral.withExponent
  else if point ≤ 0 then '0' :: '.' :: zeros (-point) ++ numeral.digits
  else if point < length then
    numeral.digits.take point.toNat ++ '.' :: numeral.digits.drop point.toNat
  else numeral.digits ++ zeros (point - length)

/-- How many digits a positive fraction has before the point, less the zeros right behind it. -/
def places (numerator denominator : Nat) : Int :=
  -- The digits of the two tell the count up to one.
  let count : Int := (digitsOf numerator).length - (digitsOf denominator).length
  let (numerator, denominator) := Number.inUnits 10 count numerator denominator
  if numerator < denominator then count else count + 1

/-- The multiple of a power of ten that reads back as a finite number, if there is one: of the two
beside the number the nearer one, if both do. -/
def multiple? (significand : Nat) (exponent place : Int) : Option Nat :=
  -- Everything is counted in quarters of the number's last bit, over the power of ten.
  let quarter := Number.power 2 (exponent - 2) * Number.power 10 (-place)
  let unit := Number.power 2 (2 - exponent) * Number.power 10 place
  -- Below a power of two numbers lie half as far apart.
  let isNarrow :=
    significand = Number.significandBound / 2 && Number.leastExponent < exponent
  let low := (4 * significand - if isNarrow then 1 else 2) * quarter
  let high := (4 * significand + 2) * quarter
  -- From the middle between two numbers one gets to the even one.
  let readsBack (multiple : Nat) : Bool :=
    low < multiple * unit && multiple * unit < high ||
      significand % 2 = 0 && (multiple * unit = low || multiple * unit = high)
  let value := 4 * significand * quarter
  [Number.nearest value unit, value / unit, value / unit + 1].find? readsBack

/-- All digits of a positive finite number. -/
def exact (significand : Nat) (exponent : Int) : Numeral :=
  ofScaled (significand * Number.power 2 exponent * Number.power 5 (-exponent)) (min exponent 0)

/-- The shortest numeral that reads back as a positive finite number. -/
def shortest (significand : Nat) (exponent : Int) : Numeral :=
  let top := places (significand * Number.power 2 exponent) (Number.power 2 (-exponent))
  -- Seventeen digits are always enough.
  let found := (List.range 17).findSome? fun count =>
    let place : Int := top - 1 - (count : Nat)
    (multiple? significand exponent place).map (ofScaled · place)
  found.getD (exact significand exponent)

end Numeral

def Number.text : Number → String
  | .infinite negative => if negative then "-Infinity" else "Infinity"
  | .finite _ 0 _ => "0"
  | .finite negative significand exponent =>
    let digits := (Numeral.shortest significand exponent).written
    String.ofList (if negative then '-' :: digits else digits)

end WordMachine
