/-!
# Numbers

A number is a value of binary64: a whole number of at most 53 bits times a power of two, or beyond
all of these. Everything else is rounded to the nearest number, and from the middle between two to
the even one. Zero has no sign.
-/

namespace WordMachine

inductive Number where
  -- So many times a power of two.
  | finite (negative : Bool) (significand : Nat) (exponent : Int)
  -- Beyond every finite number.
  | infinite (negative : Bool)
  deriving DecidableEq, Repr

namespace Number

/-- Every significand is below two to the 53rd. -/
def significandBound : Nat := 9007199254740992

/-- The least exponent. Only numbers that have it have significands of less than 53 bits. -/
def leastExponent : Int := -1074

def greatestExponent : Int := 971

def zero : Number := .finite false 0 leastExponent

def isZero : Number → Bool
  | .finite _ significand _ => significand = 0
  | .infinite _ => false

/-- A power of a base, or one where the exponent is negative. -/
def power (base : Nat) (exponent : Int) : Nat :=
  Nat.pow base exponent.toNat

/-- A fraction as a multiple of a power of a base, as a fraction again. -/
def inUnits (base : Nat) (exponent : Int) (numerator denominator : Nat) : Nat × Nat :=
  (numerator * power base (-exponent), denominator * power base exponent)

/-- The whole number nearest to a fraction. The middle between two goes to the even one. -/
def nearest (numerator denominator : Nat) : Nat :=
  let below := numerator / denominator
  let double := 2 * (numerator % denominator)
  if double < denominator then below
  else if denominator < double then below + 1
  else below + below % 2

/-- The exponent that leaves a positive fraction 53 bits before the point, unless that is too
small. -/
def exponentOf (numerator denominator : Nat) : Int :=
  -- The bits of the two tell the exponent up to one.
  let exponent : Int := max (numerator.log2 - denominator.log2 - 53) leastExponent
  let (numerator, denominator) := inUnits 2 exponent numerator denominator
  if numerator / denominator < significandBound then exponent else exponent + 1

def ofFraction (negative : Bool) (numerator denominator : Nat) : Number :=
  if numerator = 0 then zero
  else
    let exponent := exponentOf numerator denominator
    let (numerator, denominator) := inUnits 2 exponent numerator denominator
    let significand := nearest numerator denominator
    -- Rounding up may take one bit more, and the last bit is zero then.
    let (significand, exponent) :=
      if significand < significandBound then (significand, exponent)
      else (significand / 2, exponent + 1)
    if significand = 0 then zero
    else if greatestExponent < exponent then .infinite negative
    else .finite negative significand exponent

def ofDecimal (digits : Int) (exponent : Int) : Number :=
  ofFraction (digits < 0) (digits.natAbs * power 10 exponent) (power 10 (-exponent))

def ofInt (value : Int) : Number :=
  ofDecimal value 0

def truncate? : Number → Option Int
  | .finite negative significand exponent =>
    let whole : Int := significand * power 2 exponent / power 2 (-exponent)
    some (if negative then -whole else whole)
  | .infinite _ => none

end Number

end WordMachine
