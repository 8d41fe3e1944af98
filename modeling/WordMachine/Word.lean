import WordMachine.Text.Numeral

/-!
# Words

A word is a signed 64-bit integer, the only value that memory, registers and instructions hold.
Integers from outside reach a word by reduction modulo `2 ^ 64`; a written word must already lie in
the range.
-/

namespace WordMachine

/-- A signed 64-bit integer. -/
abbrev Word := Int64

namespace Word

/-- The least integer too large for a word, `2 ^ 63`. -/
def limit : Int := 9223372036854775808

/-- The integers that a word represents exactly. -/
def InRange (value : Int) : Prop :=
  -limit ≤ value ∧ value < limit

instance (value : Int) : Decidable (InRange value) := by
  unfold InRange; infer_instance

inductive Misread where
  | notInteger
  | outOfRange
  deriving DecidableEq, Repr

/-- The reason in the form error messages quote it. -/
def Misread.message : Misread → String
  | .notInteger => "not an integer"
  | .outOfRange => "outside the signed 64-bit range"

def read (cs : List Char) : Except Misread Word :=
  match Text.integer? cs with
  | none => .error .notInteger
  | some value => if InRange value then .ok (Int64.ofInt value) else .error .outOfRange

def text (w : Word) : String :=
  Text.ofInteger w.toInt

/-- The word that represents an integer modulo `2 ^ 64`. -/
abbrev ofInt (value : Int) : Word :=
  Int64.ofInt value

/-- Within the range the reduction loses nothing. -/
theorem toInt_ofInt_of_inRange {value : Int} (h : InRange value) :
    (ofInt value).toInt = value := by
  unfold InRange limit at h
  exact Int64.toInt_ofInt_of_le (by omega) (by omega)

/-- Every word's value lies in the range. -/
theorem inRange_toInt (w : Word) : InRange w.toInt := by
  have low := Int64.le_toInt w
  have high := Int64.toInt_lt w
  unfold InRange limit
  omega

end Word

end WordMachine
