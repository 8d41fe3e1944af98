import WordMachine.Text.Numeral

/-!
# Names that are numbers

A record lists its values in the order in which they were given, except that values named by an
index, a plain numeral, come first and by their numbers.
-/

namespace WordMachine.Text

def greatestIndex : Nat := 4294967294

/-- The index that a name is: a numeral without sign and without leading zeros. -/
def index? (name : String) : Option Nat :=
  (natural? name.toList).filter fun n => n ≤ greatestIndex && ofInteger n == name

/-- Named values in the order in which a record lists them. -/
def listed {α : Type} (named : List (String × α)) : List (String × α) :=
  let numbered := named.filterMap fun (name, value) => (index? name).map fun n => (n, name, value)
  (numbered.mergeSort fun a b => a.1 ≤ b.1).map Prod.snd ++
    named.filter fun (name, _) => (index? name).isNone

end WordMachine.Text
