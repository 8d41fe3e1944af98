/-!
# Reserved names

A record of named values answers to a few names under which nobody gave it a value. What it has
there is no text: a function, or for `lineage` an object.
-/

namespace WordMachine.Text

/-- The reserved name that no value can be given under at all. -/
def lineage : String := "__proto__"

/-- The names that every record answers to. -/
def reserved : List String :=
  [lineage, "constructor", "hasOwnProperty", "isPrototypeOf", "propertyIsEnumerable",
    "toLocaleString", "toString", "valueOf", "__defineGetter__", "__defineSetter__",
    "__lookupGetter__", "__lookupSetter__"]

def isReserved (name : String) : Bool :=
  reserved.contains name

/-- The type of what every record has under a reserved name. -/
def reservedType? (name : String) : Option String :=
  if name = lineage then some "object" else if isReserved name then some "function" else none

end WordMachine.Text
