import WordMachine.Text.Index
import WordMachine.Text.Reserved

/-!
# Environment variables

A schema lists the variables that a program looks at, each with the values it may have and perhaps
one for when it is not set. Checking an environment yields a value for every variable of the schema,
or an issue for every variable that has none.

Schemas and environments are records of named values: what every record has under a reserved name
is there as long as nothing else is.
-/

namespace WordMachine.Environment

inductive Setting where
  | text (value : String)
  | other (type : String)
  deriving DecidableEq, Repr

structure Field where
  name : String
  values : List String
  -- What it is set to when nothing else sets it.
  fallback : Option Setting := none
  deriving DecidableEq, Repr

inductive Complaint where
  | notAllowed (received : String)
  | notText (type : String)
  | required
  deriving DecidableEq, Repr

structure Issue where
  field : Field
  complaint : Complaint
  deriving DecidableEq, Repr

def Complaint.code : Complaint → String
  | .notAllowed _ => "invalid_enum_value"
  | .notText _ | .required => "invalid_type"

/-- The values of a field, quoted and with bars between them. -/
def Field.choices (f : Field) : String :=
  " | ".intercalate (f.values.map fun v => "'" ++ v ++ "'")

def Issue.message (i : Issue) : String :=
  match i.complaint with
  | .notAllowed received =>
    "Invalid enum value. Expected " ++ i.field.choices ++ ", received '" ++ received ++ "'"
  | .notText type => "Expected " ++ i.field.choices ++ ", received " ++ type
  | .required => "Required"

/-- What a variable that is not set has instead, if it has anything. -/
def Field.unset (f : Field) : Option Setting :=
  ((Text.reservedType? f.name).map .other).or f.fallback

/-- The value of a field under a setting. -/
def Field.check (f : Field) (setting : Option Setting) : Except Complaint String :=
  match setting.or f.unset with
  | none => .error .required
  | some (.other type) => .error (.notText type)
  | some (.text value) => if value ∈ f.values then .ok value else .error (.notAllowed value)

/-- Checks an environment: a value for every field, or all issues, in the order of the schema. -/
def check (schema : List Field) (settings : String → Option Setting) :
    Except (List Issue) (List (String × String)) :=
  match schema with
  | [] => .ok []
  | f :: rest =>
    -- The remaining fields are checked in any case, so that no issue is lost.
    match f.check (settings f.name), check rest settings with
    | .ok value, .ok values => .ok ((f.name, value) :: values)
    | .ok _, .error issues => .error issues
    | .error complaint, .ok _ => .error [⟨f, complaint⟩]
    | .error complaint, .error issues => .error (⟨f, complaint⟩ :: issues)

def base : List Field :=
  [{ name := "NODE_ENV"
     values := ["development", "production", "test"]
     fallback := some (.text "development") },
   { name := "LOG_LEVEL"
     values := ["trace", "debug", "info", "warn", "error"]
     fallback := some (.text "info") }]

/-- Adds a field to a schema, in place of the one with its name if there is one. -/
def put (f : Field) : List Field → List Field
  | [] => [f]
  | g :: rest => if g.name = f.name then f :: rest else g :: put f rest

/-- A schema with more fields, in the order in which a record lists them. -/
def extend (schema fields : List Field) : List Field :=
  let added := fields.filter fun f => f.name ≠ Text.lineage
  let all := added.foldl (fun schema f => put f schema) schema
  (Text.listed (all.map fun f => (f.name, f))).map Prod.snd

end WordMachine.Environment
