import WordMachine.Environment.File
import WordMachine.Environment.Schema
import WordMachine.Files
import WordMachine.Text.Units

/-!
# Environments

The environment of a program is what it is given, completed from an environment file. The file never
overrides a variable that is set, not even one that is set to nothing.
-/

namespace WordMachine.Environment

abbrev Variables := List (String × Setting)

def defaultPath : String := ".env"

/-- The file that a name stands for. -/
def pathOf (name : Option String) : String :=
  match name with
  | none | some "" => defaultPath
  | some path => path

/-- The text of the file that a name stands for, if it can be read. A name that begins with a tilde
stands for a file in the home directory, of which nothing is known. -/
def fileText (files : Files) (name : Option String) : Option String :=
  let path := pathOf name
  if path.startsWith "~" then none else (files.read path).toOption.map Text.ofBytes

/-- Sets a variable, which may be set already. -/
def set (name : String) (setting : Setting) : Variables → Variables
  | [] => [(name, setting)]
  | (other, old) :: rest =>
    if other = name then (name, setting) :: rest else (other, old) :: set name setting rest

/-- The variables that a file sets. An assignment to the name that takes no value is lost. -/
def ofAssignments (assignments : List Assignment) : Variables :=
  (assignments.filter fun (name, _) => name ≠ Text.lineage).foldl
    (fun vars (name, value) => set name (.text value) vars) []

def complete (vars : Variables) (text : String) : Variables :=
  vars ++ (ofAssignments (File.assignments text)).filter fun (name, _) => (vars.lookup name).isNone

def sorted (vars : Variables) : Variables :=
  vars.mergeSort fun a b => Text.unitsLe a.1 b.1

/-- Completes an environment from a file, which may be missing, and checks it. -/
def load (vars : Variables) (text : Option String) :
    Variables × Except (List Issue) (List (String × String)) :=
  let vars := (text.map (complete vars)).getD vars
  (vars, check base fun name => vars.lookup name)

end WordMachine.Environment
