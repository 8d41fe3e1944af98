import WordMachine.Fault
import WordMachine.Text.Utf8

/-!
# Files

A working directory with files and directories in it, in a system of which nothing else is known but
what every system has. A path leads from the working directory, or from the root, to what it names.
A program file is read as text and then as an image.
-/

namespace WordMachine

inductive Entry where
  | file (bytes : List UInt8)
  | directory
  deriving Repr

structure Files where
  -- The entries by their places, which are lists of names from the root. The first one at a place
  -- counts. A directory that only leads to other entries need not be listed.
  entries : List (List String × Entry)

namespace Files

/-- The place of the working directory. Its own name is unknown, and the empty one stands for it,
which leads nowhere on a path. -/
def home : List String := ["tmp", ""]

/-- The names on a path. A path that ends in a separator names what stands before it as a
directory. -/
def names (path : String) : List String :=
  (path.toList.splitOnP (· == '/')).map String.ofList

/-- Whether a name leads nowhere else. Empty names come from doubled and trailing separators. -/
def isIdle (name : String) : Bool :=
  name == "" || name == "."

/-- Where a path starts: at the root if it begins with a separator. -/
def start (path : String) : List String :=
  if path.startsWith "/" then [] else home

/-- The place that a path leads to if all names on it are those of directories. Nothing is above the
root. -/
def place (path : String) : List String :=
  (names path).foldl
    (fun place name =>
      if isIdle name then place else if name = ".." then place.dropLast else place ++ [name])
    (start path)

def add (files : Files) (path : String) (entry : Entry) : Files :=
  { entries := (place path, entry) :: files.entries }

/-- What every system has: directories, and among them a file without content. The working directory
is empty. -/
def system : Files :=
  ["bin", "boot", "etc", "home", "lib", "media", "mnt", "opt", "proc", "root", "run", "sbin", "srv",
      "sys", "tmp", "usr/bin", "usr/lib", "usr/local", "usr/sbin", "usr/share", "var/lib",
      "var/log", "var/tmp"].foldl
    (fun files name => files.add ("/" ++ name) .directory)
    { entries := [(["dev", "null"], .file []), (home, .directory)] }

def entry? (files : Files) (place : List String) : Option Entry :=
  match files.entries.lookup place with
  | some entry => some entry
  | none =>
    if place.isEmpty || files.entries.any fun (key, _) => place.isPrefixOf key then some .directory
    else none

/-- The bytes that a name on a path may have. -/
def nameLimit : Nat := 255

/-- A path has fewer bytes than this. -/
def pathLimit : Nat := 4096

/-- Follows names from the entry at a place on. -/
def walk (files : Files) (path : String) (place : List String) :
    Entry → List String → Except FileProblem Entry
  | entry, [] => .ok entry
  | .file _, _ :: _ => .error (.notDirectory path)
  | .directory, name :: rest =>
    if isIdle name then walk files path place .directory rest
    else if name = ".." then walk files path place.dropLast .directory rest
    else if nameLimit < name.utf8ByteSize then .error (.nameTooLong path)
    else
      match files.entry? (place ++ [name]) with
      | none => .error (.missing path)
      | some entry => walk files path (place ++ [name]) entry rest

def find (files : Files) (path : String) : Except FileProblem Entry :=
  files.walk path (start path) .directory (names path)

def read (files : Files) (path : String) : Except FileProblem (List UInt8) :=
  if path.contains '\x00' then .error (.nullInPath path)
  else if path.isEmpty then .error (.missing path)
  else if pathLimit ≤ path.utf8ByteSize then .error (.nameTooLong path)
  else
    match files.find path with
    | .error problem => .error problem
    | .ok .directory => .error .isDirectory
    | .ok (.file bytes) => .ok bytes

end Files

def Image.ofText (text : String) : Except Fault Image :=
  match Image.read text with
  | .ok words => .ok words.toArray
  | .error why => .error (.badProgram why)

def Image.ofFile : Except FileProblem (List UInt8) → Except Fault Image
  | .error why => .error (.unreadable why)
  | .ok bytes => Image.ofText (Text.ofBytes bytes)

end WordMachine
