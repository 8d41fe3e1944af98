import WordMachine.Device
import WordMachine.Image
import WordMachine.Text.Lines

/-!
# Consoles

A console asks for each input with a prompt and takes one word per line. A line that is no word,
blanks around it aside, is answered with a request to try again and dropped. Outputs are printed one
per line.

A console reads ahead: all lines are fetched for the first input. So a console that is closed before
has none, and one that is closed later keeps those it has.
-/

namespace WordMachine

/-- Lines still to be read, and what was printed. -/
structure Console where
  -- The lines not yet read.
  lines : List (List Char)
  fetched : Bool := false
  -- The lines printed so far, oldest first.
  printed : Array String := #[]
  deriving Repr

namespace Console

/-- Printed before each input. -/
def prompt : String := "Input required."

/-- Printed after each line that is no word. -/
def retry : String := "Invalid integer, try again."

def source : String := "console"

def ofText (text : String) : Console :=
  { lines := Text.lines text.toList }

def print (c : Console) (line : String) : Console :=
  { c with printed := c.printed.push line }

/-- The word on a line, blanks around it aside. -/
def readLine (line : List Char) : Except Word.Misread Word :=
  Word.read (Text.trim line)

/-- Reads lines up to the first with a word on it, and prints a request to try again for each
before. -/
def listen (printed : Array String) : List (List Char) → Reply × Console
  | [] => (.endOfStream source, ⟨[], true, printed⟩)
  | line :: rest =>
    match readLine line with
    | .ok word => (.value word.toInt, ⟨rest, true, printed⟩)
    -- A bad line costs no further prompt.
    | .error _ => listen (printed.push retry) rest

def request (c : Console) : Reply × Console :=
  listen (c.printed.push prompt) c.lines

def emit (value : Int) (c : Console) : Except Fault Unit × Console :=
  (.ok (), c.print (Text.ofInteger value))

def close (c : Console) : Console :=
  if c.fetched then c else { c with lines := [] }

def written (c : Console) : String :=
  String.join (c.printed.toList.map (· ++ "\n"))

def wipe (c : Console) : Console :=
  { c with printed := #[] }

def device : Device Console :=
  { request, emit }

end Console

end WordMachine
