/-!
# Help

A help page says how a command is written and what it is for, and lists what may stand on its line.
Each list shows terms in one column and their descriptions in another. A description that does not
fit beside its term goes on in the lines below, broken between words.
-/

namespace WordMachine.CommandLine

structure Entry where
  term : String
  description : String
  deriving DecidableEq, Repr

structure Listing where
  title : String
  entries : List Entry
  deriving DecidableEq, Repr

structure Page where
  usage : String
  description : String
  -- What may stand on its line. A list without terms is left out.
  listings : List Listing
  deriving DecidableEq, Repr

namespace Page

def columns : Nat := 80

/-- The blanks before each term. -/
def margin : Nat := 2

/-- The blanks between the longest term and its description. -/
def gap : Nat := 2

/-- Fills lines with words, where `line` is the line so far. A line has as many words as fit into
`width` columns, and at least one. -/
def fillFrom (width : Nat) (line : List Char) : List (List Char) → List (List Char)
  | [] => [line]
  | word :: rest =>
    if line.length + 1 + word.length ≤ width then fillFrom width (line ++ ' ' :: word) rest
    else line :: fillFrom width word rest

def fill (width : Nat) : List (List Char) → List (List Char)
  | [] => []
  | word :: rest => fillFrom width word rest

def paragraph (width : Nat) (text : String) : List (List Char) :=
  fill width (text.toList.splitOnP (· == ' '))

def termWidth (p : Page) : Nat :=
  ((p.listings.flatMap Listing.entries).map fun e => e.term.length).foldl max 0

/-- The column that descriptions start in. -/
def indent (p : Page) : Nat :=
  margin + p.termWidth + gap

/-- The lines of a term and its description. The last column stays empty. -/
def entryLines (p : Page) (e : Entry) : List (List Char) :=
  let term := (List.replicate margin ' ' ++ e.term.toList).rightpad p.indent ' '
  match paragraph (columns - p.indent - 1) e.description with
  | [] => [term]
  | first :: rest => (term ++ first) :: rest.map fun line => List.replicate p.indent ' ' ++ line

/-- The lines of a list, with an empty one behind them. -/
def listingLines (p : Page) (l : Listing) : List (List Char) :=
  if l.entries.isEmpty then []
  else (l.title ++ ":").toList :: (l.entries.flatMap p.entryLines ++ [[]])

/-- The lines of a page, with an empty one behind each part but the last. -/
def lines (p : Page) : List (List Char) :=
  (("Usage: " ++ p.usage).toList :: [] :: paragraph (columns - 1) p.description ++
    [] :: p.listings.flatMap p.listingLines).dropLast

def text (p : Page) : String :=
  String.join (p.lines.map fun line => String.ofList line ++ "\n")

end Page

end WordMachine.CommandLine
