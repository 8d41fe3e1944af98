/-!
# Lines

A line ends at a line feed, at a carriage return, or at a carriage return with a line feed behind
it. What follows the last line end is a line of its own unless it is empty. No other character ends
a line.
-/

namespace WordMachine.Text

/-- Splits into lines, where `current` holds the unfinished line backwards and the finished lines
are on `done`, also backwards. -/
def linesFrom (done : List (List Char)) (current : List Char) : List Char → List (List Char)
  | [] => (if current.isEmpty then done else current.reverse :: done).reverse
  | '\r' :: '\n' :: rest => linesFrom (current.reverse :: done) [] rest
  | '\r' :: rest => linesFrom (current.reverse :: done) [] rest
  | '\n' :: rest => linesFrom (current.reverse :: done) [] rest
  | c :: rest => linesFrom done (c :: current) rest

def lines (cs : List Char) : List (List Char) :=
  linesFrom [] [] cs

end WordMachine.Text
