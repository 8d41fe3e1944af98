import WordMachine.Text.Blank

/-!
# Environment files

An environment file sets variables, one assignment after another: perhaps `export`, a name, an equals
sign (or a colon with a blank behind it) and a value. A value stands between quotes, where it may run
over several lines, or reaches up to a comment or the end of its line. Text that is no assignment is
skipped line by line. Of several assignments to one variable the last one counts.

Quoted values are taken apart leniently. A backslash keeps a quote from ending the value, but if
nothing but blanks and a comment could follow only after an earlier quote, that one ends it after
all; if no quote will do, the value is read as if it were not quoted.
-/

namespace WordMachine.Environment

open Text (isBlank trim)

abbrev Assignment := String × String

namespace File

def isNameChar (c : Char) : Bool :=
  c.isAlphanum || c == '_' || c == '.' || c == '-'

def isLineEnd (c : Char) : Bool :=
  c == '\n' || c == '\u2028' || c == '\u2029'

/-- Turns every line end with a carriage return into a line feed. -/
def normalize : List Char → List Char
  | [] => []
  | '\r' :: '\n' :: rest => '\n' :: normalize rest
  | '\r' :: rest => '\n' :: normalize rest
  | c :: rest => c :: normalize rest

/-- What follows blanks that end a line: the text from the last line end among them on. -/
def lastLineEnd? : List Char → Option (List Char)
  | [] => none
  | c :: rest =>
    if isBlank c then
      match lastLineEnd? rest with
      | some found => some found
      | none => if isLineEnd c then some (c :: rest) else none
    else none

/-- What is left behind a complete value: the text behind blanks and a comment up to the end of the
line. There is nothing if something else follows the value on its line. -/
def closing? (cs : List Char) : Option (List Char) :=
  match cs.dropWhile isBlank with
  | [] => some []
  | '#' :: comment => some (comment.dropWhile fun c => !isLineEnd c)
  -- Something follows, but perhaps only on a later line.
  | _ => lastLineEnd? cs

/-- The places where a quoted value may end, best first: each as the value backwards and the text
behind the closing quote. `body` holds the value so far backwards, `earlier` the places at quotes
that a backslash precedes. -/
def endings (quote : Char) (body : List Char) (earlier : List (List Char × List Char)) :
    List Char → List (List Char × List Char)
  | [] => earlier
  | c :: rest =>
    if c == quote then
      -- Behind a backslash the quote may belong to the value: better ends are looked for first.
      if body.head? == some '\\' then endings quote (c :: body) ((body, rest) :: earlier) rest
      else (body, rest) :: earlier
    else endings quote (c :: body) earlier rest

/-- A quoted value with the text behind it. Blanks, also over several lines, may precede it. -/
def quoted? (cs : List Char) : Option (List Char × List Char) :=
  match cs.dropWhile isBlank with
  | [] => none
  | quote :: rest =>
    if quote == '\'' || quote == '"' || quote == '\x60' then
      (endings quote [] [] rest).findSome? fun (body, behind) =>
        (closing? behind).map fun left => (quote :: body.reverse ++ [quote], left)
    else none

def bare (cs : List Char) : List Char × List Char :=
  let isEnd (c : Char) : Bool := c == '#' || c == '\n' || c == '\r'
  let value := cs.takeWhile fun c => !isEnd c
  let behind := cs.dropWhile fun c => !isEnd c
  (value, (closing? behind).getD behind)

def rawValue (cs : List Char) : List Char × List Char :=
  (quoted? cs).getD (bare cs)

/-- What follows the sign between a name and its value. -/
def afterSign? (cs : List Char) : Option (List Char) :=
  match cs.dropWhile isBlank with
  | '=' :: rest => some rest
  | _ =>
    match cs with
    | ':' :: c :: rest => if isBlank c then some rest else none
    | _ => none

def named? (cs : List Char) : Option (List Char × List Char) :=
  match cs.takeWhile isNameChar with
  | [] => none
  | name => (afterSign? (cs.dropWhile isNameChar)).map fun rest => (name, rest)

def exported? : List Char → Option (List Char)
  | 'e' :: 'x' :: 'p' :: 'o' :: 'r' :: 't' :: c :: rest =>
    if isBlank c then some (rest.dropWhile isBlank) else none
  | _ => none

/-- The assignment at the start of a line, as it is written: its name, its value, and the text
behind it. Blanks may precede it, also over several lines. -/
def assignment? (cs : List Char) : Option (List Char × List Char × List Char) :=
  let cs := cs.dropWhile isBlank
  -- `export` may also be the name itself.
  let found := ((exported? cs).bind named?).or (named? cs)
  found.map fun (name, rest) =>
    match rawValue rest with
    | (value, left) => (name, value, left)

/-- The last place where a quote stands before a line end: the text before it and behind it. -/
def lastQuote? (quote : Char) : List Char → Option (List Char × List Char)
  | [] => none
  | c :: rest =>
    match lastQuote? quote rest with
    | some (before, behind) => some (c :: before, behind)
    | none =>
      let atLineEnd := match rest with
        | [] => true
        | d :: _ => isLineEnd d || d == '\r'
      if c == quote && atLineEnd then some ([], rest) else none

def restOfLine (cs : List Char) : List Char × List Char :=
  let line := cs.takeWhile fun c => !(isLineEnd c || c == '\r')
  match cs.dropWhile fun c => !(isLineEnd c || c == '\r') with
  | [] => (line, [])
  | c :: rest => (line ++ [c], rest)

/-- Takes the quotes off every stretch that begins with one at the start of a line and ends with the
same one at the end of a line. There is nothing to take off after `fuel` lines. -/
def unquote : Nat → List Char → List Char
  | 0, cs => cs
  | _ + 1, [] => []
  | fuel + 1, c :: rest =>
    let skipLine : Unit → List Char := fun _ =>
      match restOfLine (c :: rest) with
      | (line, later) => line ++ unquote fuel later
    if c == '\'' || c == '"' || c == '\x60' then
      match lastQuote? c rest with
      | some (inner, behind) =>
        match restOfLine behind with
        | (line, later) => inner ++ line ++ unquote fuel later
      | none => skipLine ()
    else skipLine ()

def expand (letter : Char) (meaning : Char) : List Char → List Char
  | [] => []
  | '\\' :: c :: rest =>
    if c == letter then meaning :: expand letter meaning rest
    else '\\' :: expand letter meaning (c :: rest)
  | c :: rest => c :: expand letter meaning rest

/-- The value that a written one stands for: without blanks around it and without quotes, and with
line ends for `\n` and `\r` if it began with a double quote. -/
def value (written : List Char) : List Char :=
  let trimmed := trim written
  let inner := unquote (trimmed.length + 1) trimmed
  if trimmed.head? == some '"' then expand 'r' '\r' (expand 'n' '\n' inner) else inner

/-- The text after the end of the line it begins in. -/
def nextLine? (cs : List Char) : Option (List Char) :=
  match cs.dropWhile fun c => !isLineEnd c with
  | [] => none
  | _ :: rest => some rest

/-- The assignments in a text that begins at the start of a line, in order. `fuel` bounds the number
of lines and assignments. -/
def assignmentsFrom : Nat → List Char → List Assignment
  | 0, _ => []
  | fuel + 1, cs =>
    match assignment? cs with
    | some (name, written, left) =>
      -- The next assignment begins on a line of its own.
      let later := match nextLine? left with
        | none => []
        | some rest => assignmentsFrom fuel rest
      (String.ofList name, String.ofList (value written)) :: later
    | none =>
      match nextLine? cs with
      | none => []
      | some rest => assignmentsFrom fuel rest

def assignments (text : String) : List Assignment :=
  let cs := normalize text.toList
  assignmentsFrom (cs.length + 1) cs

end File

end WordMachine.Environment
