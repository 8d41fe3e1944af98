import WordMachine.Text.Blank
import WordMachine.Word

/-!
# Program images

A program image is the list of words that memory starts with. In text the words are numerals
separated by commas and blanks in any mixture; the written form puts one comma between two words.
-/

namespace WordMachine

/-- The words that memory starts with. -/
abbrev Image := Array Word

namespace Image

def isSeparator (c : Char) : Bool :=
  c == ',' || Text.isBlank c

def tokens (text : String) : List (List Char) :=
  Text.fields isSeparator text.toList

inductive Misread where
  | empty
  -- The first token that is no word, with its position among the tokens.
  | badWord (token : String) (index : Nat) (why : Word.Misread)
  deriving DecidableEq, Repr

def Misread.message : Misread → String
  | .empty => "Program image is empty"
  | .badWord token index why =>
    "Invalid word \"" ++ token ++ "\" at index " ++ toString index ++ ": " ++ why.message

def readToken (token : List Char) (index : Nat) : Except Misread Word :=
  (Word.read token).mapError (.badWord (String.ofList token) index)

/-- The words of a program text. The first token that is no word is the one complained about. -/
def read (text : String) : Except Misread (List Word) :=
  match tokens text with
  | [] => .error .empty
  | found => found.zipIdx.mapM fun (token, index) => readToken token index

def text (words : List Word) : String :=
  ",".intercalate (words.map Word.text)

/-- The image that holds the given integers, each reduced to a word. -/
def ofIntegers (values : List Int) : Image :=
  (values.map Word.ofInt).toArray

end Image

end WordMachine
