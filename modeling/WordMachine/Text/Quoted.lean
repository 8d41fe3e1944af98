/-!
# Quoted texts

A quoted text stands between double quotes. A quote and a backslash in it have a backslash before
them, and control characters are written by a letter or by their number, so that a quoted text has
no line end in it.
-/

namespace WordMachine.Text

def hexDigit (n : Nat) : Char :=
  Nat.digitChar (n % 16)

def quotedChar : Char → List Char
  | '"' => ['\\', '"']
  | '\\' => ['\\', '\\']
  | '\n' => ['\\', 'n']
  | '\r' => ['\\', 'r']
  | '\t' => ['\\', 't']
  | '\x08' => ['\\', 'b']
  | '\x0C' => ['\\', 'f']
  | c =>
    if c.toNat < 0x20 then ['\\', 'u', '0', '0', hexDigit (c.toNat / 16), hexDigit c.toNat]
    else [c]

def quoted (text : String) : String :=
  String.ofList ('"' :: text.toList.flatMap quotedChar ++ ['"'])

end WordMachine.Text
