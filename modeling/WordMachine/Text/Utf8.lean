/-!
# Bytes as text

Text files are UTF-8. Bytes that are no part of a well-formed sequence are replaced rather than
refused: each longest beginning of a sequence that cannot go on counts as one replacement character,
and so does each byte that begins none.
-/

namespace WordMachine.Text

/-- Stands for bytes that are no text. -/
def replacement : Char := '\uFFFD'

/-- Where a decoder stands between two bytes. -/
inductive Utf8State where
  | ready
  -- Inside a character: how many bytes are missing after the next one, the bits so far, and the
  -- range that the next byte must lie in.
  | inside (missing : Nat) (bits : Nat) (least most : Nat)
  deriving DecidableEq, Repr

namespace Utf8State

/-- The state after the first byte of a character. Nothing begins with a byte that would only spell
a character longer than needed, a surrogate, or a number that is no character. -/
def begin (b : Nat) : List Char × Utf8State :=
  if b < 0x80 then ([Char.ofNat b], ready)
  else if b < 0xC2 then ([replacement], ready)
  else if b < 0xE0 then ([], inside 0 (b - 0xC0) 0x80 0xBF)
  else if b = 0xE0 then ([], inside 1 0 0xA0 0xBF)
  else if b = 0xED then ([], inside 1 0xD 0x80 0x9F)
  else if b < 0xF0 then ([], inside 1 (b - 0xE0) 0x80 0xBF)
  else if b = 0xF0 then ([], inside 2 0 0x90 0xBF)
  else if b < 0xF4 then ([], inside 2 (b - 0xF0) 0x80 0xBF)
  else if b = 0xF4 then ([], inside 2 4 0x80 0x8F)
  else ([replacement], ready)

/-- The characters that a byte completes, and the state after it. -/
def step : Utf8State → Nat → List Char × Utf8State
  | ready, b => begin b
  | inside missing bits least most, b =>
    if least ≤ b ∧ b ≤ most then
      let bits := bits * 64 + (b - 0x80)
      match missing with
      | 0 => ([Char.ofNat bits], ready)
      | missing + 1 => ([], inside missing bits 0x80 0xBF)
    else
      -- The character breaks off here, and the byte may begin another one.
      match begin b with
      | (cs, state) => (replacement :: cs, state)

/-- The characters that the end of the text completes. -/
def finish : Utf8State → List Char
  | ready => []
  | inside .. => [replacement]

end Utf8State

/-- Decodes bytes behind the characters on `done`, which stand there backwards. -/
def decodeFrom (done : List Char) (state : Utf8State) : List UInt8 → List Char
  | [] => done.reverse ++ state.finish
  | b :: rest =>
    match state.step b.toNat with
    | (cs, state) => decodeFrom (cs.reverse ++ done) state rest

def ofBytes (bytes : List UInt8) : String :=
  String.ofList (decodeFrom [] .ready bytes)

end WordMachine.Text
