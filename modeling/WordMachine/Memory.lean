import Std.Data.TreeMap
import WordMachine.Image

/-!
# Word memory

Memory maps every natural number to a word; all cells start at zero except those of the image. The
cells from address zero on lie in one contiguous buffer that grows on demand up to `denseLimit`
words. A cell at or above the limit and outside the buffer is kept on its own, so that a far access
costs no more than the cell it touches.

`peek` is the view: what a cell holds, without any growth. Reading and writing may lengthen the
buffer, and `length` shows by how much.
-/

namespace WordMachine

structure Memory where
  -- The words from address zero on.
  dense : Array Word := #[]
  -- Written words outside the buffer, by address.
  sparse : Std.TreeMap Nat Word := ∅

namespace Memory

/-- The buffer never grows beyond this many words, `2 ^ 20`. -/
def denseLimit : Nat := 1048576

/-- The highest address an instruction can name, `2 ^ 32 - 1`. -/
def maxAddress : Nat := 4294967295

/-- Memory that holds an image and zeros after it. -/
def load (image : Image) : Memory :=
  { dense := image }

def length (m : Memory) : Nat :=
  m.dense.size

def peek (m : Memory) (address : Nat) : Word :=
  if h : address < m.dense.size then m.dense[address] else m.sparse.getD address 0

/-- The buffer length that makes room for an address: twice as far as needed or twice the present
length, whichever is more, within the limit. -/
def grownLength (length address : Nat) : Nat :=
  min (max (2 * address + 1) (2 * length)) denseLimit

/-- Lengthens the buffer so that it covers an address below the limit. Other addresses need no
room. -/
def reach (m : Memory) (address : Nat) : Memory :=
  if address < m.dense.size ∨ denseLimit ≤ address then m
  else
    -- `grownLength` exceeds the address here, because the address is below the limit.
    let room := grownLength m.dense.size address - m.dense.size
    { m with dense := m.dense ++ Array.replicate room 0 }

/-- Reads a cell, after making room for it. -/
def read (m : Memory) (address : Nat) : Word × Memory :=
  let m := m.reach address
  (m.peek address, m)

/-- Stores a word in a cell, after making room for it. -/
def write (m : Memory) (address : Nat) (word : Word) : Memory :=
  match m.reach address with
  -- The buffer is taken out of the memory, so that it is changed in place.
  | ⟨dense, sparse⟩ =>
    if h : address < dense.size then ⟨dense.set address word, sparse⟩
    else ⟨dense, sparse.insert address word⟩

def snapshot (m : Memory) : Array Word :=
  m.dense

end Memory

end WordMachine
