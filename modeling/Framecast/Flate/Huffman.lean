import Framecast.Flate.Bits

/-!
# Canonical prefix codes

A prefix code is given by the length of each symbol's code word; zero means that the symbol does not occur. Words of
one length are consecutive numbers in the order of their symbols, and shorter words come before longer ones. A code is
complete if every sequence of bits starts with a word.
-/

namespace Framecast.Flate

/-- A code: how many words have each length, and the symbols in the order of their words. -/
structure PrefixCode where
  counts : List Nat
  symbols : Array Nat

namespace PrefixCode

/-- The greatest length of a word. -/
def longest : Nat := 15

/-- The symbols whose words have a given length, from the number `symbol` on. -/
def symbolsOf (length : Nat) : (lengths : List Nat) → (symbol : Nat) → List Nat
  | [], _ => []
  | l :: rest, symbol =>
    if l = length then symbol :: symbolsOf length rest (symbol + 1) else symbolsOf length rest (symbol + 1)

/-- The code whose words have the given lengths. -/
def ofLengths (lengths : List Nat) : PrefixCode :=
  let groups := (List.range longest).map fun i => symbolsOf (i + 1) lengths 0
  ⟨groups.map List.length, groups.flatten.toArray⟩

/-- How many words are free when words of each length are taken, from the shortest on; none if there are not enough. -/
def freeAfter : (free : Nat) → (counts : List Nat) → Option Nat
  | free, [] => some free
  | free, count :: rest => if count ≤ 2 * free then freeAfter (2 * free - count) rest else none

/-- Every sequence of bits starts with exactly one word. -/
def complete (c : PrefixCode) : Bool := freeAfter 1 c.counts == some 0

/-- The code has no word, or a single one of one bit. -/
def trivial (c : PrefixCode) : Bool := c.symbols.size == 0 || (c.symbols.size == 1 && c.counts.head? == some 1)

/-- Reads a word bit by bit. `code` is what was read so far, `first` the first word of its length, and `index` the place
of that word's symbol. -/
def readFrom (symbols : Array Nat) : (counts : List Nat) → (code first index : Nat) → Reader Nat
  | [], _, _, _ => failure
  | count :: rest, code, first, index => do
    let code := code + (← Reader.bit)
    if code < first + count then
      match symbols[index + (code - first)]? with
      | some symbol => return symbol
      | none => failure
    else readFrom symbols rest (2 * code) (2 * (first + count)) (index + count)

/-- Reads a word and gives its symbol. -/
def read (c : PrefixCode) : Reader Nat := readFrom c.symbols c.counts 0 0 0

end PrefixCode

end Framecast.Flate
