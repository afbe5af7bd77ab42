import Framecast.Number.Coordinate

/-!
# Decimal numbers

Numbers written in ASCII digits. A literal of a fixed width may start with one sign; a plus is always accepted and a
minus only where the type has negative numbers. A literal without a digit and one out of range are refused.
-/

namespace Framecast.Decimal

def digitValue (c : Char) : Nat := c.toNat - '0'.toNat

/-- The number that digits stand for, the first digit counting most. -/
def ofDigits (digits : List Char) : Nat := digits.foldl (fun n c => n * 10 + digitValue c) 0

/-- Reads one or more digits. -/
def natural? (s : List Char) : Option Nat :=
  if s ≠ [] ∧ s.all Char.isDigit then some (ofDigits s) else none

/-- Reads digits with an optional plus. -/
def unsigned? : List Char → Option Nat
  | '+' :: digits => natural? digits
  | digits => natural? digits

/-- Reads digits with an optional sign. -/
def signed? : List Char → Option Int
  | '-' :: digits => (natural? digits).map fun n => -(n : Int)
  | digits => (unsigned? digits).map Int.ofNat

/-- Reads a literal of 32 unsigned bits. -/
def unsigned32? (s : List Char) : Option Nat := (unsigned? s).filter (· < 4294967296)

def coordinate? (s : List Char) : Option Int :=
  (signed? s).filter fun n => Coordinate.least ≤ n && n ≤ Coordinate.greatest

end Framecast.Decimal
