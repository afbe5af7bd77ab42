/-!
# Hexadecimal numbers

Digits in base sixteen: read in either case, written in lower case.
-/

namespace Framecast.Hexadecimal

def digit? (c : Char) : Option Nat :=
  if c.isDigit then some (c.toNat - '0'.toNat)
  else if 'a' ≤ c ∧ c ≤ 'f' then some (c.toNat - 'a'.toNat + 10)
  else if 'A' ≤ c ∧ c ≤ 'F' then some (c.toNat - 'A'.toNat + 10)
  else none

/-- The digit of a value below sixteen. -/
def digit (n : Nat) : Char := if n < 10 then Char.ofNat ('0'.toNat + n) else Char.ofNat ('a'.toNat + n - 10)

/-- The number of one or more digits. -/
def number? (s : List Char) : Option Nat :=
  if s = [] then none
  else s.foldl (fun n c => do return (← n) * 16 + (← digit? c)) (some 0)

/-- A number in as many digits as it needs. -/
def digits (n : Nat) : List Char := Nat.toDigits 16 n

/-- A number in at least `width` digits. -/
def padded (width n : Nat) : List Char := List.replicate (width - (digits n).length) '0' ++ digits n

theorem digit?_digit {n : Nat} (h : n < 16) : digit? (digit n) = some n :=
  (by decide : ∀ m < 16, digit? (digit m) = some m) n h

end Framecast.Hexadecimal
