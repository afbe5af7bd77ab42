import Framecast.Json.Value
import Framecast.Number.Decimal
import Framecast.Number.Hexadecimal

/-!
# Reading JSON

A strict reader of JSON texts: no comments, no trailing commas, nothing after the value but blanks. Each function takes
the characters that are left and gives a part of the value and the characters after it. The functions for nested
values count down a bound; `parse` starts it at more than the length of the text can use up.
-/

namespace Framecast.Json

/-- The characters that may stand between two parts of a value. -/
def isBlank (c : Char) : Bool := c == ' ' || c == '\n' || c == '\r' || c == '\t'

/-- The characters after the leading blanks. -/
def skipBlanks (s : List Char) : List Char := s.dropWhile isBlank

/-! ## Strings -/

/-- A part of a string: a character, or an escaped unit of sixteen bits. -/
inductive Piece where
  | char (c : Char)
  | unit (n : Nat)
  deriving DecidableEq

/-- The unit that four hexadecimal digits stand for. -/
def hexUnit? (a b c d : Char) : Option Nat := do
  let high := (← Hexadecimal.digit? a) * 16 + (← Hexadecimal.digit? b)
  let low := (← Hexadecimal.digit? c) * 16 + (← Hexadecimal.digit? d)
  return high * 256 + low

/-- The character of an escape of one letter. -/
def escaped? : Char → Option Char
  | '"' => some '"'
  | '\\' => some '\\'
  | '/' => some '/'
  | 'b' => some '\x08'
  | 'f' => some '\x0c'
  | 'n' => some '\n'
  | 'r' => some '\r'
  | 't' => some '\t'
  | _ => none

/-- Reads the rest of a string up to its closing quote. -/
def pieces : List Char → Option (List Piece × List Char)
  | [] => none
  | '"' :: rest => some ([], rest)
  | '\\' :: 'u' :: a :: b :: c :: d :: rest => do
    let n ← hexUnit? a b c d
    let (more, rest) ← pieces rest
    return (.unit n :: more, rest)
  | '\\' :: e :: rest => do
    let c ← escaped? e
    let (more, rest) ← pieces rest
    return (.char c :: more, rest)
  | c :: rest => do
    if c.toNat < 0x20 ∨ c = '\\' then none
    else
      let (more, rest) ← pieces rest
      return (.char c :: more, rest)

/-- The unit is the first half of a surrogate pair. -/
def isHighHalf (n : Nat) : Bool := 0xD800 ≤ n && n ≤ 0xDBFF

/-- The unit is the second half of a surrogate pair. -/
def isLowHalf (n : Nat) : Bool := 0xDC00 ≤ n && n ≤ 0xDFFF

/-- The characters of a string, if no half of a surrogate pair stands alone in it. -/
def characters? : List Piece → Option (List Char)
  | [] => some []
  | .char c :: rest => (characters? rest).map (c :: ·)
  | .unit n :: .unit m :: rest =>
    if isHighHalf n && isLowHalf m then
      (characters? rest).map (Char.ofNat (0x10000 + (n - 0xD800) * 0x400 + (m - 0xDC00)) :: ·)
    else if isHighHalf n || isLowHalf n then none
    else (characters? (.unit m :: rest)).map (Char.ofNat n :: ·)
  | .unit n :: rest =>
    if isHighHalf n || isLowHalf n then none else (characters? rest).map (Char.ofNat n :: ·)

/-- Reads a string after its opening quote. -/
def string (s : List Char) : Option (Option String × List Char) := do
  let (found, rest) ← pieces s
  return ((characters? found).map String.ofList, rest)

/-! ## Numbers -/

/-- Reads digits, as many as there are. -/
def digits (s : List Char) : List Char × List Char := (s.takeWhile Char.isDigit, s.dropWhile Char.isDigit)

/-- Reads the whole part of a number: a zero alone, or digits that start with another. -/
def wholePart : List Char → Option (Nat × List Char)
  | '0' :: rest => if (digits rest).1.isEmpty then some (0, rest) else none
  | s =>
    let (ds, rest) := digits s
    if ds.isEmpty then none else some (Decimal.ofDigits ds, rest)

/-- Reads one or more digits. -/
def someDigits (s : List Char) : Option (List Char) :=
  let (ds, rest) := digits s
  if ds.isEmpty then none else some rest

/-- Reads the fraction of a number if there is one, and says whether. -/
def fraction : List Char → Option (Bool × List Char)
  | '.' :: rest => (someDigits rest).map (true, ·)
  | s => some (false, s)

/-- Reads the digits of an exponent with an optional sign. -/
def exponentDigits : List Char → Option (List Char)
  | '+' :: rest => someDigits rest
  | '-' :: rest => someDigits rest
  | s => someDigits s

/-- Reads the exponent of a number if there is one, and says whether. -/
def exponent : List Char → Option (Bool × List Char)
  | 'e' :: rest => (exponentDigits rest).map (true, ·)
  | 'E' :: rest => (exponentDigits rest).map (true, ·)
  | s => some (false, s)

/-- Reads a number without its sign. -/
def unsignedNumber (negative : Bool) (s : List Char) : Option (Number × List Char) := do
  let (whole, rest) ← wholePart s
  let (hasFraction, rest) ← fraction rest
  let (hasExponent, rest) ← exponent rest
  let plain := !hasFraction && !hasExponent && !(negative && whole == 0)
  return (if plain then .integer (if negative then -(whole : Int) else whole) else .real, rest)

def number : List Char → Option (Number × List Char)
  | '-' :: rest => unsignedNumber true rest
  | s => unsignedNumber false s

/-! ## Values -/

mutual

def value : Nat → List Char → Option (Value × List Char)
  | 0, _ => none
  | fuel + 1, s =>
    match skipBlanks s with
    | 'n' :: 'u' :: 'l' :: 'l' :: rest => some (.null, rest)
    | 't' :: 'r' :: 'u' :: 'e' :: rest => some (.boolean true, rest)
    | 'f' :: 'a' :: 'l' :: 's' :: 'e' :: rest => some (.boolean false, rest)
    | '"' :: rest => (string rest).map fun (s, rest) => (.string s, rest)
    | '[' :: rest =>
      match skipBlanks rest with
      | ']' :: rest => some (.array [], rest)
      | _ => (elements fuel rest).map fun (items, rest) => (.array items, rest)
    | '\x7b' :: rest =>
      match skipBlanks rest with
      | '\x7d' :: rest => some (.object [], rest)
      | _ => (members fuel rest).map fun (found, rest) => (.object found, rest)
    | rest => (number rest).map fun (n, rest) => (.number n, rest)

/-- Reads the elements of an array up to its closing bracket. -/
def elements : Nat → List Char → Option (List Value × List Char)
  | 0, _ => none
  | fuel + 1, s => do
    let (v, rest) ← value fuel s
    match skipBlanks rest with
    | ']' :: rest => return ([v], rest)
    | ',' :: rest =>
      let (more, rest) ← elements fuel rest
      return (v :: more, rest)
    | _ => none

/-- Reads the members of an object up to its closing brace. -/
def members : Nat → List Char → Option (List (Option String × Value) × List Char)
  | 0, _ => none
  | fuel + 1, s =>
    match skipBlanks s with
    | '"' :: rest => do
      let (name, rest) ← string rest
      match skipBlanks rest with
      | ':' :: rest =>
        let (v, rest) ← value fuel rest
        match skipBlanks rest with
        | '\x7d' :: rest => return ([(name, v)], rest)
        | ',' :: rest =>
          let (more, rest) ← members fuel rest
          return ((name, v) :: more, rest)
        | _ => none
      | _ => none
    | _ => none

end

def parse (text : String) : Option Value :=
  let s := text.toList
  match value (2 * s.length + 2) s with
  | some (v, rest) => if skipBlanks rest = [] then some v else none
  | none => none

end Framecast.Json
