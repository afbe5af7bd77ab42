import Framecast.Json.Value
import Framecast.Number.Hexadecimal

/-!
# Writing JSON

Values are written without blanks, and a string escapes quotes, backslashes and control characters only.
-/

namespace Framecast.Json

/-- A character as it stands in a string. -/
def escape : Char → List Char
  | '"' => ['\\', '"']
  | '\\' => ['\\', '\\']
  | '\x08' => ['\\', 'b']
  | '\x0c' => ['\\', 'f']
  | '\n' => ['\\', 'n']
  | '\r' => ['\\', 'r']
  | '\t' => ['\\', 't']
  | c =>
    if c.toNat < 0x20 then
      ['\\', 'u', '0', '0', Hexadecimal.digit (c.toNat / 16), Hexadecimal.digit (c.toNat % 16)]
    else [c]

def quote (s : List Char) : List Char := '"' :: s.flatMap escape ++ ['"']

/-- An integer in decimal digits. -/
def renderInt (n : Int) : List Char :=
  if n < 0 then '-' :: Nat.toDigits 10 n.natAbs else Nat.toDigits 10 n.natAbs

mutual

/-- The text of a value. A string without known characters is written empty, a number that is not known as zero. -/
def render : Value → List Char
  | .null => "null".toList
  | .boolean b => if b then "true".toList else "false".toList
  | .number (.integer n) => renderInt n
  | .number .real => ['0']
  | .string s => quote (s.getD "").toList
  | .array items => '[' :: renderItems items ++ [']']
  | .object members => '\x7b' :: renderMembers members ++ ['\x7d']

/-- The elements of an array with commas between them. -/
def renderItems : List Value → List Char
  | [] => []
  | [v] => render v
  | v :: rest => render v ++ ',' :: renderItems rest

/-- The members of an object with commas between them. -/
def renderMembers : List (Option String × Value) → List Char
  | [] => []
  | [(name, v)] => quote (name.getD "").toList ++ ':' :: render v
  | (name, v) :: rest => quote (name.getD "").toList ++ ':' :: render v ++ ',' :: renderMembers rest

end

def Value.toText (v : Value) : String := String.ofList (render v)

end Framecast.Json
