/-!
# JSON values

The values that a JSON text stands for. A member of an object may be named twice, and a string may hold an escape for
half of a surrogate pair, which no character matches; such values are well formed and only refused by a reader that
asks for them.
-/

namespace Framecast.Json

/-- A number is known exactly if it is written without a fraction and an exponent, and is not minus zero. -/
inductive Number where
  | integer (n : Int)
  | real
  deriving DecidableEq

/-- A value. A string is its characters, if every escape in it stands for one. -/
inductive Value where
  | null
  | boolean (b : Bool)
  | number (n : Number)
  | string (s : Option String)
  | array (items : List Value)
  | object (members : List (Option String × Value))

namespace Value

/-- A string value of known characters. -/
def text (s : String) : Value := string (some s)

def integer (n : Int) : Value := number (.integer n)

/-- An object of members with known names. -/
def record (members : List (String × Value)) : Value := object (members.map fun (name, v) => (some name, v))

end Value

end Framecast.Json
