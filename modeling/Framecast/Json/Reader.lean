import Framecast.Json.Value
import Framecast.Number.Coordinate

/-!
# Taking JSON values apart

Readers turn a value into data of a given type, or refuse it. A record is an object or an array of its fields in order:
members with other names are passed over, a field given twice and an element too many are refused. A choice is a name,
or an object of one member whose name is the choice.
-/

namespace Framecast.Json

def Value.boolean? : Value → Option Bool
  | .boolean b => some b
  | _ => none

/-- An integer from `low` to `high`. -/
def Value.integerIn? (low high : Int) : Value → Option Int
  | .number (.integer n) => if low ≤ n ∧ n ≤ high then some n else none
  | _ => none

/-- A natural number of so many bits. -/
def Value.natural? (bits : Nat) (v : Value) : Option Nat := (v.integerIn? 0 ((1 <<< bits : Nat) - 1)).map Int.toNat

def Value.coordinate? (v : Value) : Option Int := v.integerIn? Coordinate.least Coordinate.greatest

/-- A string whose characters are known. -/
def Value.string? : Value → Option String
  | .string s => s
  | _ => none

def Value.null? : Value → Option Unit
  | .null => some ()
  | _ => none

/-- The members with their names, if all names are known. -/
def named? : List (Option String × Value) → Option (List (String × Value))
  | [] => some []
  | (name, v) :: rest => do return (← name, v) :: (← named? rest)

/-- What is given for a field: none if it is missing, refused if it is given twice. -/
def field? (members : List (String × Value)) (name : String) : Option (Option Value) :=
  match members.filter fun (other, _) => other == name with
  | [] => some none
  | [(_, v)] => some (some v)
  | _ => none

/-- What is given for each field of a record, in the order of the names. -/
def Value.fields? (names : List String) : Value → Option (List (Option Value))
  | .object members => do
    let members ← named? members
    names.mapM (field? members)
  | .array items =>
    if items.length ≤ names.length then
      some (items.map some ++ List.replicate (names.length - items.length) none)
    else none
  | _ => none

/-- The values of the fields of a record, if none is missing. -/
def Value.allFields? (names : List String) (v : Value) : Option (List Value) := do
  (← v.fields? names).mapM id

/-- The name of a choice and what is given with it. -/
def Value.choice? : Value → Option (String × Option Value)
  | .string (some s) => some (s, none)
  | .object [(some name, v)] => some (name, some v)
  | _ => none

def orElse (default : α) (read : Value → Option α) : Option Value → Option α
  | none => some default
  | some v => read v

end Framecast.Json
