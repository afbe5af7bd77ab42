import Framecast.Number.Hexadecimal
import Framecast.Text.Blank

/-!
# Font styles

A font style is a set of bits, of which one has a name. As a text it is the names and the other bits in hexadecimal
digits, with bars between them.
-/

namespace Framecast

/-- The style asked for when a font is loaded, as a set of bits. -/
structure FontStyle where
  bits : UInt8
  deriving DecidableEq

namespace FontStyle

def plain : FontStyle := ⟨0⟩

def bold : FontStyle := ⟨1⟩

/-- The bits that have a name. -/
def known (s : FontStyle) : FontStyle := ⟨s.bits &&& bold.bits⟩

/-- The union of two styles. -/
def union (s t : FontStyle) : FontStyle := ⟨s.bits ||| t.bits⟩

/-! ## Writing -/

def hexText (n : Nat) : String := "0x" ++ String.ofList (Hexadecimal.digits n)

def toText (s : FontStyle) : String :=
  let rest := s.bits &&& ~~~bold.bits
  let named := if s.bits &&& bold.bits = 0 then [] else ["BOLD"]
  let others := if rest = 0 then [] else [hexText rest.toNat]
  " | ".intercalate (named ++ others)

/-! ## Reading -/

/-- The bits of hexadecimal digits with an optional plus, if there are no more than eight. -/
def hexBits? (s : List Char) : Option FontStyle := do
  let n ← Hexadecimal.number? (match s with | '+' :: rest => rest | _ => s)
  if n < 256 then some ⟨n.toUInt8⟩ else none

/-- One name, or bits in hexadecimal digits after `0x`. -/
def part? : List Char → Option FontStyle
  | '0' :: 'x' :: digits => hexBits? digits
  | name => if String.ofList name = "BOLD" then some bold else none

/-- The parts of a text between bars. -/
def splitBars : List Char → List (List Char)
  | [] => [[]]
  | c :: rest =>
    if c = '|' then [] :: splitBars rest
    else
      match splitBars rest with
      | [] => [[c]]
      | first :: more => (c :: first) :: more

/-- The style of a text. A blank text is the plain style. -/
def ofText? (text : String) : Option FontStyle :=
  let s := text.toList
  if Text.trim s = [] then some plain
  else (splitBars s).foldlM (fun style part => (part? (Text.trim part)).map style.union) plain

end FontStyle

end Framecast
