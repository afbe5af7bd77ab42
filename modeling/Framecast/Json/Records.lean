import Framecast.Color.Rgba
import Framecast.Control.Event
import Framecast.Json.Reader
import Framecast.Text.Style

/-!
# Records in JSON

Points, colors, keys, font styles and events as JSON values. Points and colors are records whose fields are all
required. A key is the choice of its name; an event is a choice whose fields, if it has any, are given with it.
-/

namespace Framecast

open Json

namespace Point

def toJson (p : Point) : Value := .record [("x", .integer p.x), ("y", .integer p.y)]

def ofJson? (v : Value) : Option Point := do
  match ← v.allFields? ["x", "y"] with
  | [x, y] => return ⟨← x.coordinate?, ← y.coordinate?⟩
  | _ => none

end Point

def channelNames : List String := ["r", "g", "b", "a"]

namespace Rgba

def toJson (c : Rgba) : Value := .record (channelNames.zip (c.toBytes.map fun b => .integer b.toNat))

def ofJson? (v : Value) : Option Rgba := do
  match ← (← v.allFields? channelNames).mapM (Value.natural? 8) with
  | [r, g, b, a] => return ⟨r.toUInt8, g.toUInt8, b.toUInt8, a.toUInt8⟩
  | _ => none

end Rgba

namespace DeepColor

def toJson (c : DeepColor) : Value :=
  .record (channelNames.zip ([c.r, c.g, c.b, c.a].map fun n => .integer n.toNat))

def ofJson? (v : Value) : Option DeepColor := do
  match ← (← v.allFields? channelNames).mapM (Value.natural? 16) with
  | [r, g, b, a] => return ⟨r.toUInt16, g.toUInt16, b.toUInt16, a.toUInt16⟩
  | _ => none

end DeepColor

namespace NavKey

def toJson (k : NavKey) : Value := .text k.name

def ofJson? (v : Value) : Option NavKey := do
  let (name, given) ← v.choice?
  (given.getD .null).null?
  ofName? name

end NavKey

namespace FontStyle

def toJson (s : FontStyle) : Value := .text s.toText

def ofJson? (v : Value) : Option FontStyle := do ofText? (← v.string?)

end FontStyle

namespace HostEvent

def toJson : HostEvent → Value
  | resized width height =>
    .record [("Resized", .record [("width", .integer width), ("height", .integer height)])]
  | pointerButton pressed button p =>
    .record [("PointerButton",
      .record [("pressed", .boolean pressed), ("button", .integer button), ("point", p.toJson)])]
  | pointerMoved p => .record [("PointerMoved", p.toJson)]
  | keyPressed k => .record [("KeyPressed", k.toJson)]
  | quit => .text "Quit"
  | resizeFailed width height =>
    .record [("ResizeFailed", .record [("width", .integer width), ("height", .integer height)])]

def sizeOfJson? (v : Value) : Option (Nat × Nat) := do
  match ← v.allFields? ["width", "height"] with
  | [width, height] => return (← width.natural? 32, ← height.natural? 32)
  | _ => none

/-- A press or a release. -/
def buttonOfJson? (v : Value) : Option HostEvent := do
  match ← v.allFields? ["pressed", "button", "point"] with
  | [pressed, button, point] =>
    return pointerButton (← pressed.boolean?) (← button.natural? 8) (← Point.ofJson? point)
  | _ => none

def ofJson? (v : Value) : Option HostEvent := do
  match ← v.choice? with
  | ("Quit", none) => some quit
  | ("Quit", some v) => v.null?.map fun _ => quit
  | ("Resized", some v) => (sizeOfJson? v).map fun (width, height) => resized width height
  | ("ResizeFailed", some v) => (sizeOfJson? v).map fun (width, height) => resizeFailed width height
  | ("PointerButton", some v) => buttonOfJson? v
  | ("PointerMoved", some v) => (Point.ofJson? v).map pointerMoved
  | ("KeyPressed", some v) => (NavKey.ofJson? v).map keyPressed
  | _ => none

end HostEvent

end Framecast
