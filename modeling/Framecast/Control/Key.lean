/-!
# Navigation keys

The keys that a peer can press.
-/

namespace Framecast

/-- A key that moves or zooms the view. -/
inductive NavKey where
  | left
  | right
  | up
  | down
  | zoomIn
  | zoomOut
  deriving DecidableEq

namespace NavKey

def all : List NavKey := [left, right, up, down, zoomIn, zoomOut]

/-- The code of the key on a terminal. -/
def code : NavKey → UInt8
  | left => 0x02
  | right => 0x06
  | up => 0x10
  | down => 0x0e
  | zoomIn => 0x15
  | zoomOut => 0x11

def name : NavKey → String
  | left => "Left"
  | right => "Right"
  | up => "Up"
  | down => "Down"
  | zoomIn => "ZoomIn"
  | zoomOut => "ZoomOut"

/-- The word that presses the key on a control line. -/
def word : NavKey → String
  | left => "left"
  | right => "right"
  | up => "up"
  | down => "down"
  | zoomIn => "zoomin"
  | zoomOut => "zoomout"

/-- The key of a word on a control line. -/
def ofWord? (w : String) : Option NavKey := all.find? fun k => k.word == w

def ofName? (n : String) : Option NavKey := all.find? fun k => k.name == n

theorem ofWord?_word (k : NavKey) : ofWord? k.word = some k := by
  cases k <;> rfl

theorem ofName?_name (k : NavKey) : ofName? k.name = some k := by
  cases k <;> rfl

end NavKey

end Framecast
