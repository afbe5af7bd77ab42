import Framecast.Control.Key
import Framecast.Geometry.Point

/-!
# Events

What the display reports to the program that draws on it.
-/

namespace Framecast

/-- What happened on the display. -/
inductive HostEvent where
  /-- The root surface has this size now. -/
  | resized (width height : Nat)
  | pointerButton (pressed : Bool) (button : Nat) (p : Point)
  | pointerMoved (p : Point)
  | keyPressed (k : NavKey)
  /-- The peer asks the program to end. -/
  | quit
  /-- There is no memory for a root surface of this size, and the program cannot go on. -/
  | resizeFailed (width height : Nat)
  deriving DecidableEq

namespace HostEvent

/-- The button of every press and release. -/
def primaryButton : Nat := 1

end HostEvent

/-- The window that a display pretends to be in. -/
structure Window where
  fullscreen : Bool
  deriving DecidableEq

namespace Window

/-- A window that does not fill the screen. -/
def default : Window := ⟨false⟩

/-- The window after a request to fill the screen or not; every request is granted. -/
def setFullscreen (_w : Window) (fullscreen : Bool) : Bool × Window := (true, ⟨fullscreen⟩)

end Window

end Framecast
