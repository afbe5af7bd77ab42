import Framecast.Config
import Framecast.Control.Command
import Framecast.Control.Event
import Framecast.Frame.Courier
import Framecast.Png.Decoder
import Framecast.Screen.Basic
import Framecast.Shape.Pen
import Framecast.Text.Painter

/-!
# Displays

A display is what a program draws on: a screen, the allocator of its canvases, the scratch buffer for its text, the
decoder of its images, the courier that carries its frames away and the state of its input. Drawing on a hidden overlay
is accepted and does nothing. Ending a root frame waits for the last frame, copies the overlays onto the root and hands a
copy of the root to the courier.
-/

namespace Framecast

structure Display where
  screen : Screen
  allocator : Allocator
  scratch : Scratch
  images : ImageDecoder
  courier : Courier
  /-- The size of the root was not reported yet. -/
  sizeUnreported : Bool
  /-- Control lines are read. -/
  listening : Bool
  window : Window

inductive DisplayError where
  | format (e : SurfaceError)
  | rootCanvas (e : SurfaceError)
  deriving DecidableEq

namespace DisplayError

/-- The texts shown for the error, from the outermost cause to the innermost. -/
def causes : DisplayError → List String
  | format e => [e.message]
  | rootCanvas e => ["failed to create root canvas", e.message]

end DisplayError

namespace Display

/-- A display with the given settings, its root zeroed. It decodes images as PNG until it is given another decoder. -/
def start (allocator : Allocator) (settings : DisplaySettings) : Except DisplayError Display := do
  let format ← settings.format.mapError .format
  let root ← (Canvas.create allocator settings.width settings.height format settings.antialias).mapError .rootCanvas
  return { screen := .ofRoot root, allocator, scratch := .empty, images := Png.decoder, courier := .start,
           sizeUnreported := true, listening := true, window := .default }

/-- The number of frames handed to the courier. -/
def framesPublished (d : Display) : Nat := d.courier.mailbox.published

/-- Does something to the screen. -/
def onScreen (d : Display) (f : Screen → Reply α Screen) : Reply α Display :=
  let (answer, screen) := f d.screen
  (answer, { d with screen })

/-! ## Overlays -/

/-- Creates an overlay, if a slot is free. -/
def createOverlay (d : Display) (parent : Surface) (position : Point) (width height : Nat) :
    Reply (Option Handle) Display :=
  d.onScreen fun s => s.create d.allocator parent position width height

def destroyOverlay (d : Display) (h : Handle) : Reply Unit Display := d.onScreen fun s => s.destroy h

/-- Sets the switch of an overlay, or on the root the switch for all overlays. -/
def setOverlayEnabled (d : Display) (surface : Surface) (enabled : Bool) : Reply Unit Display :=
  d.onScreen fun s => s.setEnabled surface enabled

/-- Moves an overlay; the root stays where it is. -/
def drag (d : Display) (surface : Surface) (position : Point) : Reply Unit Display :=
  match surface with
  | .root => (.ok (), d)
  | .overlay h => d.onScreen fun s => s.setPosition h position

/-! ## Frames -/

/-- Waits until no frame is under way. -/
def awaitConsumed (d : Display) : Display := { d with courier := d.courier.settle }

/-- Hands a copy of the root to the courier. -/
def publish (d : Display) : Display := { d with courier := (d.courier.publish d.screen.root).2 }

/-- Sets how far a frame has got, when no frame is under way, and publishes the root if its frame is ready. -/
def advanceMode (d : Display) (surface : Surface) (mode : DrawMode) : Reply Unit Display :=
  match d.onScreen fun s => s.setMode surface mode with
  | (.error e, d) => (.error e, d)
  | (.ok false, d) => (.ok (), d)
  | (.ok true, d) => (.ok (), d.publish)

/-- Sets how far a frame has got. On the root this waits for the last frame first. -/
def setMode (d : Display) (surface : Surface) (mode : DrawMode) : Reply Unit Display :=
  match surface with
  | .root => d.awaitConsumed.advanceMode surface mode
  | .overlay _ => d.advanceMode surface mode

/-- Switches a surface off or on and ends a root frame at once. -/
def disableOverlay (d : Display) (surface : Surface) (disable : Bool) : Reply Unit Display :=
  match d.setOverlayEnabled surface (!disable) with
  | (.error e, d) => (.error e, d)
  | (.ok (), d) => d.setMode .root .ended

/-! ## Drawing -/

/-- Draws on a surface if what is drawn there can show. -/
def draw (d : Display) (surface : Surface) (f : Canvas → Canvas) : Reply Unit Display :=
  if d.screen.visible surface then d.onScreen fun s => s.draw surface f
  else ((if (d.screen.canvas? surface).isSome then .ok () else .error .noSuchSurface), d)

/-- The radius that a disc is drawn with: on overlays one half, without the fraction. -/
def discRadius (surface : Surface) (radius : Int) : Int :=
  match surface with
  | .root => radius
  | .overlay _ => radius.tdiv 2

/-- Fills a rectangle that is at most as large as the canvas. -/
def drawRectangle (d : Display) (surface : Surface) (pen : Pen) (corner : Point) (width height : Nat) :
    Reply Unit Display :=
  d.draw surface fun c => pen.rectangle c corner (min width c.width) (min height c.height)

def drawDisc (d : Display) (surface : Surface) (pen : Pen) (center : Point) (radius : Int) : Reply Unit Display :=
  d.draw surface fun c => pen.disc c center (discRadius surface radius)

def drawPolygon (d : Display) (surface : Surface) (pen : Pen) (points : List Point) : Reply Unit Display :=
  d.draw surface fun c => pen.polygon c points

/-- Draws a polyline at the width of the pen. -/
def drawLines (d : Display) (surface : Surface) (pen : Pen) (points : List Point) : Reply Unit Display :=
  d.draw surface fun c => pen.polyline (discRadius surface) c points

def drawImage (d : Display) (surface : Surface) (corner : Point) (image : Image) : Reply Unit Display :=
  d.draw surface fun c => c.pasteOver image.toBitmap corner

/-- Draws a text with its origin at a point, on a background if a second pen is given. -/
def drawText (d : Display) (t : Typesetter Font Code) (surface : Surface) (pen : Pen) (background : Option Pen)
    (font : Font) (text : String) (origin : Point) (directionX directionY : Int) : Reply Unit Display :=
  match d.screen.canvas? surface with
  | none => (.error .noSuchSurface, d)
  | some canvas =>
    if d.screen.visible surface then
      let run := t.shape font text directionX directionY
      let (canvas, scratch) :=
        t.paintRun run pen.foreground (background.map Pen.foreground) origin canvas d.scratch
      let (answer, d) := d.onScreen fun s => s.draw surface fun _ => canvas
      (answer, { d with scratch })
    else (.ok (), d)

/-! ## Images -/

def setImageDecoder (d : Display) (images : ImageDecoder) : Display := { d with images }

def loadImage (d : Display) (path : String) (contents : Option ByteArray) : Except ImageError Image :=
  d.images.load path contents

/-! ## Input -/

/-- What a command does to the screen, and the event that reports it. -/
def apply (d : Display) : ControlCommand → HostEvent × Display
  | .resize width height =>
    match d.screen.resizeRoot d.allocator width height with
    | (.ok (), screen) => (.resized width height, { d with screen })
    | (.error _, screen) => (.resizeFailed width height, { d with screen })
  | .quit => (.quit, d)
  | .press p => (.pointerButton true HostEvent.primaryButton p, d)
  | .release p => (.pointerButton false HostEvent.primaryButton p, d)
  | .move p => (.pointerMoved p, d)
  | .key k => (.keyPressed k, d)

/-- Applies the commands of control lines up to the first that asks to quit; other lines are passed over. -/
def applyLines (d : Display) : List String → List HostEvent × Display
  | [] => ([], d)
  | line :: rest =>
    match ControlCommand.parse line with
    | none => d.applyLines rest
    | some command =>
      match d.apply command with
      | (.quit, d) => ([.quit], d)
      | (event, d) =>
        let (events, d) := d.applyLines rest
        (event :: events, d)

/-- The report of the size of the root, which is due once. -/
def reportSize (d : Display) : List HostEvent × Display :=
  if d.sizeUnreported then
    ([.resized d.screen.root.width d.screen.root.height], { d with sizeUnreported := false })
  else ([], d)

/-- What happened since the last call, given the control lines that came in. -/
def pollInput (d : Display) (lines : List String) : List HostEvent × Display :=
  let (first, d) := d.reportSize
  if d.listening then
    let (events, d) := d.applyLines lines
    (first ++ events, d)
  else (first, d)

/-! ## The end -/

/-- Destroys the overlays, stops the courier and reads no more control lines. Doing it again changes nothing. -/
def teardown (d : Display) : Display :=
  if d.listening then
    { d with screen := d.screen.destroyAll.2, courier := d.courier.shutdown, listening := false }
  else d

end Display

end Framecast
