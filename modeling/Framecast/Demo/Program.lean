import Framecast.Demo.Scene
import Framecast.Pipe.CommandPipe

/-!
# The demonstration program

The program draws its scene and obeys control lines until it is told to end. Each turn of its loop takes the lines that
came in, updates the scene by the events they caused and draws a frame if anything changed. The first frame is drawn
before any line comes in.
-/

namespace Framecast.Demo

/-- A failure with its causes, the outermost first. -/
structure Failure where
  summary : String
  causes : List String
  deriving DecidableEq

namespace Failure

/-- A number in at least five places, for a list of causes. -/
def numbered (n : Nat) (cause : String) : String :=
  let digits := toString n
  String.ofList (List.replicate (5 - digits.length) ' ') ++ digits ++ ": " ++ cause

/-- The causes as lines; they are numbered if there is more than one. -/
def causeLines (f : Failure) : List String :=
  match f.causes with
  | [cause] => ["    " ++ cause]
  | causes => causes.mapIdx numbered

def report (f : Failure) : String :=
  let tail := if f.causes = [] then "" else "\n\nCaused by:\n" ++ "\n".intercalate f.causeLines
  "Error: " ++ f.summary ++ tail ++ "\n"

end Failure

/-- The display, the scene and the font of a running program. -/
structure Program where
  display : Display
  scene : Scene
  font : BoxFont

namespace Program

def loadFont : Except Failure BoxFont :=
  (BoxFont.typesetter.load "sans" 12 .plain).mapError fun e => ⟨"Failed to load font", [e.message]⟩

/-- The overlay of the compass, if a slot is free. -/
def makeCompass (d : Display) : Except Failure (Option Handle × Display) :=
  match d.createOverlay .root ⟨-50, 10⟩ 40 40 with
  | (.error e, _) => .error ⟨"Failed to create compass overlay", [e.message]⟩
  | (.ok compass, d) => .ok (compass, d)

/-- The program at the start of its loop. -/
def start (allocator : Allocator) (settings : DisplaySettings) : Except Failure Program := do
  let display ← (Display.start allocator settings).mapError fun e => ⟨"Failed to initialize backend", e.causes⟩
  let font ← loadFont
  let (compass, display) ← makeCompass display
  let root := display.screen.root
  return ⟨display, ⟨root.width, root.height, ⟨0, 0⟩, 0, compass, true⟩, font⟩

/-- The scene after events, up to the first that ends the program. -/
def updateAll : List HostEvent → Scene → Option Scene
  | [], s => some s
  | event :: rest, s => s.update event >>= updateAll rest

/-- Draws a frame if the scene changed. -/
def renderChanges (p : Program) : Except Failure Program :=
  if p.scene.changed then
    match p.scene.render p.font p.display with
    | (.error e, _) => .error ⟨e.message, []⟩
    | (.ok (), display) => .ok { p with display, scene := { p.scene with changed := false } }
  else .ok p

/-- One turn of the loop with the lines that came in. Says whether the program goes on. -/
def turn (p : Program) (lines : List String) : Except Failure (Bool × Program) :=
  let (events, display) := p.display.pollInput lines
  match updateAll events p.scene with
  | none => .ok (false, { p with display := display.teardown })
  | some scene => do return (true, ← renderChanges { p with display, scene })

/-- The program after its peer has taken the last frame. -/
def awaitFrame (p : Program) : Program := { p with display := p.display.awaitConsumed }

/-- Turns of the loop, one for each list of lines, until the program ends. The peer takes each frame before it sends
more lines. -/
def run : List (List String) → Program → Except Failure Program
  | [], p => .ok p
  | lines :: rest, p => do
    let (goesOn, p) ← p.turn lines
    if goesOn then run rest p.awaitFrame else return p

/-- The lines that batches of bytes bring, when each is there at once and the peer leaves after the last one. -/
def batchLines : LineReader → List (List UInt8) → List (List String)
  | _, [] => []
  | r, [last] => [(r.poll (CommandPipe.outcomes last true)).1]
  | r, batch :: rest =>
    let (lines, r) := r.poll (CommandPipe.outcomes batch false)
    lines :: batchLines r rest

/-- The program run on batches of bytes. Before the first of them there is one turn without lines. -/
def runBatches (batches : List (List UInt8)) (p : Program) : Except Failure Program :=
  run ([] :: batchLines .start batches) p

/-- The frames that were sent. -/
def frames (p : Program) : List Frame := p.display.courier.delivered

end Program

end Framecast.Demo
