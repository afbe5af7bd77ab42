import Framecast.Canvas.Transfer

/-!
# Screens

A screen is a root canvas with at most 32 overlays, each in a slot of its own. A handle names an overlay by its slot
and the generation of the slot, which changes whenever the slot is freed: a handle to a destroyed overlay stays stale
although its slot is used again. Overlays lie above each other in the order of their slots, and they are copied onto
the root when a root frame that was begun is ended.

Every operation gives its answer together with the screen after it, so that what a refused operation leaves behind can
be seen.
-/

namespace Framecast

/-- The number of overlays that a screen has room for. -/
def slotCount : Nat := 32

/-- The name of an overlay. -/
structure Handle where
  slot : Fin slotCount
  generation : UInt32
  deriving DecidableEq

/-- What can be drawn on. -/
inductive Surface where
  | root
  | overlay (h : Handle)
  deriving DecidableEq

/-- How far the drawing of a frame has got. -/
inductive DrawMode where
  | idle
  | begun
  | ended
  deriving DecidableEq

/-- A canvas above the root, at a position whose negative coordinates count from the far edges. -/
structure Overlay where
  canvas : Canvas
  position : Point
  enabled : Bool

/-- The room for an overlay. -/
structure Slot where
  generation : UInt32
  occupant : Option Overlay

/-- The root canvas and its overlays. -/
structure Screen where
  root : Canvas
  /-- The switch for all overlays. -/
  overlaysEnabled : Bool
  mode : DrawMode
  slots : Vector Slot slotCount

/-- The answer of an operation, and the state after it. -/
abbrev Reply (α σ : Type) := Except SurfaceError α × σ

namespace Slot

/-- A slot that was never used. -/
def fresh : Slot := ⟨0, none⟩

/-- The slot without its overlay. A slot that is freed enters its next generation. -/
def release (s : Slot) : Slot := if s.occupant.isSome then ⟨s.generation + 1, none⟩ else s

end Slot

namespace Screen

/-- A screen without overlays. -/
def ofRoot (root : Canvas) : Screen := ⟨root, true, .idle, Vector.replicate slotCount .fresh⟩

/-! ## Looking things up -/

def slot (s : Screen) (i : Fin slotCount) : Slot := s.slots[i]

/-- The overlay of a handle, unless the handle is stale. -/
def overlay? (s : Screen) (h : Handle) : Option Overlay :=
  let slot := s.slot h.slot
  if slot.generation = h.generation then slot.occupant else none

def overlayCount (s : Screen) : Nat := s.slots.toList.countP fun slot => slot.occupant.isSome

def canvas? (s : Screen) : Surface → Option Canvas
  | .root => some s.root
  | .overlay h => (s.overlay? h).map Overlay.canvas

/-- What is drawn on the surface can show. -/
def visible (s : Screen) : Surface → Bool
  | .root => true
  | .overlay h => s.overlaysEnabled && (s.overlay? h).any Overlay.enabled

/-- A position on the root, with negative coordinates counted from the far edges. -/
def resolve (root : Canvas) (p : Point) : Point where
  x := if p.x < 0 then p.x + Coordinate.wrap root.width else p.x
  y := if p.y < 0 then p.y + Coordinate.wrap root.height else p.y

/-- The top-left corner of an overlay on the root. -/
def cornerOf (s : Screen) (h : Handle) : Except SurfaceError Point :=
  match s.overlay? h with
  | none => .error .noSuchSurface
  | some o => .ok (resolve s.root o.position)

/-! ## Changing overlays -/

def setOccupant (s : Screen) (i : Fin slotCount) (o : Overlay) : Screen :=
  { s with slots := s.slots.set i { s.slot i with occupant := some o } }

def modify (s : Screen) (h : Handle) (f : Overlay → Overlay) : Reply Unit Screen :=
  match s.overlay? h with
  | none => (.error .noSuchSurface, s)
  | some o => (.ok (), s.setOccupant h.slot (f o))

def draw (s : Screen) (surface : Surface) (f : Canvas → Canvas) : Reply Unit Screen :=
  match surface with
  | .root => (.ok (), { s with root := f s.root })
  | .overlay h => s.modify h fun o => { o with canvas := f o.canvas }

/-- The lowest slot without an overlay. -/
def freeSlot? (s : Screen) : Option (Fin slotCount) :=
  (List.finRange slotCount).find? fun i => (s.slot i).occupant.isNone

/-- Puts a transparent overlay into the lowest free slot and gives its handle, or none if no slot is free. -/
def create (s : Screen) (allocator : Allocator) (parent : Surface) (position : Point) (width height : Nat) :
    Reply (Option Handle) Screen :=
  match parent with
  | .overlay h => (.error (if (s.overlay? h).isSome then .parentNotRoot else .noSuchSurface), s)
  | .root =>
    match s.freeSlot? with
    | none => (.ok none, s)
    | some i =>
      match Canvas.create allocator width height s.root.format s.root.antialias with
      | .error e => (.error e, s)
      | .ok canvas => (.ok (some ⟨i, (s.slot i).generation⟩), s.setOccupant i ⟨canvas, position, true⟩)

def destroy (s : Screen) (h : Handle) : Reply Unit Screen :=
  match s.overlay? h with
  | none => (.error .noSuchSurface, s)
  | some _ => (.ok (), { s with slots := s.slots.set h.slot (s.slot h.slot).release })

/-- Destroys every overlay and gives their number. -/
def destroyAll (s : Screen) : Nat × Screen := (s.overlayCount, { s with slots := s.slots.map Slot.release })

/-- Sets the switch of an overlay, or on the root the switch for all overlays. -/
def setEnabled (s : Screen) (surface : Surface) (enabled : Bool) : Reply Unit Screen :=
  match surface with
  | .root => (.ok (), { s with overlaysEnabled := enabled })
  | .overlay h => s.modify h fun o => { o with enabled }

/-- Moves an overlay. -/
def setPosition (s : Screen) (h : Handle) (position : Point) : Reply Unit Screen :=
  s.modify h fun o => { o with position }

/-! ## Frames -/

/-- The overlays in the order in which they lie above each other, the lowest first. -/
def overlays (s : Screen) : List Overlay := s.slots.toList.filterMap Slot.occupant

/-- Copies every enabled overlay onto the root, the lowest first. -/
def composite (s : Screen) : Screen :=
  { s with
    root := (s.overlays.filter Overlay.enabled).foldl
      (fun root o => root.copyFrom o.canvas (resolve s.root o.position)) s.root }

/-- Sets how far a frame has got, and says whether a root frame is ready to be shown. Ending a root frame that was begun
copies the overlays onto the root, unless they are switched off. On an overlay nothing happens. -/
def setMode (s : Screen) (surface : Surface) (mode : DrawMode) : Reply Bool Screen :=
  match surface with
  | .overlay h => (if (s.overlay? h).isSome then .ok false else .error .noSuchSurface, s)
  | .root =>
    let s := if mode = .ended ∧ s.mode = .begun ∧ s.overlaysEnabled then s.composite else s
    (.ok (mode = .ended), { s with mode })

/-- Gives the root a zeroed buffer of another size. Overlays stay as they are. -/
def resizeRoot (s : Screen) (allocator : Allocator) (width height : Nat) : Reply Unit Screen :=
  match s.root.resize allocator width height with
  | .error e => (.error e, s)
  | .ok root => (.ok (), { s with root })

end Screen

end Framecast
