/-!
# Surface errors

The ways in which an operation on a drawing surface is refused, and the text shown for each.
-/

namespace Framecast

/-- Why an operation on a surface was refused. -/
inductive SurfaceError where
  | allocationFailed (width height : Nat)
  | unsupportedDepth (bitsPerPixel : Nat)
  | noSuchSurface
  | parentNotRoot
  deriving DecidableEq

namespace SurfaceError

/-- The text shown for the error. -/
def message : SurfaceError → String
  | allocationFailed width height => s!"Failed to allocate a {width}x{height} pixel buffer"
  | unsupportedDepth bitsPerPixel => s!"Unsupported pixel depth: {bitsPerPixel} bits per pixel"
  | noSuchSurface => "Surface handle does not refer to a live surface"
  | parentNotRoot => "Overlays can only be created on the root surface"

end SurfaceError

end Framecast
