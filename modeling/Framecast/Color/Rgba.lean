import Framecast.Number.Single

/-!
# Colors

A color has four channels of eight bits and straight alpha. Callers give colors with sixteen bits a channel, which
are truncated. `Rgba.paintedOver` paints one color on top of another and `Rgba.withCoverage` thins a color where a shape
covers only a part of a pixel.
-/

namespace Framecast

/-- A color of eight bits a channel with straight alpha. -/
structure Rgba where
  r : UInt8
  g : UInt8
  b : UInt8
  a : UInt8
  deriving DecidableEq, Inhabited

/-- A color of sixteen bits a channel. -/
structure DeepColor where
  r : UInt16
  g : UInt16
  b : UInt16
  a : UInt16
  deriving DecidableEq

namespace DeepColor

/-- Each channel divided by 256. -/
def toRgba (c : DeepColor) : Rgba :=
  ⟨(c.r / 256).toUInt8, (c.g / 256).toUInt8, (c.b / 256).toUInt8, (c.a / 256).toUInt8⟩

end DeepColor

namespace Rgba

/-- Nothing at all: every channel is zero. -/
def transparent : Rgba := ⟨0, 0, 0, 0⟩

/-- A color of full alpha. -/
def solid (r g b : UInt8) : Rgba := ⟨r, g, b, 255⟩

def black : Rgba := solid 0 0 0

def white : Rgba := solid 255 255 255

/-- The channels are those of white, whatever the alpha. -/
def isWhite (c : Rgba) : Bool := c.r == 255 && c.g == 255 && c.b == 255

/-- The channels are those of black, whatever the alpha. -/
def isBlack (c : Rgba) : Bool := c.r == 0 && c.g == 0 && c.b == 0

/-- The channels in the order red, green, blue, alpha. -/
def toBytes (c : Rgba) : List UInt8 := [c.r, c.g, c.b, c.a]

/-- One channel of a mixture: the two shares are truncated one by one. -/
def mix (alpha : Nat) (above below : UInt8) : UInt8 :=
  (below.toNat * (255 - alpha) / 255 + above.toNat * alpha / 255).toUInt8

/-- The color `above` painted on top of `below`. -/
def paintedOver (above below : Rgba) : Rgba :=
  let alpha := above.a.toNat
  { r := mix alpha above.r below.r
    g := mix alpha above.g below.g
    b := mix alpha above.b below.b
    a := (min (alpha + below.a.toNat * (255 - alpha) / 255) 255).toUInt8 }

end Rgba

/-- How much of a pixel a shape covers, as a caller may state it. -/
inductive Coverage where
  | finite (share : Single)
  | infinite (negative : Bool)
  | undefined

namespace Coverage

/-- The share brought into the range from 0 to 1, if there is one. -/
def clamped : Coverage → Option Single
  | finite share => some (if share < 0 then 0 else if 1 < share then 1 else share)
  | infinite negative => some (if negative then 0 else 1)
  | undefined => none

end Coverage

namespace Rgba

/-- The alpha times the covered share, rounded to the nearest integer; zero if the share is undefined. -/
def scaledAlpha (alpha : UInt8) (coverage : Coverage) : UInt8 :=
  match coverage.clamped with
  | none => 0
  | some share => (Dyad.round (Single.mul (Single.ofInt alpha.toNat) share)).toNat.toUInt8

/-- The color thinned to the covered share. -/
def withCoverage (c : Rgba) (coverage : Coverage) : Rgba := { c with a := scaledAlpha c.a coverage }

theorem paintedOver_of_alpha_zero {above below : Rgba} (h : above.a = 0) : above.paintedOver below = below := by
  rcases below with ⟨r, g, b, a⟩
  have := a.toNat_lt
  have hmin : min a.toNat 255 = a.toNat := by omega
  simp [paintedOver, mix, h, hmin]

theorem paintedOver_of_alpha_full {above below : Rgba} (h : above.a = 255) : above.paintedOver below = above := by
  rcases above with ⟨r, g, b, a⟩
  simp only at h
  subst h
  simp [paintedOver, mix]

end Rgba

end Framecast
