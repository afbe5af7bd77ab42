/-!
# Single-precision numbers

The smooth edges of shapes are computed with 24 significant bits. A number is an exact `Dyadic`, and every operation
is the exact result followed by `nearest`, which keeps the leading bits and rounds to nearest, ties to even. Nothing
computed here comes near the ends of the exponent range, so the exponent is left unbounded. The main statement is
`nearest_of_natAbs_lt`: a value that already fits is kept, so that arithmetic on small integers and their halves is
exact.
-/

namespace Framecast

namespace Dyad

/-- The dyadic nearest to `x` whose odd part has at most `precision` bits, ties to even. -/
def nearest (precision : Nat) (x : Dyadic) : Dyadic :=
  match x with
  | .zero => .zero
  | .ofOdd n k _ =>
    let excess := n.natAbs.log2 + 1 - precision
    if excess = 0 then x
    else
      let kept := n.natAbs >>> excess
      let dropped := n.natAbs - kept <<< excess
      let half := 1 <<< (excess - 1)
      let rounded := if half < dropped ∨ (half = dropped ∧ kept % 2 = 1) then kept + 1 else kept
      .ofIntWithPrec (if n < 0 then -(rounded : Int) else rounded) (k - excess)

/-- The quotient `a / b` rounded to `precision` bits, and zero when `b` is zero. -/
def quotient (precision : Nat) (a b : Dyadic) : Dyadic :=
  match a, b with
  | .zero, _ => .zero
  | _, .zero => .zero
  | .ofOdd n k _, .ofOdd m l _ =>
    let shift := precision + 2 + m.natAbs.log2
    let numerator := n.natAbs <<< shift
    let whole := numerator / m.natAbs
    -- An inexact quotient leaves a last bit that only says "a little more".
    let sticky := if whole * m.natAbs = numerator then 2 * whole else 2 * whole + 1
    nearest precision
      (.ofIntWithPrec (if (n < 0) = (m < 0) then sticky else -(sticky : Int)) (k - l + (shift + 1 : Nat)))

/-- The greatest integer whose square is at most `n`, found in `digits` base-four digits. -/
def sqrtFloor : Nat → Nat → Nat
  | 0, _ => 0
  | digits + 1, n =>
    let r := 2 * sqrtFloor digits (n / 4)
    if (r + 1) * (r + 1) ≤ n then r + 1 else r

/-- The square root rounded to `precision` bits, and zero for a number that is not positive. -/
def sqrt (precision : Nat) (x : Dyadic) : Dyadic :=
  match x with
  | .zero => .zero
  | .ofOdd n k _ =>
    if n < 0 then .zero
    else
      let shift := 2 * (precision + 2) + (k % 2).toNat
      let scaled := n.natAbs <<< shift
      let whole := sqrtFloor (scaled.log2 / 2 + 1) scaled
      let sticky := if whole * whole = scaled then 2 * whole else 2 * whole + 1
      nearest precision (.ofIntWithPrec sticky ((k + shift) / 2 + 1))

/-- The greatest integer that is not above `x`. -/
def floor : Dyadic → Int
  | .zero => 0
  | .ofOdd n k _ => if k ≤ 0 then n <<< (-k).toNat else n >>> k.toNat

/-- The least integer that is not below `x`. -/
def ceil (x : Dyadic) : Int := -floor (-x)

def half : Dyadic := .ofIntWithPrec 1 1

/-- The integer nearest to `x`; a half goes away from zero. -/
def round (x : Dyadic) : Int := if x < 0 then -floor (-x + half) else floor (x + half)

theorem nearest_zero (precision : Nat) : nearest precision .zero = .zero := rfl

/-- A number whose odd part fits in the precision is kept. -/
theorem nearest_of_natAbs_lt {precision : Nat} {n k : Int} {hn : n % 2 = 1} (h : n.natAbs < 1 <<< precision) :
    nearest precision (.ofOdd n k hn) = .ofOdd n k hn := by
  rw [Nat.one_shiftLeft] at h
  have hlog : n.natAbs.log2 < precision := (Nat.log2_lt (by omega)).mpr h
  have hexcess : n.natAbs.log2 + 1 - precision = 0 := by omega
  simp only [nearest, hexcess, ↓reduceIte]

end Dyad

/-- Arithmetic with 24 significant bits. -/
abbrev Single := Dyadic

namespace Single

/-- The number of significant bits. -/
def precision : Nat := 24

/-- The number nearest to an integer. -/
def ofInt (n : Int) : Single := Dyad.nearest precision (Dyadic.ofInt n)

def half : Single := Dyad.half

/-- The rounded sum. -/
def add (a b : Single) : Single := Dyad.nearest precision (a + b)

/-- The rounded difference. -/
def sub (a b : Single) : Single := Dyad.nearest precision (a - b)

/-- The rounded product. -/
def mul (a b : Single) : Single := Dyad.nearest precision (a * b)

/-- The rounded quotient, and zero when the divisor is zero. -/
def div (a b : Single) : Single := Dyad.quotient precision a b

/-- The rounded square root. -/
def sqrt (a : Single) : Single := Dyad.sqrt precision a

/-- The magnitude. -/
def abs (a : Single) : Single := if a < 0 then -a else a

end Single

end Framecast
