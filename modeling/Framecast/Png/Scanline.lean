import Framecast.Bytes.Buffer

/-!
# Scanlines

A row of pixels is stored as the difference of each byte from a prediction, which is made from the byte of the pixel to
the left, the byte above and the byte above the left one. The first byte of a row names the prediction.
-/

namespace Framecast.Png

/-- How a byte is predicted. -/
inductive Prediction where
  | zero
  | left
  | above
  | average
  | nearest
  deriving DecidableEq

namespace Prediction

/-- The prediction of a number in front of a row. -/
def ofCode? : UInt8 → Option Prediction
  | 0 => some zero
  | 1 => some left
  | 2 => some above
  | 3 => some average
  | 4 => some nearest
  | _ => none

/-- Of the three neighbours, the one nearest to `a + b - c`; the earlier one of two. -/
def nearestOf (a b c : UInt8) : UInt8 :=
  let p : Int := a.toNat + b.toNat - c.toNat
  let da := (p - a.toNat).natAbs
  let db := (p - b.toNat).natAbs
  let dc := (p - c.toNat).natAbs
  if da ≤ db ∧ da ≤ dc then a else if db ≤ dc then b else c

/-- The predicted byte, from the byte to the left, the byte above and the byte above the left one. -/
def predict (p : Prediction) (a b c : UInt8) : UInt8 :=
  match p with
  | zero => 0
  | left => a
  | above => b
  | average => ((a.toNat + b.toNat) / 2).toUInt8
  | nearest => nearestOf a b c

end Prediction

/-- Restores `count` bytes of a row. `step` is the distance of the byte to the left, `data` holds the differences from
`start` on, `row` the bytes restored so far and `previous` the row above, empty above the first. -/
def restoreFrom (p : Prediction) (step : Nat) (data previous : ByteArray) :
    (count start : Nat) → (row : ByteArray) → ByteArray
  | 0, _, row => row
  | count + 1, start, row =>
    let i := row.size
    let a := if step ≤ i then Buffer.byteAt row (i - step) else 0
    let c := if step ≤ i then Buffer.byteAt previous (i - step) else 0
    restoreFrom p step data previous count (start + 1)
      (row.push (Buffer.byteAt data start + p.predict a (Buffer.byteAt previous i) c))

/-- The row of `count` bytes whose number stands at `start`. -/
def restoreRow (step : Nat) (data previous : ByteArray) (count start : Nat) : Option ByteArray := do
  guard (start + 1 + count ≤ data.size)
  let p ← Prediction.ofCode? (Buffer.byteAt data start)
  return restoreFrom p step data previous count (start + 1) ByteArray.empty

/-- Restores `height` rows from `start` on. -/
def restoreRows (step : Nat) (data : ByteArray) (count : Nat) :
    (height start : Nat) → (previous : ByteArray) → Option (List ByteArray)
  | 0, _, _ => some []
  | height + 1, start, previous => do
    let row ← restoreRow step data previous count start
    return row :: (← restoreRows step data count height (start + 1 + count) row)

end Framecast.Png
