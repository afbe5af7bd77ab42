import Framecast.Proofs.Canvas.Writes
import Framecast.Shape.Line

/-!
# Plain lines

Which pixels a plain line covers. `Line.point` gives them in closed form: along the longer direction the line takes one
pixel a step, and along the shorter one it keeps to the nearest pixel. The walk with its error term goes through these
points one by one and ends at the last of them. It never turns back, so what it leaves out when it stops early is not on
the canvas, and neither is a line with both ends beyond the same side.
-/

namespace Framecast

namespace Line

variable {a b : Point} {d e n j k : Nat}

/-- How far a line has come after `k` of its `n` steps, in a direction in which it covers `d` pixels in all. -/
def covered (d n k : Nat) : Int := (2 * d * k + n : Int) / (2 * n)

/-- The columns from end to end. -/
def columns (a b : Point) : Nat := (b.x - a.x).natAbs

/-- The rows from end to end. -/
def rows (a b : Point) : Nat := (b.y - a.y).natAbs

/-- The number of steps from end to end. -/
def length (a b : Point) : Nat := max (columns a b) (rows a b)

/-- The pixel of a line after `k` steps. -/
def point (a b : Point) (k : Nat) : Point where
  x := a.x + (b.x - a.x).sign * covered (columns a b) (length a b) k
  y := a.y + (b.y - a.y).sign * covered (rows a b) (length a b) k

/-! ## How far a line has come -/

theorem le_covered_iff (hn : 0 < n) {m : Int} : m ≤ covered d n k ↔ m * (2 * n) ≤ 2 * d * k + n :=
  Int.le_ediv_iff_mul_le (by omega)

theorem covered_lt_iff (hn : 0 < n) {m : Int} : covered d n k < m ↔ (2 * d * k + n : Int) < m * (2 * n) :=
  Int.ediv_lt_iff_lt_mul (by omega)

theorem covered_eq (hn : 0 < n) {m : Int} (hle : m * (2 * n) ≤ 2 * d * k + n)
    (hlt : (2 * d * k + n : Int) < (m + 1) * (2 * n)) : covered d n k = m := by
  have hle := (le_covered_iff hn).mpr hle
  have hlt := (covered_lt_iff hn).mpr hlt
  omega

theorem covered_zero (hn : 0 < n) (d : Nat) : covered d n 0 = 0 := covered_eq hn (by omega) (by omega)

/-- Along the longer direction a line takes one pixel a step. -/
theorem covered_self (hn : 0 < n) (k : Nat) : covered n n k = k := covered_eq hn (by grind) (by grind)

/-- After its last step a line has covered the whole distance. -/
theorem covered_length (hn : 0 < n) (d : Nat) : covered d n n = d := covered_eq hn (by grind) (by grind)

theorem covered_mono (hn : 0 < n) (h : j ≤ k) : covered d n j ≤ covered d n k := by
  have hmul : (2 * d * j : Int) ≤ 2 * d * k := by exact_mod_cast Nat.mul_le_mul_left (2 * d) h
  exact Int.ediv_le_ediv (by omega) (by omega)

theorem covered_le (hn : 0 < n) (d : Nat) (hk : k ≤ n) : 0 ≤ covered d n k ∧ covered d n k ≤ d := by
  have hlow := covered_mono hn (d := d) (Nat.zero_le k)
  have hhigh := covered_mono hn (d := d) hk
  rw [covered_zero hn] at hlow
  rw [covered_length hn] at hhigh
  exact ⟨hlow, hhigh⟩

/-- A step takes at most one pixel. -/
theorem covered_succ_le (hn : 0 < n) (hd : d ≤ n) (k : Nat) : covered d n (k + 1) ≤ covered d n k + 1 := by
  have hlt := (covered_lt_iff hn (d := d) (k := k)).mp (Int.lt_succ _)
  have hnext : covered d n (k + 1) < covered d n k + 1 + 1 := (covered_lt_iff hn).mpr (by push_cast; grind)
  omega

/-- The difference of the covered distances, each weighted with the other direction, says whether a step takes a
pixel. -/
theorem covered_succ (hn : 0 < n) (hmax : max d e = n) (k : Nat) :
    covered d n (k + 1) = if (-e : Int) ≤ 2 * (d * (covered e n k + 1) - e * (covered d n k + 1)) then
      covered d n k + 1 else covered d n k := by
  rcases (by omega : d = n ∧ e ≤ n ∨ e = n ∧ d ≤ n) with ⟨rfl, he⟩ | ⟨rfl, hd⟩
  · -- Along the longer direction every step takes one.
    have hlt := (covered_lt_iff hn (d := e) (k := k)).mp (Int.lt_succ _)
    rw [covered_self hn, covered_self hn, if_pos (by grind)]
    push_cast
    rfl
  · have hsucc := covered_succ_le hn hd k
    have hmono := covered_mono hn (d := d) (Nat.le_add_right k 1)
    have hnext := le_covered_iff hn (d := d) (k := k + 1) (m := covered d e k + 1)
    rw [covered_self hn]
    push_cast at hnext
    split
    · have := hnext.mpr (by grind)
      omega
    · have : ¬ covered d e k + 1 ≤ covered d e (k + 1) := fun h => by
        have := hnext.mp h
        grind
      omega

/-- The direction of travel as the walk takes it: without any travel it goes backwards. -/
def heading (u v : Int) : Int := if u < v then 1 else -1

theorem heading_eq (u v : Int) : heading u v = 1 ∧ u < v ∨ heading u v = -1 ∧ v ≤ u := by
  unfold heading
  split <;> omega

theorem sign_mul_covered (hn : 0 < n) (u v : Int) (k : Nat) :
    (v - u).sign * covered (v - u).natAbs n k = heading u v * covered (v - u).natAbs n k := by
  rcases Int.lt_trichotomy u v with huv | rfl | huv
  · rw [heading, if_pos huv, Int.sign_eq_one_of_pos (by omega)]
  · have hzero : covered (u - u).natAbs n k = 0 := covered_eq hn (by simp) (by simp; omega)
    rw [hzero, Int.mul_zero, Int.mul_zero]
  · rw [heading, if_neg (by omega), Int.sign_eq_neg_one_of_neg (by omega)]

/-! ## The points of a line -/

theorem length_pos (h : a ≠ b) : 0 < length a b := by
  obtain ⟨ax, ay⟩ := a
  obtain ⟨bx, by'⟩ := b
  simp only [ne_eq, Point.mk.injEq, length, columns, rows] at h ⊢
  omega

@[simp] theorem point_zero (a b : Point) : point a b 0 = a := by
  by_cases hab : a = b
  · subst hab
    simp [point]
  · simp only [point, covered_zero (length_pos hab), Int.mul_zero, Int.add_zero]

@[simp] theorem point_length (a b : Point) : point a b (length a b) = b := by
  by_cases hab : a = b
  · subst hab
    simp [point]
  · simp only [point, covered_length (length_pos hab), columns, rows, Int.sign_mul_natAbs]
    obtain ⟨bx, by'⟩ := b
    simp only [Point.mk.injEq]
    omega

theorem point_eq (hn : 0 < length a b) (k : Nat) : point a b k =
    ⟨a.x + heading a.x b.x * covered (columns a b) (length a b) k,
      a.y + heading a.y b.y * covered (rows a b) (length a b) k⟩ := by
  simp only [point, columns, rows, sign_mul_covered hn]

/-- A line comes to each of its points once. -/
theorem point_inj (hn : 0 < length a b) (h : point a b j = point a b k) : j = k := by
  rw [point_eq hn, point_eq hn] at h
  obtain ⟨hx, hy⟩ := Point.mk.inj h
  rcases (by unfold length; omega : columns a b = length a b ∨ rows a b = length a b) with hlong | hlong
  · rw [hlong, covered_self hn, covered_self hn] at hx
    rcases heading_eq a.x b.x with ⟨hstep, -⟩ | ⟨hstep, -⟩ <;> rw [hstep] at hx <;> omega
  · rw [hlong, covered_self hn, covered_self hn] at hy
    rcases heading_eq a.y b.y with ⟨hstep, -⟩ | ⟨hstep, -⟩ <;> rw [hstep] at hy <;> omega

/-- A line does not leave the box of its two ends. -/
theorem point_between (hk : k ≤ length a b) :
    (min a.x b.x ≤ (point a b k).x ∧ (point a b k).x ≤ max a.x b.x) ∧
      min a.y b.y ≤ (point a b k).y ∧ (point a b k).y ≤ max a.y b.y := by
  by_cases hab : a = b
  · subst hab
    simp [point]
  · have hn := length_pos hab
    have hx := covered_le hn (columns a b) hk
    have hy := covered_le hn (rows a b) hk
    rw [point_eq hn]
    simp only [columns, rows] at hx hy ⊢
    constructor
    · rcases heading_eq a.x b.x with ⟨hstep, hab⟩ | ⟨hstep, hab⟩ <;> rw [hstep] <;> omega
    · rcases heading_eq a.y b.y with ⟨hstep, hab⟩ | ⟨hstep, hab⟩ <;> rw [hstep] <;> omega

end Line

namespace LineWalk

open Line

variable {a b : Point} {k j : Nat} {c d : Canvas}

/-- The error term after `k` steps. -/
def errorAt (a b : Point) (k : Nat) : Int :=
  columns a b * (covered (rows a b) (Line.length a b) k + 1) -
    rows a b * (covered (columns a b) (Line.length a b) k + 1)

/-- The walk starts with the error term before the first step. -/
theorem errorAt_zero (c : Canvas) (a b : Point) :
    errorAt a b 0 = (between c a b).across + (between c a b).down := by
  have hstart : (between c a b).across + (between c a b).down = columns a b - rows a b := rfl
  rw [hstart]
  rcases Nat.eq_zero_or_pos (Line.length a b) with hzero | hn
  · obtain ⟨hcolumns, hrows⟩ : columns a b = 0 ∧ rows a b = 0 := by
      unfold Line.length at hzero
      omega
    simp [errorAt, hcolumns, hrows]
  · simp only [errorAt, covered_zero hn, Int.zero_add, Int.mul_one]

theorem covered_columns_succ (hn : 0 < Line.length a b) (k : Nat) :
    covered (columns a b) (Line.length a b) (k + 1) = if (-rows a b : Int) ≤ 2 * errorAt a b k then
      covered (columns a b) (Line.length a b) k + 1 else covered (columns a b) (Line.length a b) k :=
  covered_succ hn rfl k

theorem covered_rows_succ (hn : 0 < Line.length a b) (k : Nat) :
    covered (rows a b) (Line.length a b) (k + 1) = if 2 * errorAt a b k ≤ columns a b then
      covered (rows a b) (Line.length a b) k + 1 else covered (rows a b) (Line.length a b) k := by
  rw [covered_succ hn (Nat.max_comm _ _) k]
  congr 1
  exact propext (by grind [errorAt])

theorem errorAt_succ (hn : 0 < Line.length a b) (k : Nat) :
    errorAt a b (k + 1) = errorAt a b k + (if (-rows a b : Int) ≤ 2 * errorAt a b k then (-rows a b : Int) else 0) +
      (if 2 * errorAt a b k ≤ columns a b then (columns a b : Int) else 0) := by
  rw [errorAt, covered_columns_succ hn, covered_rows_succ hn]
  split <;> split <;> grind [errorAt]

/-- One step of the walk goes from a point of the line to the next one. -/
theorem advance_point (hn : 0 < Line.length a b) (c : Canvas) (k : Nat) :
    (between c a b).advance (point a b k) (errorAt a b k) = (point a b (k + 1), errorAt a b (k + 1)) := by
  have hstepX : (between c a b).stepX = heading a.x b.x := rfl
  have hstepY : (between c a b).stepY = heading a.y b.y := rfl
  have hacross : (between c a b).across = columns a b := rfl
  have hdown : (between c a b).down = -rows a b := rfl
  rw [point_eq hn, point_eq hn, errorAt_succ hn, covered_columns_succ hn, covered_rows_succ hn]
  simp only [advance, hstepX, hstepY, hacross, hdown]
  split <;> split <;> grind

theorem not_contains_of_missesSegment (hfits : c.FitsCoordinates) (hmiss : c.missesSegment a b = true)
    (hk : k ≤ Line.length a b) : ¬ c.Contains (point a b k) := by
  obtain ⟨hx, hy⟩ := point_between hk
  simp only [Canvas.missesSegment, hfits.wrap_width, hfits.wrap_height, Bool.or_eq_true, Bool.and_eq_true,
    decide_eq_true_eq] at hmiss
  simp only [Canvas.Contains]
  omega

/-- Past the far side of the canvas the line stays past it. -/
theorem not_contains_of_hasPassed (hfits : c.FitsCoordinates) (hn : 0 < Line.length a b)
    (hpassed : (between c a b).hasPassed (point a b k) = true) (hj : k ≤ j) : ¬ c.Contains (point a b j) := by
  have hx := covered_mono hn (d := columns a b) hj
  have hy := covered_mono hn (d := rows a b) hj
  have hstepX : (between c a b).stepX = heading a.x b.x := rfl
  have hstepY : (between c a b).stepY = heading a.y b.y := rfl
  have hwidth : (between c a b).width = c.width := by simp only [between, hfits.wrap_width]
  have hheight : (between c a b).height = c.height := by simp only [between, hfits.wrap_height]
  rw [point_eq hn] at hpassed ⊢
  simp only [hasPassed, hstepX, hstepY, hwidth, hheight, Bool.or_eq_true, Bool.and_eq_true,
    decide_eq_true_eq] at hpassed
  simp only [Canvas.Contains]
  -- A line that does not travel in a direction counts as going backwards there, and then it covers nothing of it.
  rcases heading_eq a.x b.x with ⟨hX, -⟩ | ⟨hX, -⟩ <;> rcases heading_eq a.y b.y with ⟨hY, -⟩ | ⟨hY, -⟩ <;>
    rw [hX, hY] at hpassed ⊢ <;> omega

/-! ## The walk -/

/-- The walk ends by itself: more steps than those from end to end change nothing. -/
theorem foldFrom_add {α : Type} {f : α → Point → α} {steps : Nat} (hk : k + steps = Line.length a b) (c : Canvas)
    (extra : Nat) (acc : α) : (between c a b).foldFrom f (steps + extra) (point a b k) (errorAt a b k) acc =
      (between c a b).foldFrom f steps (point a b k) (errorAt a b k) acc := by
  induction steps generalizing k acc with
  | zero =>
      obtain rfl : k = Line.length a b := hk
      have htarget : point a b (Line.length a b) = (between c a b).target := point_length a b
      cases extra with
      | zero => rfl
      | succ extra =>
          rw [Nat.zero_add]
          simp only [foldFrom, htarget, ↓reduceIte]
  | succ steps ih =>
      have hadvance := advance_point (Nat.lt_of_lt_of_eq (by omega) hk) c k
      rw [Nat.add_right_comm]
      simp only [foldFrom, hadvance]
      rw [ih (by omega)]

theorem fold_eq {α : Type} (f : α → Point → α) (c : Canvas) (acc : α) : (between c a b).fold a f acc =
    (between c a b).foldFrom f (Line.length a b) (point a b 0) (errorAt a b 0) acc := by
  have hlength : (between c a b).length = Line.length a b := by
    simp only [LineWalk.length, between, Line.length, columns, rows]
    omega
  rw [fold, hlength, errorAt_zero c, point_zero]

/-- The walk ends by itself, after the steps from end to end at the latest. -/
theorem foldFrom_eq_fold {α : Type} {steps : Nat} (f : α → Point → α) (c : Canvas) (hsteps : Line.length a b ≤ steps)
    (acc : α) : (between c a b).foldFrom f steps a ((between c a b).across + (between c a b).down) acc =
      (between c a b).fold a f acc := by
  obtain ⟨extra, rfl⟩ := Nat.exists_eq_add_of_le hsteps
  have hend := foldFrom_add (f := f) (Nat.zero_add (Line.length a b)) c extra acc
  rwa [← fold_eq, errorAt_zero c, point_zero] at hend

/-- The pixels of a line from a step on. -/
def Ahead (a b : Point) (k : Nat) (p : Point) : Prop := ∃ j, k ≤ j ∧ j ≤ Line.length a b ∧ p = point a b j

theorem ahead_iff (hk : k ≤ Line.length a b) (p : Point) :
    Ahead a b k p ↔ p = point a b k ∨ Ahead a b (k + 1) p := by
  constructor
  · rintro ⟨j, hkj, hj, rfl⟩
    rcases Nat.eq_or_lt_of_le hkj with rfl | hlt
    · exact .inl rfl
    · exact .inr ⟨j, hlt, hj, rfl⟩
  · rintro (rfl | ⟨j, hkj, hj, rfl⟩)
    · exact ⟨k, Nat.le_refl k, hk, rfl⟩
    · exact ⟨j, Nat.le_of_succ_le hkj, hj, rfl⟩

/-- From a point of the line on, the walk overwrites the pixels of the rest of the line. -/
theorem painted_foldFrom {value steps : Nat} (hc : c.Valid) (hfits : c.FitsCoordinates)
    (hvalue : value < LittleEndian.range c.format.bytesPerPixel) (hk : k + steps = Line.length a b) :
    c.Painted ((between c a b).foldFrom (fun c p => c.put p value) steps (point a b k) (errorAt a b k) c)
      (fun _ => value) (Ahead a b k) := by
  -- The steps of the walk depend on the layout of the canvas only, which no step changes.
  induction steps generalizing k c with
  | zero =>
      refine (Canvas.painted_put hc hvalue _).congr fun p _ => ?_
      -- The walk is at the last point, and nothing of the line is ahead.
      rw [ahead_iff (by omega)]
      exact ⟨.inl, fun h => h.resolve_right fun ⟨j, hkj, hj, _⟩ => by omega⟩
  | succ steps ih =>
      have hn : 0 < Line.length a b := by omega
      have hput : c.Painted (c.put (point a b k) value) (fun _ => value) (· = point a b k) :=
        Canvas.painted_put hc hvalue _
      have hne : point a b k ≠ (between c a b).target := fun heq => by
        have := point_inj hn (heq.trans (point_length a b).symm)
        omega
      simp only [foldFrom, if_neg hne, advance_point hn]
      split
      · rename_i hpassed
        refine hput.congr fun p hp => ?_
        rw [ahead_iff (by omega)]
        refine ⟨.inl, fun h => h.resolve_right ?_⟩
        rintro ⟨j, hkj, -, rfl⟩
        exact not_contains_of_hasPassed hfits hn hpassed hkj hp
      · have hsame : between (c.put (point a b k) value) a b = between c a b := by
          simp only [between, hput.layout.width_eq, hput.layout.height_eq]
        have hrest := @ih (k + 1) _ (hput.layout.valid hc) (hput.layout.fitsCoordinates hfits)
          (by rwa [hput.layout.format_eq]) (by omega)
        rw [hsame] at hrest
        exact (hput.trans hrest).congr fun p _ => (ahead_iff (by omega) p).symm

end LineWalk

namespace Canvas

open LineWalk

variable {c : Canvas}

/-- A plain line is walked to its end in as many steps as there are from end to end, however many more are allowed, and
it overwrites its pixels on the canvas and no others. -/
theorem painted_drawLine (hc : c.Valid) (hfits : c.FitsCoordinates) (a b : Point) (color : Rgba) :
    (∀ (f : Canvas → Point → Canvas) (steps : Nat), Line.length a b ≤ steps →
      (between c a b).foldFrom f steps a ((between c a b).across + (between c a b).down) c =
        (between c a b).fold a f c) ∧
      c.Painted (c.drawLine a b color) (fun _ => c.format.pack color)
        (fun p => ∃ k, k ≤ Line.length a b ∧ p = Line.point a b k) := by
  refine ⟨fun f steps hsteps => foldFrom_eq_fold f c hsteps c, ?_⟩
  unfold drawLine
  split
  · rename_i hmiss
    refine (Painted.refl c _).congr fun p hp => ⟨False.elim, ?_⟩
    rintro ⟨k, hk, rfl⟩
    exact not_contains_of_missesSegment hfits hmiss hk hp
  · rw [fold_eq]
    refine (painted_foldFrom hc hfits (c.format.pack_lt color) (Nat.zero_add _)).congr fun p _ => ?_
    simp only [Ahead, Nat.zero_le, true_and]

/-- A line from the first coordinate to the last one enters a canvas in its second row. -/
theorem painted_drawLine_of_far_ends :
    let c : Canvas := ⟨3, 2, .rgba4444, false, Buffer.zeros 12⟩
    let a : Point := ⟨Coordinate.least, 0⟩
    let b : Point := ⟨Coordinate.greatest, 1⟩
    let drawn := c.drawLine a b .white
    c.Valid ∧ c.FitsCoordinates ∧ Line.length a b = 4294967295 ∧ drawn.packed? ⟨0, 1⟩ = some 65535 ∧
      drawn.packed? ⟨2, 1⟩ = some 65535 ∧ drawn.packed? ⟨0, 0⟩ = c.packed? ⟨0, 0⟩ := by
  intro c a b drawn
  have hvalid : c.Valid := ⟨by decide, by decide, by decide⟩
  have hfits : c.FitsCoordinates := ⟨by decide, by decide⟩
  have hdrawn := (painted_drawLine hvalid hfits a b .white).2
  have hlength : Line.length a b = 4294967295 := by decide
  refine ⟨hvalid, hfits, hlength, hdrawn.inside _ (by decide) ⟨2147483648, by decide, by decide⟩,
    hdrawn.inside _ (by decide) ⟨2147483650, by decide, by decide⟩, hdrawn.outside _ ?_⟩
  rintro ⟨k, hk, heq⟩
  have hx : (0 : Int) = Coordinate.least + 1 * Line.covered 4294967295 4294967295 k := congrArg Point.x heq
  have hy : (0 : Int) = 0 + 1 * Line.covered 1 4294967295 k := congrArg Point.y heq
  simp only [Line.covered, Coordinate.least] at hx hy
  omega

end Canvas

end Framecast
