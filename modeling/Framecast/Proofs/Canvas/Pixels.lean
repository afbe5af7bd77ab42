import Framecast.Canvas.Basic

/-!
# Where pixels lie in a buffer

The pixels of a canvas stand in its buffer in row-major order, each in as many bytes as its format says.
`Canvas.place` is the number of a pixel in that order. Different pixels have different places, and the bytes of
different places do not overlap, so that statements about pixels can be read off statements about bytes.
-/

namespace Framecast

namespace Point

/-- The point as seen from a corner. -/
def seenFrom (p corner : Point) : Point := ⟨p.x - corner.x, p.y - corner.y⟩

theorem seenFrom_offset (corner : Point) (dx dy : Int) : (corner.offset dx dy).seenFrom corner = ⟨dx, dy⟩ := by
  simp only [seenFrom, offset, Point.mk.injEq]
  omega

end Point

namespace Canvas

/-- The number of a pixel in row-major order. -/
def place (c : Canvas) (p : Point) : Nat := p.y.toNat * c.width + p.x.toNat

theorem byteIndex_eq_place (c : Canvas) (p : Point) : c.byteIndex p = c.place p * c.format.bytesPerPixel := by
  rw [byteIndex, place, stride, Nat.add_mul, Nat.mul_assoc]

/-- A block of equal rows ends before the next row number's block. -/
theorem mul_add_le_mul {i n size : Nat} (h : i < n) : i * size + size ≤ n * size := by
  have hmul := Nat.mul_le_mul_right size (Nat.succ_le_of_lt h)
  rwa [Nat.succ_mul] at hmul

theorem place_lt {c : Canvas} {p : Point} (hp : c.Contains p) : c.place p < c.width * c.height := by
  obtain ⟨hx, hx', hy, hy'⟩ := hp
  have hrow : p.y.toNat * c.width + c.width ≤ c.height * c.width := mul_add_le_mul (by omega)
  rw [Nat.mul_comm c.height] at hrow
  simp only [place]
  omega

theorem place_add (c : Canvas) {x : Int} (hx : 0 ≤ x) (y : Int) (n : Nat) :
    c.place ⟨x + n, y⟩ = c.place ⟨x, y⟩ + n := by
  simp only [place]
  omega

/-- A pixel lies among the first so many places of a row exactly if it lies in that row and among these columns. -/
theorem place_mem_row_iff {c : Canvas} {p : Point} (hp : c.Contains p) {y first : Int} {count : Nat} (hy : 0 ≤ y)
    (hfirst : 0 ≤ first) (hcount : first.toNat + count ≤ c.width) :
    (c.place ⟨first, y⟩ ≤ c.place p ∧ c.place p < c.place ⟨first, y⟩ + count) ↔
      p.y = y ∧ first ≤ p.x ∧ p.x < first + count := by
  obtain ⟨hx, hx', hpy, -⟩ := hp
  simp only [place]
  rcases Int.lt_trichotomy p.y y with hlt | rfl | hgt
  · have hrow : p.y.toNat * c.width + c.width ≤ y.toNat * c.width := mul_add_le_mul (by omega)
    omega
  · omega
  · have hrow : y.toNat * c.width + c.width ≤ p.y.toNat * c.width := mul_add_le_mul (by omega)
    omega

/-- Byte `k` of a place lies behind the start of another place exactly if the place does not come before it. -/
theorem le_block_iff {size i j k : Nat} (hk : k < size) : i * size ≤ j * size + k ↔ i ≤ j := by
  constructor
  · intro h
    rcases Nat.lt_or_ge j i with hlt | hge
    · have hmul : j * size + size ≤ i * size := mul_add_le_mul hlt
      omega
    · exact hge
  · intro h
    have hmul : i * size ≤ j * size := Nat.mul_le_mul_right _ h
    omega

theorem block_lt_iff {size i j k : Nat} (hk : k < size) : j * size + k < i * size ↔ j < i := by
  have := le_block_iff (i := i) (j := j) hk
  omega

/-- The column and the row of a place lie on the canvas. -/
theorem contains_of_place {c : Canvas} {n : Nat} (hn : n < c.width * c.height) :
    c.Contains ⟨(n % c.width : Nat), (n / c.width : Nat)⟩ := by
  have hcolumn := Nat.mod_lt n (Nat.pos_of_mul_pos_right (Nat.zero_lt_of_lt hn))
  have hrow := Nat.div_lt_of_lt_mul hn
  exact ⟨Int.natCast_nonneg _, Int.ofNat_lt.mpr hcolumn, Int.natCast_nonneg _, Int.ofNat_lt.mpr hrow⟩

theorem place_divMod (c : Canvas) (n : Nat) : c.place ⟨(n % c.width : Nat), (n / c.width : Nat)⟩ = n := by
  rw [place, Int.toNat_natCast, Int.toNat_natCast, Nat.div_add_mod']

/-- Every place is that of a pixel. -/
theorem exists_place {c : Canvas} {n : Nat} (hn : n < c.width * c.height) : ∃ p, c.Contains p ∧ c.place p = n :=
  ⟨_, contains_of_place hn, c.place_divMod n⟩

/-- Every byte of a buffer belongs to a pixel. -/
theorem exists_byteIndex {c : Canvas} (hc : c.Valid) {i : Nat} (hi : i < c.bytes.size) :
    ∃ p, c.Contains p ∧ ∃ k < c.format.bytesPerPixel, i = c.byteIndex p + k := by
  rw [hc.size_eq, Nat.mul_comm] at hi
  obtain ⟨p, hp, hplace⟩ := exists_place (Nat.div_lt_of_lt_mul hi)
  refine ⟨p, hp, i % c.format.bytesPerPixel, Nat.mod_lt _ c.format.bytesPerPixel_pos, ?_⟩
  rw [byteIndex_eq_place, hplace, Nat.div_add_mod']

theorem packed?_eq {c : Canvas} {p : Point} (hp : c.Contains p) : c.packed? p = some (c.loadAt (c.byteIndex p)) := by
  rw [packed?, byteIndex?, if_pos hp]
  rfl

theorem packed?_eq_none {c : Canvas} {p : Point} (hp : ¬ c.Contains p) : c.packed? p = none := by
  rw [packed?, byteIndex?, if_neg hp]
  rfl

/-- Two pixels with equal bytes have equal packed numbers. -/
theorem packed?_congr {c d : Canvas} {p q : Point} (hf : c.format = d.format) (hp : c.Contains p) (hq : d.Contains q)
    (h : ∀ k < c.format.bytesPerPixel,
      Buffer.byteAt c.bytes (c.byteIndex p + k) = Buffer.byteAt d.bytes (d.byteIndex q + k)) :
    c.packed? p = d.packed? q := by
  rw [packed?_eq hp, packed?_eq hq, loadAt, loadAt, ← hf, LittleEndian.load_congr h]

end Canvas

end Framecast
