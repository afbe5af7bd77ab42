import Framecast.Proofs.Canvas.Writes
import Framecast.Proofs.Number.Halves
import Framecast.Shape.Polygon

/-!
# Polygons with upright and level edges

Which pixels a polygon covers. Around a closed polygon the side of a row changes an even number of times, so that the
crossings of a row go up in pairs; a point lies between the two of a pair exactly if an odd number of crossings is left
of it. No coordinate is rounded as long as it is small, and an upright edge is crossed in its own column: a polygon of
upright and level edges is filled exactly by the even-odd rule.
-/

namespace Framecast

open Single

namespace Polygon

variable {u v s t x y : Int} {points : List Point} {e : Point × Point} {p : Point}

/-! ## Pairs of a sorted list -/

theorem mem_of_mem_pairs {α : Type} {l : List α} {q : α × α} (h : q ∈ pairs l) : q.1 ∈ l ∧ q.2 ∈ l := by
  fun_induction pairs l with
  | case1 a b rest ih =>
      rcases List.mem_cons.mp h with rfl | h
      · simp
      · exact ⟨List.mem_cons_of_mem _ (List.mem_cons_of_mem _ (ih h).1),
          List.mem_cons_of_mem _ (List.mem_cons_of_mem _ (ih h).2)⟩
  | case2 => cases h

theorem pairs_map {α β : Type} (f : α → β) (l : List α) :
    pairs (l.map f) = (pairs l).map fun q => (f q.1, f q.2) := by
  fun_induction pairs l with
  | case1 a b rest ih => simp only [List.map_cons, pairs, ih]
  | case2 l h =>
      match l with
      | [] => rfl
      | [a] => rfl
      | a :: b :: rest => exact (h a b rest rfl).elim

/-- A number lies between the two of a pair exactly if an odd number of elements comes up to it. -/
theorem exists_mem_pairs_iff {l : List Int} (hsorted : l.Pairwise (· ≤ ·)) (heven : l.length % 2 = 0) :
    (∃ q ∈ pairs l, q.1 ≤ x ∧ x < q.2) ↔ l.countP (· ≤ x) % 2 = 1 := by
  fun_induction pairs l with
  | case1 a b rest ih =>
      obtain ⟨ha, hsorted⟩ := List.pairwise_cons.mp hsorted
      obtain ⟨hb, hsorted⟩ := List.pairwise_cons.mp hsorted
      have hab := ha b List.mem_cons_self
      have ih := ih hsorted (by simp only [List.length_cons] at heven; omega)
      -- Behind an element that x does not reach there is none that it reaches.
      have hnone (h : x < b) : rest.countP (· ≤ x) = 0 := List.countP_eq_zero.mpr fun c hc => by
        have := hb c hc
        simp only [decide_eq_true_eq]
        omega
      have hrest (h : x < b) : ¬ ∃ q ∈ pairs rest, q.1 ≤ x ∧ x < q.2 := by
        rw [ih, hnone h]
        decide
      simp only [List.mem_cons, exists_eq_or_imp, List.countP_cons, decide_eq_true_eq]
      by_cases hxb : x < b
      · simp only [hrest hxb, hnone hxb, or_false]
        split <;> split <;> omega
      · simp only [ih, hxb, and_false, false_or]
        rw [if_pos (by omega), if_pos (by omega)]
        omega
  | case2 l h =>
      match l with
      | [] => simp
      | [a] => simp at heven
      | a :: b :: rest => exact (h a b rest rfl).elim

/-! ## The edges of a closed polygon -/

theorem mem_of_mem_edges (h : e ∈ edges points) : e.1 ∈ points ∧ e.2 ∈ points := by
  cases points with
  | nil => cases h
  | cons p rest =>
      obtain ⟨hfirst, hsecond⟩ := List.of_mem_zip h
      exact ⟨hfirst, by simpa [or_comm] using hsecond⟩

/-- On a path the side changes an odd number of times exactly if the two ends lie on different sides. -/
theorem countP_path (side : Point → Bool) (p q : Point) (path : List Point) :
    ((p :: path).zip (path ++ [q])).countP (fun e => side e.1 != side e.2) % 2 =
      if side p = side q then 0 else 1 := by
  induction path generalizing p with
  | nil => cases hp : side p <;> cases hq : side q <;> simp [hp, hq]
  | cons r path ih =>
      have ih := ih r
      rw [List.cons_append, List.zip_cons_cons, List.countP_cons, Nat.add_mod, ih]
      cases side p <;> cases side q <;> cases side r <;> rfl

/-- Around a closed polygon the side changes an even number of times. -/
theorem countP_edges (side : Point → Bool) (points : List Point) :
    (edges points).countP (fun e => side e.1 != side e.2) % 2 = 0 := by
  cases points with
  | nil => rfl
  | cons p rest => exact (countP_path side p p rest).trans (if_pos rfl)

/-! ## Rows -/

theorem le_foldl_min_iff {m n : Int} :
    m ≤ points.foldl (fun m q => min m q.y) n ↔ m ≤ n ∧ ∀ q ∈ points, m ≤ q.y := by
  induction points generalizing n with
  | nil => simp
  | cons p rest ih => simp only [List.foldl_cons, ih, Int.le_min, List.forall_mem_cons, and_assoc]

theorem foldl_max_le_iff {m n : Int} :
    points.foldl (fun m q => max m q.y) n ≤ m ↔ n ≤ m ∧ ∀ q ∈ points, q.y ≤ m := by
  induction points generalizing n with
  | nil => simp
  | cons p rest ih => simp only [List.foldl_cons, ih, Int.max_le, List.forall_mem_cons, and_assoc]

theorem le_first_rows_iff (h : points ≠ []) {m : Int} : m ≤ (rows points).first ↔ ∀ q ∈ points, m ≤ q.y := by
  cases points with
  | nil => exact absurd rfl h
  | cons p rest => simp only [rows, le_foldl_min_iff, List.forall_mem_cons]

theorem last_rows_le_iff (h : points ≠ []) {m : Int} : (rows points).last ≤ m ↔ ∀ q ∈ points, q.y ≤ m := by
  cases points with
  | nil => exact absurd rfl h
  | cons p rest => simp only [rows, foldl_max_le_iff, List.forall_mem_cons]

theorem tame_of_mem_rows (hpoints : points ≠ []) (htame : ∀ p ∈ points, Tame p.y) (hy : y ∈ rows points) : Tame y := by
  have hlow := (le_first_rows_iff hpoints (m := -4194304)).mpr fun p hp => by
    have := htame p hp
    simp only [Tame] at this
    omega
  have hhigh := (last_rows_le_iff hpoints (m := 4194304)).mpr fun p hp => by
    have := htame p hp
    simp only [Tame] at this
    omega
  simp only [Span.mem_iff] at hy
  simp only [Tame]
  omega

/-! ## Crossings -/

/-- The edge is crossed between its two ends, the lower end left out. -/
def Meets (y : Int) (e : Point × Point) : Prop := min e.1.y e.2.y ≤ y ∧ y < max e.1.y e.2.y

instance (y : Int) (e : Point × Point) : Decidable (Meets y e) := inferInstanceAs (Decidable (_ ∧ _))

theorem crosses_middle (hy : Tame y) (hs : Tame e.1.y) (ht : Tame e.2.y) :
    crosses (middle y) e.1 e.2 = decide (Meets y e) := by
  simp only [crosses, middle, add_half hy, ofInt_of_tame hs, ofInt_of_tame ht, Dyad.halves_le_iff, Dyad.halves_lt_iff]
  rw [← Bool.decide_and, ← Bool.decide_and, ← Bool.decide_or]
  exact decide_eq_decide.mpr (by simp only [Meets]; omega)

/-- An edge is crossed exactly if its ends lie on different sides of the row. -/
theorem decide_meets (y : Int) (e : Point × Point) :
    decide (Meets y e) = (decide (e.1.y ≤ y) != decide (e.2.y ≤ y)) := by
  rw [Bool.eq_iff_iff, decide_eq_true_eq, bne_iff_ne, ne_eq, decide_eq_decide, Meets]
  omega

/-- The edges that a row crosses, in their order. -/
def crossed (points : List Point) (y : Int) : List (Point × Point) := (edges points).filter fun e => Meets y e

theorem crossings_eq (htame : ∀ p ∈ points, Tame p.y) (hy : Tame y) :
    crossings points y = (crossed points y).map fun e => crossing (middle y) e.1 e.2 := by
  rw [crossings, crossed]
  congr 1
  refine List.filter_congr fun e he => ?_
  obtain ⟨hfirst, hsecond⟩ := mem_of_mem_edges he
  exact crosses_middle hy (htame _ hfirst) (htame _ hsecond)

/-- A row crosses a closed polygon an even number of times. -/
theorem length_crossed (points : List Point) (y : Int) : (crossed points y).length % 2 = 0 := by
  rw [crossed, ← List.countP_eq_length_filter]
  simp only [decide_meets]
  exact countP_edges (fun p => decide (p.y ≤ y)) points

theorem mem_rows_of_meets (he : e ∈ edges points) (h : Meets y e) : y ∈ rows points := by
  obtain ⟨hfirst, hsecond⟩ := mem_of_mem_edges he
  have hpoints : points ≠ [] := List.ne_nil_of_mem hfirst
  have hlow := (le_first_rows_iff hpoints).mp (Int.le_refl _)
  have hhigh := (last_rows_le_iff hpoints).mp (Int.le_refl _)
  have := hlow _ hfirst
  have := hlow _ hsecond
  have := hhigh _ hfirst
  have := hhigh _ hsecond
  simp only [Meets] at h
  simp only [Span.mem_iff]
  omega

/-- An upright edge is crossed in its column, wherever it is crossed. -/
theorem crossing_upright (mid : Single) (h : e.1.x = e.2.x) (hx : Tame e.1.x) :
    crossing mid e.1 e.2 = ofInt e.1.x := by
  simp only [crossing, ← h, Int.sub_self, ofInt_zero, Single.mul_zero, Single.add_zero hx]

theorem crossings_of_straight (htame : ∀ p ∈ points, Tame p.x ∧ Tame p.y)
    (hstraight : ∀ e ∈ edges points, e.1.x = e.2.x ∨ e.1.y = e.2.y) (hy : Tame y) :
    crossings points y = ((crossed points y).map fun e => e.1.x).map ofInt := by
  rw [crossings_eq (fun p hp => (htame p hp).2) hy, List.map_map]
  refine List.map_congr_left fun e he => ?_
  obtain ⟨he, hmeets⟩ := List.mem_filter.mp he
  have hmeets : Meets y e := of_decide_eq_true hmeets
  have hupright := (hstraight e he).resolve_right fun hlevel => by
    simp only [Meets, hlevel] at hmeets
    omega
  exact crossing_upright _ hupright (htame _ (mem_of_mem_edges he).1).1

/-! ## Spans of a row -/

theorem columnsBetween_ofInt (hu : Tame u) (hv : Tame v) : columnsBetween (ofInt u) (ofInt v) = ⟨u, v - 1⟩ := by
  have hrange {n : Int} (h : Tame n) : Coordinate.saturate n = n := by
    refine Coordinate.saturate_of_inRange ?_
    simp only [Tame, Coordinate.InRange, Coordinate.least, Coordinate.greatest] at h ⊢
    omega
  simp only [columnsBetween, sub_half hu, sub_half hv, Dyad.ceil_half, hrange hu, hrange hv]

theorem rowSpans_eq {columns : List Int} (htame : ∀ n ∈ columns, Tame n)
    (h : crossings points y = columns.map ofInt) :
    rowSpans points y = (pairs (columns.mergeSort fun a b => a ≤ b)).map fun q => ⟨q.1, q.2 - 1⟩ := by
  have hsort : (columns.map ofInt).mergeSort (fun a b => a ≤ b) = (columns.mergeSort fun a b => a ≤ b).map ofInt :=
    (List.map_mergeSort fun a ha b hb =>
      decide_eq_decide.mpr (ofInt_le_iff (htame a ha) (htame b hb)).symm).symm
  rw [rowSpans, h, hsort, pairs_map, List.map_map]
  refine List.map_congr_left fun q hq => ?_
  obtain ⟨hfirst, hsecond⟩ := mem_of_mem_pairs hq
  exact columnsBetween_ofInt (htame _ (List.mem_mergeSort.mp hfirst)) (htame _ (List.mem_mergeSort.mp hsecond))

/-- A column lies in one of the spans of a row exactly if an odd number of crossings comes up to it. -/
theorem exists_mem_rowSpans_iff {columns : List Int} (htame : ∀ n ∈ columns, Tame n)
    (heven : columns.length % 2 = 0) (h : crossings points y = columns.map ofInt) :
    (∃ s ∈ rowSpans points y, x ∈ s) ↔ columns.countP (· ≤ x) % 2 = 1 := by
  have hperm := List.mergeSort_perm columns fun a b => decide (a ≤ b)
  have hsorted : (columns.mergeSort fun a b => a ≤ b).Pairwise (· ≤ ·) := by
    have hpairwise := @List.pairwise_mergeSort Int (fun a b => decide (a ≤ b)) (by simp; omega) (by simp; omega) columns
    simpa using hpairwise
  rw [← hperm.countP_eq, ← exists_mem_pairs_iff hsorted (by rwa [hperm.length_eq]), rowSpans_eq htame h]
  constructor
  · rintro ⟨s, hs, hx, hx'⟩
    obtain ⟨q, hq, rfl⟩ := List.mem_map.mp hs
    exact ⟨q, hq, hx, Int.lt_of_le_sub_one hx'⟩
  · rintro ⟨q, hq, hx, hx'⟩
    exact ⟨_, List.mem_map_of_mem hq, hx, Int.le_sub_one_of_lt hx'⟩

end Polygon

namespace Canvas

open Framecast.Polygon

variable {c : Canvas} {points : List Point}

theorem painted_spans (hc : c.Valid) (hfits : c.FitsCoordinates) {value : Nat}
    (hvalue : value < LittleEndian.range c.format.bytesPerPixel) (y : Int) (spans : List Span) :
    c.Painted (spans.foldl (fun d s => if s.first ≤ s.last then d.putRow s.first s.last y value else d) c)
      (fun _ => value) (fun p => p.y = y ∧ ∃ s ∈ spans, p.x ∈ s) := by
  have hspan (d : Canvas) (s : Span) (hd : c.SameLayout d) :
      d.Painted (if s.first ≤ s.last then d.putRow s.first s.last y value else d) (fun _ => value)
        (fun p => p.y = y ∧ p.x ∈ s) := by
    split
    · refine (painted_putRow (hd.valid hc) (hd.narrow hfits.narrow) (by rwa [hd.format_eq]) _ _ y).congr fun p _ => ?_
      rw [Span.mem_between, Span.mem_iff]
      omega
    · refine (Painted.refl d _).congr fun p _ => ?_
      simp only [Span.mem_iff, false_iff]
      omega
  exact (Painted.foldl fun d s _ hd => hspan d s hd).congr fun p _ => by simp only [exists_and_left, and_left_comm]

/-- A polygon of upright and level edges is filled where an odd number of crossed edges comes up to a point. -/
theorem painted_fillPolygon_of_straight (hc : c.Valid) (hfits : c.FitsCoordinates) (hlength : 3 ≤ points.length)
    (htame : ∀ p ∈ points, Tame p.x ∧ Tame p.y) (hstraight : ∀ e ∈ edges points, e.1.x = e.2.x ∨ e.1.y = e.2.y)
    (color : Rgba) :
    c.Painted (c.fillPolygon points color) (fun _ => c.format.pack color)
      (fun p => (crossed points p.y).countP (fun e => e.1.x ≤ p.x) % 2 = 1) := by
  have hpoints : points ≠ [] := fun h => by simp [h] at hlength
  have hrow (d : Canvas) (y : Int) (hy : y ∈ (rows points).clip 0 c.lastRow) (hd : c.SameLayout d) :
      d.Painted ((rowSpans points y).foldl
        (fun d s => if s.first ≤ s.last then d.putRow s.first s.last y (c.format.pack color) else d) d)
        (fun _ => c.format.pack color)
        (fun p => p.y = y ∧ (crossed points y).countP (fun e => e.1.x ≤ p.x) % 2 = 1) := by
    have hy := tame_of_mem_rows hpoints (fun p hp => (htame p hp).2) (Span.mem_clip.mp hy).1
    refine (painted_spans (hd.valid hc) (hd.fitsCoordinates hfits) (hd.format_eq ▸ c.format.pack_lt color) y _).congr
      fun p _ => ?_
    rw [exists_mem_rowSpans_iff ?_ ?_ (crossings_of_straight htame hstraight hy), List.countP_map]
    · rfl
    · exact List.forall_mem_map.mpr fun e he => (htame _ (mem_of_mem_edges (List.mem_filter.mp he).1).1).1
    · rw [List.length_map, length_crossed]
  unfold fillPolygon
  rw [if_neg (by omega)]
  refine (Painted.spanFold hrow).congr fun p hp => ?_
  obtain ⟨-, -, hy, hy'⟩ := hp
  constructor
  · rintro ⟨y, -, rfl, hodd⟩
    exact hodd
  · intro hodd
    obtain ⟨e, he, -⟩ := List.countP_pos_iff.mp (by omega : 0 < (crossed points p.y).countP fun e => e.1.x ≤ p.x)
    obtain ⟨he, hmeets⟩ := List.mem_filter.mp he
    refine ⟨p.y, Span.mem_clip.mpr ⟨mem_rows_of_meets he (of_decide_eq_true hmeets), hy, ?_⟩, rfl, hodd⟩
    rw [lastRow_eq (Int.le_trans (Int.sub_le_self _ (by decide)) hfits.2)]
    omega

/-- A polygon of upright and level edges, however it crosses itself, is filled where the number of upright edges that a
point's row meets up to the point's column is odd. -/
theorem painted_fillPolygon_even_odd (hc : c.Valid) (hfits : c.FitsCoordinates) (hlength : 3 ≤ points.length)
    (hsmall : ∀ p ∈ points, p.x.natAbs ≤ 4194304 ∧ p.y.natAbs ≤ 4194304)
    (hstraight : ∀ e ∈ edges points, e.1.x = e.2.x ∨ e.1.y = e.2.y) (color : Rgba) :
    c.Painted (c.fillPolygon points color) (fun _ => c.format.pack color) (fun p =>
      (edges points).countP (fun e =>
        e.1.x = e.2.x ∧ e.1.x ≤ p.x ∧ min e.1.y e.2.y ≤ p.y ∧ p.y < max e.1.y e.2.y) % 2 = 1) := by
  refine (painted_fillPolygon_of_straight hc hfits hlength hsmall hstraight color).congr fun p _ => ?_
  have hcount : (crossed points p.y).countP (fun e => e.1.x ≤ p.x) = (edges points).countP (fun e =>
      e.1.x = e.2.x ∧ e.1.x ≤ p.x ∧ min e.1.y e.2.y ≤ p.y ∧ p.y < max e.1.y e.2.y) := by
    rw [crossed, List.countP_filter]
    refine List.countP_congr fun e he => ?_
    have := hstraight e he
    simp only [Bool.and_eq_true, decide_eq_true_eq]
    rw [Meets]
    omega
  rw [hcount]

/-- A polygon that goes around its right end twice leaves it out. -/
theorem painted_fillPolygon_even_odd_of_loops :
    let c : Canvas := ⟨5, 4, .rgba2222, false, Buffer.zeros 20⟩
    let points : List Point := [⟨-4194304, 1⟩, ⟨-4194304, 3⟩, ⟨4, 3⟩, ⟨4, 1⟩, ⟨2, 1⟩, ⟨2, 3⟩, ⟨4, 3⟩, ⟨4, 1⟩]
    let filled := c.fillPolygon points .white
    c.Valid ∧ c.FitsCoordinates ∧ 3 ≤ points.length ∧
      (∀ p ∈ points, p.x.natAbs ≤ 4194304 ∧ p.y.natAbs ≤ 4194304) ∧
      (∀ e ∈ edges points, e.1.x = e.2.x ∨ e.1.y = e.2.y) ∧ filled.packed? ⟨0, 1⟩ = some 255 ∧
        filled.packed? ⟨3, 2⟩ = c.packed? ⟨3, 2⟩ := by
  intro c points filled
  have hvalid : c.Valid := ⟨by decide, by decide, by decide⟩
  have hfits : c.FitsCoordinates := ⟨by decide, by decide⟩
  have hsmall : ∀ p ∈ points, p.x.natAbs ≤ 4194304 ∧ p.y.natAbs ≤ 4194304 := by decide
  have hstraight : ∀ e ∈ edges points, e.1.x = e.2.x ∨ e.1.y = e.2.y := by decide
  have hfilled := painted_fillPolygon_even_odd hvalid hfits (by decide) hsmall hstraight .white
  exact ⟨hvalid, hfits, by decide, hsmall, hstraight, hfilled.inside _ (by decide) (by decide),
    hfilled.outside _ (by decide)⟩

end Canvas

/-! ## Upright rectangles -/

namespace Polygon

/-- The rectangle between two columns and two rows, from its first upright side to the second. -/
def standing (u v s t : Int) : List Point := [⟨u, s⟩, ⟨u, t⟩, ⟨v, t⟩, ⟨v, s⟩]

/-- The rectangle between two columns and two rows, from its first level side to the second. -/
def lying (u v s t : Int) : List Point := [⟨u, s⟩, ⟨v, s⟩, ⟨v, t⟩, ⟨u, t⟩]

/-- The points between two columns and two rows, the greater ones left out. -/
def Box (u v s t : Int) (p : Point) : Prop :=
  (min u v ≤ p.x ∧ p.x < max u v) ∧ min s t ≤ p.y ∧ p.y < max s t

theorem edges_quad (p q r t : Point) : edges [p, q, r, t] = [(p, q), (q, r), (r, t), (t, p)] := rfl

theorem countP_crossed_standing (u v s t : Int) (p : Point) :
    (crossed (standing u v s t) p.y).countP (fun e => e.1.x ≤ p.x) % 2 = 1 ↔ Box u v s t p := by
  simp only [crossed, standing, edges_quad, List.countP_filter, List.countP_cons, List.countP_nil, Bool.and_eq_true,
    decide_eq_true_eq]
  split <;> split <;> split <;> split
  all_goals
    simp only [Meets, Box, true_iff] at *
    omega

theorem countP_crossed_lying (u v s t : Int) (p : Point) :
    (crossed (lying u v s t) p.y).countP (fun e => e.1.x ≤ p.x) % 2 = 1 ↔ Box u v s t p := by
  simp only [crossed, lying, edges_quad, List.countP_filter, List.countP_cons, List.countP_nil, Bool.and_eq_true,
    decide_eq_true_eq]
  split <;> split <;> split <;> split
  all_goals
    simp only [Meets, Box, true_iff] at *
    omega

end Polygon

namespace Canvas

open Framecast.Polygon

variable {c : Canvas} {u v s t : Int}

structure Modest (c : Canvas) : Prop where
  width_le : c.width ≤ 2097152
  height_le : c.height ≤ 2097152

theorem Modest.fitsCoordinates (h : c.Modest) : c.FitsCoordinates := by
  obtain ⟨hwidth, hheight⟩ := h
  simp only [FitsCoordinates, Coordinate.greatest]
  omega

theorem painted_fillPolygon_standing (hc : c.Valid) (hfits : c.FitsCoordinates) (hu : Tame u) (hv : Tame v)
    (hs : Tame s) (ht : Tame t) (color : Rgba) :
    c.Painted (c.fillPolygon (standing u v s t) color) (fun _ => c.format.pack color) (Box u v s t) :=
  (painted_fillPolygon_of_straight hc hfits (by simp [standing]) (by simp [standing, *]) (by simp [edges_quad, standing])
    color).congr fun p _ => countP_crossed_standing u v s t p

theorem painted_fillPolygon_lying (hc : c.Valid) (hfits : c.FitsCoordinates) (hu : Tame u) (hv : Tame v)
    (hs : Tame s) (ht : Tame t) (color : Rgba) :
    c.Painted (c.fillPolygon (lying u v s t) color) (fun _ => c.format.pack color) (Box u v s t) :=
  (painted_fillPolygon_of_straight hc hfits (by simp [lying]) (by simp [lying, *]) (by simp [edges_quad, lying])
    color).congr fun p _ => countP_crossed_lying u v s t p

end Canvas

end Framecast
