import Framecast.Proofs.Number.Rounding
import Framecast.Proofs.Shape.Polygons
import Mathlib.Data.List.Sort

/-!
# The rows that a polygon is filled in

Around a closed polygon of any edges the number of edges that a row crosses is even, so that none is left over when the
crossings are sorted and paired. A row is crossed by no edge exactly if all vertices lie on one side of it. This holds
of rows far away too, whose middles are rounded, so that nothing is lost by going through the rows of the vertices only.
-/

namespace Framecast

open Single

namespace Span

theorem pairwise_toList (s : Span) : s.toList.Pairwise (· < ·) := by
  rw [toList, List.pairwise_map]
  refine List.pairwise_lt_range.imp fun h => ?_
  omega

theorem toList_clip (s : Span) (lo hi : Int) : (s.clip lo hi).toList = (Span.mk lo hi).toList.filter (· ∈ s) := by
  refine (pairwise_toList _).eq_of_mem_iff ((pairwise_toList _).filter _) fun n => ?_
  rw [mem_toList, mem_clip, List.mem_filter, mem_toList, decide_eq_true_eq, and_comm]
  rfl

/-- A fold over a part of a span is one over the whole of it if nothing happens outside of the part. -/
theorem fold_clip {α : Type} {s : Span} {f : α → Int → α} (h : ∀ a n, n ∉ s → f a n = a) (lo hi : Int) (init : α) :
    (s.clip lo hi).fold f init = (Span.mk lo hi).fold f init := by
  rw [fold_eq_foldl, fold_eq_foldl, toList_clip, List.foldl_filter]
  congr 1
  funext a n
  by_cases hn : n ∈ s
  · simp [hn]
  · simp [hn, h a n hn]

end Span

namespace Polygon

variable {n y : Int} {points : List Point} {e : Point × Point}

/-! ## Rows far away -/

/-- The middle of a row below all vertices is not rounded past one of them. -/
theorem ofInt_le_middle (hn : Tame n) (hy : 4194304 < y) : ofInt n ≤ middle y := by
  -- The greatest tame number, in halves, is kept in both roundings.
  have hvertex : ofInt n ≤ .ofIntWithPrec (8388608 : Nat) 1 := by
    rw [Tame] at hn
    rw [ofInt_of_tame hn, Dyad.ofIntWithPrec_le_iff]
    omega
  have hrow : .ofIntWithPrec (8388608 : Nat) 1 ≤ ofInt y := by
    refine Dyad.le_nearest (by decide) ?_
    rw [Dyad.ofInt_eq_halves, Dyad.ofIntWithPrec_le_iff]
    omega
  have hhalf : 0 ≤ half := by decide
  have hsum : .ofIntWithPrec (8388608 : Nat) 1 ≤ ofInt y + half := by grind
  exact Dyadic.le_trans hvertex (Dyad.le_nearest (by decide) hsum)

/-- The middle of a row above all vertices is not rounded to one of them. -/
theorem middle_lt_ofInt (hn : Tame n) (hy : y < -4194304) : middle y < ofInt n := by
  -- The row before the least tame number and its middle, in halves, are both kept.
  have hvertex : -.ofIntWithPrec (8388609 : Nat) 1 < ofInt n := by
    rw [Tame] at hn
    rw [ofInt_of_tame hn, Dyadic.neg_ofIntWithPrec, Dyad.halves_lt_iff]
    omega
  have hrow : ofInt y ≤ -.ofIntWithPrec (8388610 : Nat) 1 := by
    refine Dyad.nearest_le_neg (by decide) ?_
    rw [Dyad.ofInt_eq_halves, Dyadic.neg_ofIntWithPrec, Dyad.ofIntWithPrec_le_iff]
    omega
  have hhalf : -.ofIntWithPrec (8388610 : Nat) 1 + half = -Dyadic.ofIntWithPrec (8388609 : Nat) 1 := by
    rw [Dyadic.neg_ofIntWithPrec, Dyadic.neg_ofIntWithPrec, half, Dyad.half, Dyad.add_halves]
    rfl
  have hsum : ofInt y + half ≤ -.ofIntWithPrec (8388609 : Nat) 1 := by grind
  have hmiddle : middle y ≤ -.ofIntWithPrec (8388609 : Nat) 1 := Dyad.nearest_le_neg (by decide) hsum
  grind

theorem lt_or_lt_of_not_tame (hy : ¬ Tame y) : 4194304 < y ∨ y < -4194304 := by
  rw [Tame] at hy
  omega

theorem crosses_of_far (hs : Tame e.1.y) (ht : Tame e.2.y) (hy : ¬ Tame y) : crosses (middle y) e.1 e.2 = false := by
  rcases lt_or_lt_of_not_tame hy with hhigh | hlow
  · have hfirst := Dyadic.not_le.mpr (ofInt_le_middle hs hhigh)
    have hsecond := Dyadic.not_le.mpr (ofInt_le_middle ht hhigh)
    simp [crosses, hfirst, hsecond]
  · have hfirst := Dyadic.not_lt.mpr (middle_lt_ofInt hs hlow)
    have hsecond := Dyadic.not_lt.mpr (middle_lt_ofInt ht hlow)
    simp [crosses, hfirst, hsecond]

theorem crossings_of_far (htame : ∀ p ∈ points, Tame p.y) (hy : ¬ Tame y) : crossings points y = [] := by
  rw [crossings, List.map_eq_nil_iff, List.filter_eq_nil_iff]
  intro e he
  obtain ⟨hfirst, hsecond⟩ := mem_of_mem_edges he
  rw [crosses_of_far (htame _ hfirst) (htame _ hsecond) hy]
  exact Bool.false_ne_true

theorem crossed_of_far (htame : ∀ p ∈ points, Tame p.y) (hy : ¬ Tame y) : crossed points y = [] := by
  refine List.filter_eq_nil_iff.mpr fun e he => ?_
  obtain ⟨hfirst, hsecond⟩ := mem_of_mem_edges he
  have hs := htame _ hfirst
  have ht := htame _ hsecond
  rw [decide_eq_true_eq, Meets]
  simp only [Tame] at hy hs ht
  omega

theorem crossings_eq_of_tame (htame : ∀ p ∈ points, Tame p.y) (y : Int) :
    crossings points y = (crossed points y).map fun e => crossing (middle y) e.1 e.2 := by
  by_cases hy : Tame y
  · exact crossings_eq htame hy
  · rw [crossings_of_far htame hy, crossed_of_far htame hy, List.map_nil]

/-! ## Rows without crossings -/

/-- On a path on which no edge changes the side all points lie on the side of the first. -/
theorem side_eq_of_path {side : Point → Bool} {p q : Point} {path : List Point}
    (h : ∀ e ∈ (p :: path).zip (path ++ [q]), side e.1 = side e.2) : ∀ r ∈ path, side r = side p := by
  induction path generalizing p with
  | nil => exact fun r hr => nomatch hr
  | cons s path ih =>
      rw [List.cons_append, List.zip_cons_cons, List.forall_mem_cons] at h
      rw [List.forall_mem_cons]
      exact ⟨h.1.symm, fun r hr => (ih h.2 r hr).trans h.1.symm⟩

/-- A row meets no edge exactly if it passes all vertices on the same side. -/
theorem crossed_eq_nil_iff : crossed points y = [] ↔ (∀ p ∈ points, y < p.y) ∨ ∀ p ∈ points, p.y ≤ y := by
  constructor
  · intro h
    cases points with
    | nil => exact .inl fun p hp => nomatch hp
    | cons p rest =>
        have hside : ∀ r ∈ rest, (r.y ≤ y ↔ p.y ≤ y) := fun r hr => by
          refine decide_eq_decide.mp (@side_eq_of_path (fun q => decide (q.y ≤ y)) p p rest (fun e he => ?_) r hr)
          have hmeets := List.filter_eq_nil_iff.mp h e he
          rw [decide_meets] at hmeets
          simpa using hmeets
        simp only [List.forall_mem_cons]
        by_cases hp : p.y ≤ y
        · exact .inr ⟨hp, fun r hr => (hside r hr).mpr hp⟩
        · exact .inl ⟨by omega, fun r hr => by have := hside r hr; omega⟩
  · intro h
    refine List.filter_eq_nil_iff.mpr fun e he => ?_
    obtain ⟨hfirst, hsecond⟩ := mem_of_mem_edges he
    rw [decide_eq_true_eq, Meets]
    rcases h with h | h
    all_goals
      have hs := h _ hfirst
      have ht := h _ hsecond
      omega

/-! ## Pairs of crossings -/

/-- Nothing is dropped from a list of even length when it is paired. -/
theorem flatMap_pairs {α : Type} {l : List α} (heven : l.length % 2 = 0) :
    (pairs l).flatMap (fun q => [q.1, q.2]) = l := by
  fun_induction pairs l with
  | case1 a b rest ih =>
      rw [List.flatMap_cons, ih (by simp only [List.length_cons] at heven; omega)]
      rfl
  | case2 l h =>
      rcases l with _ | ⟨a, _ | ⟨b, rest⟩⟩
      · rfl
      · simp at heven
      · exact (h a b rest rfl).elim

theorem rowSpans_of_crossings_eq_nil (h : crossings points y = []) : rowSpans points y = [] := by
  rw [rowSpans, h, List.mergeSort_nil]
  rfl

end Polygon

namespace Canvas

open Framecast.Polygon

variable {points : List Point}

/-- Overwrites the spans of one row that lie inside a polygon. -/
def fillRow (points : List Point) (value : Nat) (c : Canvas) (y : Int) : Canvas :=
  (rowSpans points y).foldl (fun c s => if s.first ≤ s.last then c.putRow s.first s.last y value else c) c

theorem fillPolygon_eq (hlength : 3 ≤ points.length) (c : Canvas) (color : Rgba) :
    c.fillPolygon points color =
      ((rows points).clip 0 c.lastRow).fold (fillRow points (c.format.pack color)) c := by
  rw [fillPolygon, if_neg (by omega)]
  rfl

/-- Every row crosses a polygon an even number of times, so that no crossing is left over when they are sorted and
paired, and not at all exactly if all vertices lie on one side of it. The polygon is filled as if all rows of the canvas
were gone through. -/
theorem fillPolygon_all_rows (hlength : 3 ≤ points.length) (hsmall : ∀ p ∈ points, p.y.natAbs ≤ 4194304) :
    (∀ y, (crossings points y).length % 2 = 0 ∧
        (crossings points y = [] ↔ (∀ p ∈ points, y < p.y) ∨ ∀ p ∈ points, p.y ≤ y) ∧
        let sorted := (crossings points y).mergeSort fun a b => a ≤ b
        (pairs sorted).flatMap (fun q => [q.1, q.2]) = sorted) ∧
      ∀ (c : Canvas) (color : Rgba),
        c.fillPolygon points color = (Span.mk 0 c.lastRow).fold (fillRow points (c.format.pack color)) c := by
  have hcrossings := crossings_eq_of_tame hsmall
  have heven (y : Int) : (crossings points y).length % 2 = 0 := by
    rw [hcrossings, List.length_map, length_crossed]
  have hnone (y : Int) : crossings points y = [] ↔ (∀ p ∈ points, y < p.y) ∨ ∀ p ∈ points, p.y ≤ y := by
    rw [hcrossings, List.map_eq_nil_iff, crossed_eq_nil_iff]
  refine ⟨fun y => ⟨heven y, hnone y, flatMap_pairs ?_⟩, fun c color => ?_⟩
  · rw [List.length_mergeSort, heven]
  · rw [fillPolygon_eq hlength]
    refine Span.fold_clip (fun d y hy => ?_) 0 c.lastRow c
    have hempty : crossings points y = [] := by
      rw [hcrossings, List.map_eq_nil_iff, crossed, List.filter_eq_nil_iff]
      exact fun e he hmeets => hy (mem_rows_of_meets he (of_decide_eq_true hmeets))
    rw [fillRow, rowSpans_of_crossings_eq_nil hempty, List.foldl_nil]

/-- A spike with a vertex that comes twice and a level edge in one row, and a row so far away that its number is
rounded. -/
theorem fillPolygon_all_rows_of_spike :
    let points : List Point := [⟨0, -4194304⟩, ⟨5, 3⟩, ⟨5, 3⟩, ⟨2, 3⟩, ⟨9, 4194304⟩]
    let c : Canvas := ⟨5, 4, .rgba2222, false, Buffer.zeros 20⟩
    3 ≤ points.length ∧ (∀ p ∈ points, p.y.natAbs ≤ 4194304) ∧ (crossings points 3).length % 2 = 0 ∧
      crossings points 3 ≠ [] ∧ crossings points 16777217 = [] ∧
      c.fillPolygon points .white = (Span.mk 0 3).fold (fillRow points 255) c := by
  intro points c
  have hsmall : ∀ p ∈ points, p.y.natAbs ≤ 4194304 := by decide
  have hlast : c.lastRow = 3 := by decide
  have hwhite : c.format.pack .white = 255 := by decide
  obtain ⟨hrows, hfill⟩ := @fillPolygon_all_rows points (by decide) hsmall
  refine ⟨by decide, hsmall, (hrows 3).1, fun hnone => ?_, (hrows 16777217).2.1.mpr (.inr (by decide)), ?_⟩
  · exact absurd ((hrows 3).2.1.mp hnone) (by decide)
  · rw [hfill c .white, hlast, hwhite]

end Canvas

end Framecast
