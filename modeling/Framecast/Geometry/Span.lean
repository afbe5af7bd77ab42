/-!
# Spans

A span is a run of consecutive integers, both ends included: the columns of a row that a shape covers, or the rows
of a shape. Loops over pixels are folds over spans, from the first element to the last.
-/

namespace Framecast

/-- The integers from `first` to `last`; none when `last < first`. -/
structure Span where
  first : Int
  last : Int
  deriving DecidableEq

namespace Span

/-- The span between two columns given in any order. -/
def between (a b : Int) : Span := if a ≤ b then ⟨a, b⟩ else ⟨b, a⟩

/-- The part of the span from `lo` to `hi`. -/
def clip (s : Span) (lo hi : Int) : Span := ⟨max s.first lo, min s.last hi⟩

/-- The number of elements. -/
def length (s : Span) : Nat := (s.last + 1 - s.first).toNat

/-- Folds over `count` consecutive integers from `start`. -/
def foldFrom (f : α → Int → α) : Nat → Int → α → α
  | 0, _, acc => acc
  | count + 1, start, acc => foldFrom f count (start + 1) (f acc start)

/-- Folds over the elements from the first to the last. -/
def fold (s : Span) (f : α → Int → α) (init : α) : α := foldFrom f s.length s.first init

/-- The elements in order. -/
def toList (s : Span) : List Int := (List.range s.length).map (fun i : Nat => s.first + (i : Int))

instance : Membership Int Span := ⟨fun s n => s.first ≤ n ∧ n ≤ s.last⟩

instance (s : Span) (n : Int) : Decidable (n ∈ s) := inferInstanceAs (Decidable (_ ∧ _))

theorem mem_iff {s : Span} {n : Int} : n ∈ s ↔ s.first ≤ n ∧ n ≤ s.last := Iff.rfl

theorem mem_clip {s : Span} {lo hi n : Int} : n ∈ s.clip lo hi ↔ n ∈ s ∧ lo ≤ n ∧ n ≤ hi := by
  simp only [mem_iff, clip]
  omega

theorem mem_between {a b n : Int} : n ∈ between a b ↔ min a b ≤ n ∧ n ≤ max a b := by
  simp only [mem_iff, between]
  split <;> simp only <;> omega

theorem mem_toList {s : Span} {n : Int} : n ∈ s.toList ↔ n ∈ s := by
  simp only [toList, length, mem_iff, List.mem_map, List.mem_range]
  constructor
  · rintro ⟨i, hi, rfl⟩
    omega
  · intro h
    exact ⟨(n - s.first).toNat, by omega, by omega⟩

theorem foldFrom_eq_foldl (f : α → Int → α) (count : Nat) (start : Int) (acc : α) :
    foldFrom f count start acc =
      ((List.range count).map (fun i : Nat => start + (i : Int))).foldl f acc := by
  induction count generalizing start acc with
  | zero => rfl
  | succ count ih =>
    simp only [foldFrom, ih, List.range_succ_eq_map, List.map_cons, List.foldl_cons, List.map_map]
    congr 2
    · simp
    · funext i
      simp only [Function.comp_apply, Nat.succ_eq_add_one]
      omega

/-- The fold over a span is the fold over the list of its elements. -/
theorem fold_eq_foldl (s : Span) (f : α → Int → α) (init : α) : s.fold f init = s.toList.foldl f init :=
  foldFrom_eq_foldl f s.length s.first init

/-- What holds at the start and is kept by every step holds at the end of a fold. -/
theorem fold_preserves {α : Type u} {p : α → Prop} {f : α → Int → α} (s : Span) (h : ∀ a, ∀ n ∈ s, p a → p (f a n))
    {init : α} (hinit : p init) : p (s.fold f init) := by
  rw [fold_eq_foldl]
  exact List.foldlRecOn _ _ hinit fun a ha n hn => h a n (mem_toList.mp hn) ha

end Span

end Framecast
