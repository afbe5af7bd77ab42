/-!
# Blank characters

The characters that Unicode gives the property White_Space. They are cut from the ends of a control line, and in a
text they move the pen without leaving a mark.
-/

namespace Framecast.Text

/-- The first and last code points of the ranges with the property White_Space. -/
def blankRanges : List (Nat × Nat) :=
  [(0x9, 0xD), (0x20, 0x20), (0x85, 0x85), (0xA0, 0xA0), (0x1680, 0x1680), (0x2000, 0x200A), (0x2028, 0x2029),
    (0x202F, 0x202F), (0x205F, 0x205F), (0x3000, 0x3000)]

/-- The character has the property White_Space. -/
def isBlank (c : Char) : Bool := blankRanges.any fun (first, last) => first ≤ c.toNat && c.toNat ≤ last

/-- The characters without the blank ones at both ends. -/
def trim (s : List Char) : List Char := ((s.dropWhile isBlank).reverse.dropWhile isBlank).reverse

/-- The ASCII blanks are blank. -/
theorem isBlank_of_isWhitespace {c : Char} (h : c.isWhitespace = true) : isBlank c = true := by
  simp only [Char.isWhitespace, Bool.or_eq_true, decide_eq_true_eq] at h
  rcases h with ((rfl | rfl) | rfl) | rfl <;> decide

/-- The table covers 25 characters. -/
theorem length_blankRanges :
    (blankRanges.flatMap fun (first, last) => List.range' first (last + 1 - first)).length = 25 := by decide

theorem isBlank_of_isDigit {c : Char} (h : c.isDigit = true) : isBlank c = false := by
  simp only [Char.isDigit, Bool.and_eq_true, decide_eq_true_eq, ge_iff_le, UInt32.le_iff_toNat_le] at h
  have hlow : 48 ≤ c.toNat := h.1
  have hhigh : c.toNat ≤ 57 := h.2
  have hapart : ∀ r ∈ blankRanges, r.2 < 48 ∨ 57 < r.1 := by decide
  refine List.any_eq_false.mpr fun r hr => ?_
  have hr := hapart r hr
  simp only [Bool.and_eq_true, decide_eq_true_eq]
  omega

theorem dropWhile_isBlank_append {blanks l : List Char} (hblanks : ∀ c ∈ blanks, isBlank c = true)
    (h : ∀ c ∈ l, isBlank c = false) : (blanks ++ l).dropWhile isBlank = l := by
  rw [List.dropWhile_append_of_pos hblanks]
  cases l with
  | nil => rfl
  | cons c l => rw [List.dropWhile_cons_of_neg (by simp [h c])]

/-- Trimming finds what stands between blanks. -/
theorem trim_append {before l after : List Char} (hbefore : ∀ c ∈ before, isBlank c = true)
    (hl : ∀ c ∈ l, isBlank c = false) (hafter : ∀ c ∈ after, isBlank c = true) : trim (before ++ l ++ after) = l := by
  have hl' : ∀ c ∈ l.reverse, isBlank c = false := fun c hc => hl c (List.mem_reverse.mp hc)
  have hafter' : ∀ c ∈ after.reverse, isBlank c = true := fun c hc => hafter c (List.mem_reverse.mp hc)
  cases l with
  | nil =>
      have hall : (before ++ after ++ []).dropWhile isBlank = [] :=
        dropWhile_isBlank_append (fun c hc => (List.mem_append.mp hc).elim (hbefore c) (hafter c)) nofun
      rw [List.append_nil] at hall ⊢
      rw [trim, hall]
      rfl
  | cons c l =>
      rw [trim, List.append_assoc, List.dropWhile_append_of_pos hbefore, List.cons_append,
        List.dropWhile_cons_of_neg (by simp [hl c]), ← List.cons_append, List.reverse_append,
        dropWhile_isBlank_append hafter' hl', List.reverse_reverse]

/-- Trimming drops only blanks. -/
theorem exists_eq_append_trim (s : List Char) : ∃ before after : List Char, s = before ++ trim s ++ after ∧
    (∀ c ∈ before, isBlank c = true) ∧ ∀ c ∈ after, isBlank c = true := by
  have hfront : s.takeWhile isBlank ++ s.dropWhile isBlank = s := List.takeWhile_append_dropWhile
  have hback : trim s ++ ((s.dropWhile isBlank).reverse.takeWhile isBlank).reverse = s.dropWhile isBlank := by
    rw [trim, ← List.reverse_append, List.takeWhile_append_dropWhile, List.reverse_reverse]
  refine ⟨s.takeWhile isBlank, ((s.dropWhile isBlank).reverse.takeWhile isBlank).reverse, ?_, ?_, ?_⟩
  · rw [List.append_assoc, hback, hfront]
  · exact List.all_eq_true.mp List.all_takeWhile
  · intro c hc
    exact List.all_eq_true.mp List.all_takeWhile c (List.mem_reverse.mp hc)

end Framecast.Text
