import Framecast.Number.Decimal

/-!
# Decimal literals

What the readers of `Number/Decimal` accept, written as rules: one or more digits, with an optional sign in front of
them where a sign is allowed. `unsigned32?_eq_some_iff` and `coordinate?_eq_some_iff` say that the readers accept these
literals within the range, and nothing else.
-/

namespace Framecast.Decimal

structure Numeral (s : List Char) (n : Nat) : Prop where
  ne_nil : s ≠ []
  digits : ∀ c ∈ s, c.isDigit = true
  value : Nat.ofDigitChars 10 s 0 = n

inductive Unsigned : List Char → Nat → Prop
  | plain {s : List Char} {n : Nat} (h : Numeral s n) : Unsigned s n
  | plus {s : List Char} {n : Nat} (h : Numeral s n) : Unsigned ('+' :: s) n

inductive Signed : List Char → Int → Prop
  | plain {s : List Char} {n : Nat} (h : Numeral s n) : Signed s n
  | plus {s : List Char} {n : Nat} (h : Numeral s n) : Signed ('+' :: s) n
  | minus {s : List Char} {n : Nat} (h : Numeral s n) : Signed ('-' :: s) (-n)

variable {s : List Char} {n : Nat}

/-! ## What is accepted -/

theorem ofDigits_eq (s : List Char) : ofDigits s = Nat.ofDigitChars 10 s 0 := by
  simp only [ofDigits, Nat.ofDigitChars_eq_foldl, Nat.mul_comm 10, digitValue]

theorem natural?_eq_some_iff : natural? s = some n ↔ Numeral s n := by
  rw [natural?, ofDigits_eq]
  constructor
  · intro h
    split at h
    · rename_i hs
      exact ⟨hs.1, List.all_eq_true.mp hs.2, Option.some.inj h⟩
    · cases h
  · intro h
    rw [if_pos ⟨h.ne_nil, List.all_eq_true.mpr h.digits⟩, h.value]

theorem Numeral.head_isDigit {c : Char} (h : Numeral (c :: s) n) : c.isDigit = true := h.digits c List.mem_cons_self

theorem unsigned?_eq_some_iff : unsigned? s = some n ↔ Unsigned s n := by
  constructor
  · intro h
    unfold unsigned? at h
    split at h
    · exact .plus (natural?_eq_some_iff.mp h)
    · exact .plain (natural?_eq_some_iff.mp h)
  · intro h
    cases h with
    | plus h => exact natural?_eq_some_iff.mpr h
    | plain h =>
        unfold unsigned?
        split
        · exact absurd h.head_isDigit (by decide)
        · exact natural?_eq_some_iff.mpr h

theorem signed?_minus (s : List Char) : signed? ('-' :: s) = (natural? s).map fun n => -(Int.ofNat n) := by
  cases h : natural? s <;> simp [signed?, h]

theorem signed?_of_ne (h : ¬ ∃ digits, s = '-' :: digits) : signed? s = (unsigned? s).map Int.ofNat := by
  unfold signed?
  split
  · exact absurd ⟨_, rfl⟩ h
  · rfl

theorem signed?_eq_some_iff {i : Int} : signed? s = some i ↔ Signed s i := by
  by_cases hminus : ∃ digits, s = '-' :: digits
  · obtain ⟨digits, rfl⟩ := hminus
    rw [signed?_minus, Option.map_eq_some_iff]
    constructor
    · rintro ⟨n, hn, rfl⟩
      exact .minus (natural?_eq_some_iff.mp hn)
    · intro h
      cases h with
      | minus h => exact ⟨_, natural?_eq_some_iff.mpr h, rfl⟩
      | plain h => exact absurd h.head_isDigit (by decide)
  · rw [signed?_of_ne hminus, Option.map_eq_some_iff]
    constructor
    · rintro ⟨n, hn, rfl⟩
      cases unsigned?_eq_some_iff.mp hn with
      | plain h => exact .plain h
      | plus h => exact .plus h
    · intro h
      cases h with
      | minus h => exact absurd ⟨_, rfl⟩ hminus
      | plain h => exact ⟨_, unsigned?_eq_some_iff.mpr (.plain h), rfl⟩
      | plus h => exact ⟨_, unsigned?_eq_some_iff.mpr (.plus h), rfl⟩

theorem unsigned32?_eq_some_iff : unsigned32? s = some n ↔ Unsigned s n ∧ n < 4294967296 := by
  rw [unsigned32?, Option.filter_eq_some_iff, unsigned?_eq_some_iff, decide_eq_true_eq]

theorem coordinate?_eq_some_iff {i : Int} : coordinate? s = some i ↔ Signed s i ∧ Coordinate.InRange i := by
  rw [coordinate?, Option.filter_eq_some_iff, signed?_eq_some_iff, Bool.and_eq_true, decide_eq_true_eq,
    decide_eq_true_eq]
  rfl

/-! ## The characters of a literal -/

theorem Unsigned.mem {c : Char} (h : Unsigned s n) (hc : c ∈ s) : c.isDigit = true ∨ c = '+' := by
  cases h with
  | plain h => exact .inl (h.digits c hc)
  | plus h =>
      rcases List.mem_cons.mp hc with rfl | hc
      · exact .inr rfl
      · exact .inl (h.digits c hc)

theorem Signed.mem {c : Char} {i : Int} (h : Signed s i) (hc : c ∈ s) : c.isDigit = true ∨ c = '+' ∨ c = '-' := by
  cases h with
  | plain h => exact .inl (h.digits c hc)
  | plus h => exact (Unsigned.plus h).mem hc |>.imp_right .inl
  | minus h =>
      rcases List.mem_cons.mp hc with rfl | hc
      · exact .inr (.inr rfl)
      · exact .inl (h.digits c hc)

/-- A minus can only be the first character. -/
theorem Signed.notMem_tail {c : Char} {i : Int} (h : Signed (c :: s) i) : '-' ∉ s := by
  intro hmem
  cases h with
  | plain h => exact absurd (h.digits _ (List.mem_cons_of_mem _ hmem)) (by decide)
  | plus h => exact absurd (h.digits _ hmem) (by decide)
  | minus h => exact absurd (h.digits _ hmem) (by decide)

theorem Signed.ne_nil {i : Int} (h : Signed s i) : s ≠ [] := by
  cases h with
  | plain h => exact h.ne_nil
  | plus h => exact nofun
  | minus h => exact nofun

theorem Unsigned.notMem (h : Unsigned s n) : 'x' ∉ s := fun hmem => absurd (h.mem hmem) (by decide)

/-! ## Written numbers -/

theorem numeral_toDigits (n : Nat) : Numeral (Nat.toDigits 10 n) n where
  ne_nil := Nat.toDigits_ne_nil
  digits := fun _ hc => Nat.isDigit_of_mem_toDigits (by decide) (by decide) hc
  value := Nat.ofDigitChars_ten_toDigits

theorem signed_toString (i : Int) : Signed (toString i).toList i := by
  rw [Int.toString_eq_repr, Int.repr_eq_if]
  split
  · rename_i hpos
    have hplain := Signed.plain (numeral_toDigits i.toNat)
    rwa [Int.toNat_of_nonneg hpos, ← Nat.toList_repr] at hplain
  · rename_i hneg
    have hminus := Signed.minus (numeral_toDigits (-i).toNat)
    rw [Int.toNat_of_nonneg (by omega), Int.neg_neg, ← Nat.toList_repr] at hminus
    rwa [String.toList_append]

end Framecast.Decimal
