import Framecast.Json.Parser
import Framecast.Json.Printer
import Framecast.Proofs.Number.Literal

/-!
# The text of a number

A number is a whole part without leading zeros, with a sign in front of it and a fraction and an exponent behind it if
they are wanted. Only the plain ones are integers, and a minus sign in front of a zero makes a number that is none.
`number_append` says that the reader takes the text for the number, as long as nothing follows that would carry it on.
-/

namespace Framecast.Json

open Decimal (Numeral)

/-! ## The rules -/

/-- The whole part of a number: a zero alone, or digits that start with another. -/
structure Whole (s : List Char) (n : Nat) : Prop extends Numeral s n where
  leading : s.head? = some '0' → s = ['0']

inductive Fraction : List Char → Prop
  | missing : Fraction []
  | given {s : List Char} {n : Nat} (h : Numeral s n) : Fraction ('.' :: s)

inductive Exponent : List Char → Prop
  | missing : Exponent []
  | given {e : Char} {sign s : List Char} {n : Nat} (he : e ∈ ['e', 'E']) (hsign : sign ∈ [[], ['+'], ['-']])
    (h : Numeral s n) : Exponent (e :: sign ++ s)

inductive NumberText : List Char → Number → Prop
  | natural {s : List Char} {n : Nat} (h : Whole s n) : NumberText s (.integer n)
  | negative {s : List Char} {n : Nat} (h : Whole s n) (hn : n ≠ 0) : NumberText ('-' :: s) (.integer (-n))
  | minusZero {s : List Char} (h : Whole s 0) : NumberText ('-' :: s) .real
  | real {sign s f e : List Char} {n : Nat} (hsign : sign ∈ [[], ['-']]) (h : Whole s n) (hf : Fraction f)
    (he : Exponent e) (hne : f ++ e ≠ []) : NumberText (sign ++ s ++ f ++ e) .real

/-- The text does not carry on a number in front of it. -/
def Ended (rest : List Char) : Prop := ∀ c ∈ rest.head?, c.isDigit = false ∧ c ∉ ['.', 'e', 'E']

/-- The text does not carry on digits in front of it. -/
def NoDigit (rest : List Char) : Prop := ∀ c ∈ rest.head?, c.isDigit = false

variable {s f e rest : List Char} {n : Nat} {c : Char}

/-! ## Reading the parts -/

theorem Ended.noDigit (h : Ended rest) : NoDigit rest := fun c hc => (h c hc).1

theorem digits_append (h : ∀ c ∈ s, c.isDigit = true) (hrest : NoDigit rest) : digits (s ++ rest) = (s, rest) := by
  have htake : rest.takeWhile Char.isDigit = [] := by
    rcases rest with _ | ⟨c, rest⟩
    · rfl
    · exact List.takeWhile_cons_of_neg (by simp [hrest c rfl])
  have hdrop : rest.dropWhile Char.isDigit = rest := by
    rcases rest with _ | ⟨c, rest⟩
    · rfl
    · exact List.dropWhile_cons_of_neg (by simp [hrest c rfl])
  rw [digits, List.takeWhile_append_of_pos h, List.dropWhile_append_of_pos h, htake, hdrop, List.append_nil]

/-- The first character of a text that starts with `s`. -/
theorem head?_of_append_eq_cons {t : List Char} (hs : s ≠ []) (h : s ++ rest = c :: t) : s.head? = some c := by
  obtain ⟨d, s, rfl⟩ := List.exists_cons_of_ne_nil hs
  rw [(List.cons.inj h).1]
  rfl

theorem wholePart_append (h : Whole s n) (hrest : NoDigit rest) : wholePart (s ++ rest) = some (n, rest) := by
  by_cases hzero : s.head? = some '0'
  · have hs := h.leading hzero
    have hn : n = 0 := by rw [← h.value, hs]; rfl
    have hdigits : (digits rest).1 = [] := congrArg Prod.fst (digits_append (s := []) nofun hrest)
    rw [hs, hn, List.singleton_append, wholePart, hdigits]
    rfl
  · rw [wholePart.eq_2 _ (fun t ht => hzero (head?_of_append_eq_cons h.ne_nil ht)), digits_append h.digits hrest]
    simp only [List.isEmpty_iff, h.ne_nil, ↓reduceIte, Decimal.ofDigits_eq, h.value]

theorem someDigits_append (h : Numeral s n) (hrest : NoDigit rest) : someDigits (s ++ rest) = some rest := by
  rw [someDigits, digits_append h.digits hrest]
  exact if_neg (by simpa using h.ne_nil)

theorem fraction_append (hf : Fraction f) (hrest : NoDigit rest) (hpoint : rest.head? ≠ some '.') :
    fraction (f ++ rest) = some (!f.isEmpty, rest) := by
  cases hf with
  | missing =>
      rw [List.nil_append, fraction.eq_2 _ (fun t ht => hpoint (by rw [ht]; rfl))]
      rfl
  | given h => rw [List.cons_append, fraction, someDigits_append h hrest]; rfl

theorem exponentDigits_append {sign : List Char} (hsign : sign ∈ [[], ['+'], ['-']]) (h : Numeral s n)
    (hrest : NoDigit rest) : exponentDigits (sign ++ (s ++ rest)) = some rest := by
  rw [List.mem_cons, List.mem_cons, List.mem_singleton] at hsign
  rcases hsign with rfl | rfl | rfl
  · have hdigit : ∀ c t, s ++ rest = c :: t → c.isDigit = true := fun c t ht =>
      h.digits c (List.mem_of_head? (head?_of_append_eq_cons h.ne_nil ht))
    rw [List.nil_append, exponentDigits.eq_3 _ (fun t ht => absurd (hdigit _ t ht) (by decide))
      (fun t ht => absurd (hdigit _ t ht) (by decide))]
    exact someDigits_append h hrest
  · exact someDigits_append h hrest
  · exact someDigits_append h hrest

theorem exponent_append (he : Exponent e) (hrest : Ended rest) : exponent (e ++ rest) = some (!e.isEmpty, rest) := by
  cases he with
  | missing =>
      rw [List.nil_append, exponent.eq_3 _ (fun t ht => absurd (hrest 'e' (by rw [ht]; rfl)).2 (by decide))
        (fun t ht => absurd (hrest 'E' (by rw [ht]; rfl)).2 (by decide))]
      rfl
  | given he hsign h =>
      rw [List.mem_cons, List.mem_singleton] at he
      rcases he with rfl | rfl
      all_goals
        rw [List.append_assoc, List.cons_append, exponent, exponentDigits_append hsign h hrest.noDigit]
        rfl

/-- What follows the whole part or the fraction does not carry on their digits. -/
theorem Exponent.noDigit_append (he : Exponent e) (hrest : Ended rest) :
    NoDigit (e ++ rest) ∧ (e ++ rest).head? ≠ some '.' := by
  cases he with
  | missing => exact ⟨hrest.noDigit, fun h => absurd (hrest _ h).2 (by decide)⟩
  | given he hsign h =>
      rw [List.mem_cons, List.mem_singleton] at he
      rcases he with rfl | rfl
      all_goals exact ⟨fun c hc => by cases hc; decide, fun h => by cases h⟩

theorem Fraction.noDigit_append (hf : Fraction f) (hrest : NoDigit rest) : NoDigit (f ++ rest) := by
  cases hf with
  | missing => exact hrest
  | given h => exact fun c hc => by cases hc; decide

theorem unsignedNumber_append (negative : Bool) (h : Whole s n) (hf : Fraction f) (he : Exponent e)
    (hrest : Ended rest) :
    unsignedNumber negative (s ++ (f ++ (e ++ rest))) =
      some (if f.isEmpty && e.isEmpty && !(negative && n == 0) then
        .integer (if negative then -(n : Int) else n) else .real, rest) := by
  obtain ⟨hdigit, hpoint⟩ := he.noDigit_append hrest
  simp only [unsignedNumber, wholePart_append h (hf.noDigit_append hdigit), fraction_append hf hdigit hpoint,
    exponent_append he hrest, Option.bind_eq_bind, Option.bind_some, Option.pure_def, Bool.not_not]

theorem number_whole (h : Whole s n) : number (s ++ rest) = unsignedNumber false (s ++ rest) :=
  number.eq_2 _ fun _ ht =>
    absurd (h.digits _ (List.mem_of_head? (head?_of_append_eq_cons h.ne_nil ht))) (by decide)

/-- A number is read up to text that does not carry it on. -/
theorem number_append {m : Number} (h : NumberText s m) (hrest : Ended rest) : number (s ++ rest) = some (m, rest) := by
  cases h with
  | natural h => exact (number_whole h).trans (unsignedNumber_append false h .missing .missing hrest)
  | @negative s n h hn =>
      refine (unsignedNumber_append true h .missing .missing hrest).trans ?_
      simp [hn]
  | minusZero h => exact unsignedNumber_append true h .missing .missing hrest
  | @real sign s f e n hsign h hf he hne =>
      have hread : ∀ negative, unsignedNumber negative (s ++ (f ++ (e ++ rest))) = some (.real, rest) := by
        intro negative
        have hplain : (f.isEmpty && e.isEmpty) = false := by
          simpa [List.isEmpty_iff] using hne
        rw [unsignedNumber_append negative h hf he hrest, hplain]
        rfl
      rw [List.mem_cons, List.mem_singleton] at hsign
      simp only [List.append_assoc]
      rcases hsign with rfl | rfl
      · exact (number_whole h).trans (hread false)
      · exact hread true

/-! ## Writing -/

theorem head?_toDigits (n : Nat) : (Nat.toDigits 10 n).head? = some '0' → Nat.toDigits 10 n = ['0'] := by
  induction n using Nat.strongRecOn with
  | ind n ih =>
    intro h
    rw [Nat.toDigits_eq_if (by decide)] at h ⊢
    split at h
    case isTrue hn =>
      rw [if_pos hn, Option.some.inj h]
    case isFalse hn =>
      -- The digits in front of the last one are those of a number that is not zero.
      have hne : Nat.toDigits 10 (n / 10) ≠ [] := Nat.toDigits_ne_nil
      rw [List.head?_append, List.head?_eq_some_head hne, Option.some_or, ← List.head?_eq_some_head] at h
      have hzero := congrArg (Nat.ofDigitChars 10 · 0) (ih (n / 10) (by omega) h)
      simp only [Nat.ofDigitChars_ten_toDigits] at hzero
      have : n / 10 = 0 := hzero
      omega

theorem whole_toDigits (n : Nat) : Whole (Nat.toDigits 10 n) n := ⟨Decimal.numeral_toDigits n, head?_toDigits n⟩

theorem numberText_renderInt (i : Int) : NumberText (renderInt i) (.integer i) := by
  unfold renderInt
  split
  case isTrue hi =>
    have hnegative := NumberText.negative (whole_toDigits i.natAbs) (by omega)
    rwa [show -(i.natAbs : Int) = i by omega] at hnegative
  case isFalse hi =>
    have hnatural := NumberText.natural (whole_toDigits i.natAbs)
    rwa [show (i.natAbs : Int) = i by omega] at hnatural

end Framecast.Json
