import Framecast.Proofs.Json.Grammar

/-!
# What the reader of JSON accepts

The reader accepts the texts of the grammar and no others: `parse_eq_some_iff`. Each function gives back the part of the
text that it took, which is a text of what it found.
-/

namespace Framecast.Json

open Decimal (Numeral)

variable {s rest : List Char} {c : Char} {n : Nat}

/-! ## Strings -/

theorem mem_hexDigits_of_range {low : Char} {first count : Nat}
    (hall : ∀ m < count, (Char.ofNat (low.toNat + m), m + first) ∈ hexDigits) (hlow : low.toNat ≤ c.toNat)
    (hhigh : c.toNat < low.toNat + count) : (c, c.toNat - low.toNat + first) ∈ hexDigits := by
  have hmem := hall (c.toNat - low.toNat) (by omega)
  rwa [Nat.add_sub_cancel' hlow, Char.ofNat_toNat] at hmem

theorem mem_hexDigits_of_digit? (h : Hexadecimal.digit? c = some n) : (c, n) ∈ hexDigits := by
  have hdecimal : ∀ m < 10, (Char.ofNat ('0'.toNat + m), m + 0) ∈ hexDigits := by decide
  have hlower : ∀ m < 6, (Char.ofNat ('a'.toNat + m), m + 10) ∈ hexDigits := by decide
  have hupper : ∀ m < 6, (Char.ofNat ('A'.toNat + m), m + 10) ∈ hexDigits := by decide
  simp only [Hexadecimal.digit?, Char.isDigit, Bool.and_eq_true, decide_eq_true_eq, Char.le_def, ge_iff_le,
    UInt32.le_iff_toNat_le] at h
  split at h
  case isTrue hc =>
    cases h
    exact mem_hexDigits_of_range hdecimal hc.1 (Nat.lt_succ_of_le hc.2)
  case isFalse =>
    split at h
    case isTrue hc =>
      cases h
      exact mem_hexDigits_of_range hlower hc.1 (Nat.lt_succ_of_le hc.2)
    case isFalse =>
      split at h
      case isTrue hc =>
        cases h
        exact mem_hexDigits_of_range hupper hc.1 (Nat.lt_succ_of_le hc.2)
      case isFalse => cases h

theorem mem_letters_of_escaped? {e : Char} (h : escaped? e = some c) : (e, c) ∈ letters := by
  unfold escaped? at h
  split at h <;> cases h <;> decide

theorem spelling_of_hexUnit? {a b c d : Char} (h : hexUnit? a b c d = some n) :
    Spelling ['\\', 'u', a, b, c, d] (.unit n) := by
  simp only [hexUnit?, Option.bind_eq_bind, Option.bind_eq_some_iff, Option.pure_def, Option.some.injEq] at h
  obtain ⟨i, hi, j, hj, k, hk, l, hl, rfl⟩ := h
  have hunit := Spelling.unit (mem_hexDigits_of_digit? hi) (mem_hexDigits_of_digit? hj) (mem_hexDigits_of_digit? hk)
    (mem_hexDigits_of_digit? hl)
  have hvalue : ((i * 16 + j) * 16 + k) * 16 + l = (i * 16 + j) * 256 + (k * 16 + l) := by omega
  rwa [hvalue] at hunit

theorem spellings_of_pieces {ps : List Piece} (h : pieces s = some (ps, rest)) :
    ∃ t, s = t ++ '"' :: rest ∧ Spellings t ps := by
  fun_induction pieces s generalizing ps with
  | case1 => cases h
  | case2 =>
      cases h
      exact ⟨[], rfl, .nil⟩
  | case3 a b c d later ih =>
      simp only [Option.bind_eq_bind, Option.bind_eq_some_iff, Option.pure_def, Option.some.injEq, Prod.exists,
        Prod.mk.injEq] at h
      obtain ⟨n, hn, more, _, hmore, rfl, rfl⟩ := h
      obtain ⟨t, rfl, ht⟩ := ih hmore
      exact ⟨_, rfl, .cons (spelling_of_hexUnit? hn) ht⟩
  | case4 e later _ ih =>
      simp only [Option.bind_eq_bind, Option.bind_eq_some_iff, Option.pure_def, Option.some.injEq, Prod.exists,
        Prod.mk.injEq] at h
      obtain ⟨c, hc, more, _, hmore, rfl, rfl⟩ := h
      obtain ⟨t, rfl, ht⟩ := ih hmore
      exact ⟨_, rfl, .cons (.letter (mem_letters_of_escaped? hc)) ht⟩
  | case5 => cases h
  | case6 c later hquote _ _ hplain ih =>
      simp only [Option.bind_eq_bind, Option.bind_eq_some_iff, Option.pure_def, Option.some.injEq, Prod.exists,
        Prod.mk.injEq] at h
      obtain ⟨more, _, hmore, rfl, rfl⟩ := h
      obtain ⟨t, rfl, ht⟩ := ih hmore
      exact ⟨_, rfl, .cons (.plain (Nat.not_lt.mp (not_or.mp hplain).1) hquote (not_or.mp hplain).2) ht⟩

/-- What a string is read from, with the quote in front of it. -/
theorem quoted_of_string {name : Option String} (h : string s = some (name, rest)) :
    ∃ t, '"' :: s = t ++ rest ∧ Quoted t name := by
  simp only [string, Option.bind_eq_bind, Option.bind_eq_some_iff, Option.pure_def, Option.some.injEq, Prod.exists,
    Prod.mk.injEq] at h
  obtain ⟨ps, _, hps, rfl, rfl⟩ := h
  obtain ⟨t, rfl, ht⟩ := spellings_of_pieces hps
  refine ⟨'"' :: t ++ ['"'], by simp, ?_⟩
  cases hcs : characters? ps with
  | none =>
      exact .unknown ht fun cs hencodes => by simp [characters?_of_encodes hencodes] at hcs
  | some cs =>
      exact .known ht (by rw [String.toList_ofList]; exact encodes_of_characters? ht.unit_lt hcs)

/-! ## Numbers -/

/-- The digits that are taken, if there are any, are a numeral. -/
theorem numeral_of_digits {ds : List Char} (h : digits s = (ds, rest)) :
    s = ds ++ rest ∧ (¬ ds.isEmpty = true → Numeral ds (Decimal.ofDigits ds)) := by
  obtain ⟨rfl, rfl⟩ := Prod.mk.inj h
  refine ⟨List.takeWhile_append_dropWhile.symm, fun hne => ⟨by simpa using hne, ?_, (Decimal.ofDigits_eq _).symm⟩⟩
  exact List.all_eq_true.mp List.all_takeWhile

theorem whole_of_wholePart (h : wholePart s = some (n, rest)) : ∃ t, s = t ++ rest ∧ Whole t n := by
  by_cases hs : ∃ t, s = '0' :: t
  · obtain ⟨t, rfl⟩ := hs
    rw [wholePart] at h
    split at h
    · cases h
      exact ⟨['0'], rfl, whole_toDigits 0⟩
    · cases h
  · rw [wholePart.eq_2 _ fun t ht => hs ⟨t, ht⟩] at h
    rcases hdigits : digits s with ⟨ds, later⟩
    obtain ⟨rfl, hds⟩ := numeral_of_digits hdigits
    simp only [hdigits] at h
    split at h
    · cases h
    · rename_i hne
      cases h
      refine ⟨ds, rfl, hds hne, fun hhead => ?_⟩
      obtain ⟨t, rfl⟩ := List.head?_eq_some_iff.mp hhead
      exact absurd ⟨_, rfl⟩ hs

theorem numeral_of_someDigits (h : someDigits s = some rest) : ∃ t n, s = t ++ rest ∧ Numeral t n := by
  rcases hdigits : digits s with ⟨ds, later⟩
  obtain ⟨rfl, hds⟩ := numeral_of_digits hdigits
  simp only [someDigits, hdigits] at h
  split at h
  · cases h
  · rename_i hne
    cases h
    exact ⟨ds, _, rfl, hds hne⟩

theorem fraction_of_fraction {given : Bool} (h : fraction s = some (given, rest)) :
    ∃ t, s = t ++ rest ∧ Fraction t ∧ given = !t.isEmpty := by
  unfold fraction at h
  split at h
  · obtain ⟨_, hdigits, heq⟩ := Option.map_eq_some_iff.mp h
    cases heq
    obtain ⟨t, n, rfl, ht⟩ := numeral_of_someDigits hdigits
    exact ⟨'.' :: t, rfl, .given ht, rfl⟩
  · cases h
    exact ⟨[], rfl, .missing, rfl⟩

theorem signed_of_exponentDigits (h : exponentDigits s = some rest) :
    ∃ sign t n, s = sign ++ t ++ rest ∧ sign ∈ [[], ['+'], ['-']] ∧ Numeral t n := by
  unfold exponentDigits at h
  split at h
  · obtain ⟨t, n, rfl, ht⟩ := numeral_of_someDigits h
    exact ⟨['+'], t, n, rfl, by decide, ht⟩
  · obtain ⟨t, n, rfl, ht⟩ := numeral_of_someDigits h
    exact ⟨['-'], t, n, rfl, by decide, ht⟩
  · obtain ⟨t, n, rfl, ht⟩ := numeral_of_someDigits h
    exact ⟨[], t, n, rfl, by decide, ht⟩

theorem exponent_of_exponent {given : Bool} (h : exponent s = some (given, rest)) :
    ∃ t, s = t ++ rest ∧ Exponent t ∧ given = !t.isEmpty := by
  unfold exponent at h
  split at h
  · obtain ⟨_, hdigits, heq⟩ := Option.map_eq_some_iff.mp h
    cases heq
    obtain ⟨sign, t, n, rfl, hsign, ht⟩ := signed_of_exponentDigits hdigits
    exact ⟨'e' :: sign ++ t, rfl, .given (by decide) hsign ht, rfl⟩
  · obtain ⟨_, hdigits, heq⟩ := Option.map_eq_some_iff.mp h
    cases heq
    obtain ⟨sign, t, n, rfl, hsign, ht⟩ := signed_of_exponentDigits hdigits
    exact ⟨'E' :: sign ++ t, rfl, .given (by decide) hsign ht, rfl⟩
  · cases h
    exact ⟨[], rfl, .missing, rfl⟩

theorem parts_of_unsignedNumber {negative : Bool} {m : Number} (h : unsignedNumber negative s = some (m, rest)) :
    ∃ w f e n, s = w ++ f ++ e ++ rest ∧ Whole w n ∧ Fraction f ∧ Exponent e ∧
      m = if f.isEmpty && e.isEmpty && !(negative && n == 0) then .integer (if negative then -(n : Int) else n)
        else .real := by
  simp only [unsignedNumber, Option.bind_eq_bind, Option.bind_eq_some_iff, Option.pure_def, Option.some.injEq,
    Prod.exists, Prod.mk.injEq] at h
  obtain ⟨n, _, hwhole, _, _, hfraction, _, _, hexponent, rfl, rfl⟩ := h
  obtain ⟨w, rfl, hw⟩ := whole_of_wholePart hwhole
  obtain ⟨f, rfl, hf, rfl⟩ := fraction_of_fraction hfraction
  obtain ⟨e, rfl, he, rfl⟩ := exponent_of_exponent hexponent
  exact ⟨w, f, e, n, by simp only [List.append_assoc], hw, hf, he, by simp only [Bool.not_not]⟩

theorem numberText_of_parts {w f e : List Char} (negative : Bool) (hw : Whole w n) (hf : Fraction f)
    (he : Exponent e) :
    NumberText ((if negative then ['-'] else []) ++ w ++ f ++ e)
      (if f.isEmpty && e.isEmpty && !(negative && n == 0) then .integer (if negative then -(n : Int) else n)
        else .real) := by
  cases hplain : f.isEmpty && e.isEmpty with
  | false => exact .real (by cases negative <;> decide) hw hf he (by simpa [List.isEmpty_iff] using hplain)
  | true =>
      obtain ⟨rfl, rfl⟩ : f = [] ∧ e = [] := by simpa [List.isEmpty_iff] using hplain
      simp only [List.append_nil]
      cases negative with
      | false => exact .natural hw
      | true =>
          by_cases hn : n = 0
          · subst hn
            exact .minusZero hw
          · simpa [hn] using NumberText.negative hw hn

theorem numberText_of_number {m : Number} (h : number s = some (m, rest)) : ∃ t, s = t ++ rest ∧ NumberText t m := by
  unfold number at h
  split at h
  · obtain ⟨w, f, e, n, rfl, hw, hf, he, rfl⟩ := parts_of_unsignedNumber h
    exact ⟨_, rfl, numberText_of_parts true hw hf he⟩
  · obtain ⟨w, f, e, n, rfl, hw, hf, he, rfl⟩ := parts_of_unsignedNumber h
    exact ⟨_, rfl, numberText_of_parts false hw hf he⟩

/-! ## Values -/

theorem exists_blanks (s : List Char) : ∃ b, s = b ++ skipBlanks s ∧ Blanks b :=
  ⟨s.takeWhile isBlank, List.takeWhile_append_dropWhile.symm, fun _ hc =>
    isBlank_iff.mp (List.all_eq_true.mp List.all_takeWhile _ hc)⟩

/-- A text with the blanks in front of a closing or separating character behind it. -/
theorem Written.append_blanks {v : Value} {later : List Char} (h : Written s v)
    (hlater : skipBlanks later = c :: rest) : ∃ t, s ++ later = t ++ c :: rest ∧ Written t v := by
  obtain ⟨b, heq, hb⟩ := exists_blanks later
  exact ⟨s ++ b, by rw [heq, hlater, List.append_assoc], .blanks .nil h hb⟩

/-- The name of a member, from its opening quote to the colon. -/
theorem name_of_string {name : Option String} {q afterName : List Char} (hquote : skipBlanks s = '"' :: q)
    (hstring : string q = some (name, afterName)) (hcolon : skipBlanks afterName = ':' :: rest) :
    ∃ k, s = k ++ ':' :: rest ∧ Name k name := by
  obtain ⟨before, hs, hbefore⟩ := exists_blanks s
  obtain ⟨after, hname, hafter⟩ := exists_blanks afterName
  obtain ⟨t, ht, hquoted⟩ := quoted_of_string hstring
  refine ⟨before ++ t ++ after, ?_, .mk hbefore hquoted hafter⟩
  rw [hs, hquote, ht, hname, hcolon, List.append_assoc, List.append_assoc]

mutual

theorem written_of_value {fuel : Nat} {s rest : List Char} {v : Value} (h : value fuel s = some (v, rest)) :
    ∃ t, s = t ++ rest ∧ Written t v := by
  match fuel with
  | 0 => cases h
  | fuel + 1 =>
      obtain ⟨b, hs, hb⟩ := exists_blanks s
      suffices hbare : ∃ t, skipBlanks s = t ++ rest ∧ Written t v by
        obtain ⟨t, ht, hv⟩ := hbare
        exact ⟨b ++ t ++ [], by rw [hs, ht, List.append_nil, List.append_assoc], .blanks hb hv .nil⟩
      rw [value.eq_2] at h
      split at h
      case h_1 _ heq =>
        cases h
        exact ⟨_, heq, .null⟩
      case h_2 _ heq =>
        cases h
        exact ⟨_, heq, .true⟩
      case h_3 _ heq =>
        cases h
        exact ⟨_, heq, .false⟩
      case h_4 later heq =>
        obtain ⟨⟨str, _⟩, hstring, hfound⟩ := Option.map_eq_some_iff.mp h
        cases hfound
        obtain ⟨t, ht, hstr⟩ := quoted_of_string hstring
        exact ⟨t, heq.trans ht, .string hstr⟩
      case h_5 later heq =>
        obtain ⟨b, hlater, hb⟩ := exists_blanks later
        split at h
        case h_1 _ hclose =>
          cases h
          exact ⟨'[' :: b ++ [']'], by rw [heq, hlater, hclose]; simp, .emptyArray hb⟩
        case h_2 =>
          obtain ⟨⟨items, _⟩, hitems, hfound⟩ := Option.map_eq_some_iff.mp h
          cases hfound
          obtain ⟨t, rfl, ht⟩ := items_of_elements hitems
          exact ⟨'[' :: t ++ [']'], by rw [heq]; simp, .array ht⟩
      case h_6 later heq =>
        obtain ⟨b, hlater, hb⟩ := exists_blanks later
        split at h
        case h_1 _ hclose =>
          cases h
          exact ⟨'\x7b' :: b ++ ['\x7d'], by rw [heq, hlater, hclose]; simp, .emptyObject hb⟩
        case h_2 =>
          obtain ⟨⟨found, _⟩, hmembers, hfound⟩ := Option.map_eq_some_iff.mp h
          cases hfound
          obtain ⟨t, rfl, ht⟩ := members_of_members hmembers
          exact ⟨'\x7b' :: t ++ ['\x7d'], by rw [heq]; simp, .object ht⟩
      case h_7 =>
        obtain ⟨⟨m, _⟩, hnumber, hfound⟩ := Option.map_eq_some_iff.mp h
        cases hfound
        obtain ⟨t, ht, hm⟩ := numberText_of_number hnumber
        exact ⟨t, ht, .number hm⟩

theorem items_of_elements {fuel : Nat} {s rest : List Char} {items : List Value}
    (h : elements fuel s = some (items, rest)) : ∃ t, s = t ++ ']' :: rest ∧ Items t items := by
  match fuel with
  | 0 => cases h
  | fuel + 1 =>
      simp only [elements.eq_2, Option.bind_eq_bind, Option.bind_eq_some_iff, Prod.exists] at h
      obtain ⟨v, later, hvalue, h⟩ := h
      obtain ⟨t, rfl, hv⟩ := written_of_value hvalue
      split at h
      case h_1 _ hclose =>
        cases h
        obtain ⟨t, heq, ht⟩ := hv.append_blanks hclose
        exact ⟨t, heq, .last ht⟩
      case h_2 next hcomma =>
        simp only [Option.bind_eq_some_iff, Prod.exists, Option.pure_def, Option.some.injEq, Prod.mk.injEq] at h
        obtain ⟨more, _, hmore, rfl, rfl⟩ := h
        obtain ⟨u, rfl, hu⟩ := items_of_elements hmore
        obtain ⟨t, heq, ht⟩ := hv.append_blanks hcomma
        exact ⟨t ++ ',' :: u, by rw [heq, List.append_assoc, List.cons_append], .cons ht hu⟩
      case h_3 => cases h

theorem members_of_members {fuel : Nat} {s rest : List Char} {found : List (Option String × Value)}
    (h : members fuel s = some (found, rest)) : ∃ t, s = t ++ '\x7d' :: rest ∧ Members t found := by
  match fuel with
  | 0 => cases h
  | fuel + 1 =>
      rw [members.eq_2] at h
      split at h
      case h_1 _ hquote =>
        simp only [Option.bind_eq_bind, Option.bind_eq_some_iff, Prod.exists] at h
        obtain ⟨name, afterName, hstring, h⟩ := h
        split at h
        case h_1 _ hcolon =>
          obtain ⟨k, rfl, hk⟩ := name_of_string hquote hstring hcolon
          simp only [Option.bind_eq_some_iff, Prod.exists] at h
          obtain ⟨v, later, hvalue, h⟩ := h
          obtain ⟨t, rfl, hv⟩ := written_of_value hvalue
          split at h
          case h_1 _ hclose =>
            cases h
            obtain ⟨t, heq, ht⟩ := hv.append_blanks hclose
            exact ⟨k ++ ':' :: t, by rw [heq, List.append_assoc, List.cons_append], .last hk ht⟩
          case h_2 next hcomma =>
            simp only [Option.bind_eq_some_iff, Prod.exists, Option.pure_def, Option.some.injEq, Prod.mk.injEq] at h
            obtain ⟨more, _, hmore, rfl, rfl⟩ := h
            obtain ⟨u, rfl, hu⟩ := members_of_members hmore
            obtain ⟨t, heq, ht⟩ := hv.append_blanks hcomma
            exact ⟨k ++ ':' :: (t ++ ',' :: u), by simp [heq], .cons hk ht hu⟩
          case h_3 => cases h
        case h_2 => cases h
      case h_2 => cases h

end

/-- The reader accepts the texts of the grammar, and nothing else. -/
theorem parse_eq_some_iff {text : String} {v : Value} : parse text = some v ↔ Written text.toList v := by
  refine ⟨fun h => ?_, parse_written⟩
  simp only [parse] at h
  split at h
  case h_1 _ rest hvalue =>
    split at h
    case isTrue hrest =>
      cases h
      obtain ⟨t, heq, ht⟩ := written_of_value hvalue
      obtain ⟨b, hb, hblanks⟩ := exists_blanks rest
      rw [hrest, List.append_nil] at hb
      rw [heq, hb]
      exact .blanks .nil ht hblanks
    case isFalse => cases h
  case h_2 => cases h

end Framecast.Json
