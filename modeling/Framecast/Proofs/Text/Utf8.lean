import Framecast.Text.Utf8
import Mathlib.Data.List.Basic

/-!
# What bytes stand for

Bytes that are no UTF-8 are read too. Where no character stands at the front, the longest part that begins one is read
as the replacement character, and a single byte if none does. `Reads` says so of a whole text without the machine, and
`reads_iff` that the machine does it and that there is no other way. A byte of ASCII is read apart from whatever stands
before it, so that a text can be cut at it.
-/

namespace Framecast.Utf8

open String (utf8EncodeChar)

/-! ## The rule -/

/-- The bytes are the first ones of a character, or all of them. -/
def Begins (bytes : List UInt8) : Prop := ∃ c : Char, bytes <+: utf8EncodeChar c

/-- No character stands in front of the bytes, and the part before `rest` is the longest that begins one, or a single
byte. -/
structure Broken (part rest : List UInt8) : Prop where
  ne_nil : part ≠ []
  no_char : ∀ c : Char, ¬ utf8EncodeChar c <+: part ++ rest
  begins : part.length = 1 ∨ Begins part
  longest : ∀ longer, longer <+: part ++ rest → Begins longer → longer.length ≤ part.length

/-- The characters that bytes are read as. -/
inductive Reads : List UInt8 → List Char → Prop where
  | nil : Reads [] []
  | char (c : Char) {rest : List UInt8} {chars : List Char} (h : Reads rest chars) :
    Reads (utf8EncodeChar c ++ rest) (c :: chars)
  | broken {part rest : List UInt8} {chars : List Char} (hpart : Broken part rest) (h : Reads rest chars) :
    Reads (part ++ rest) (replacement :: chars)

variable {a b low high : UInt8} {bits owed : Nat} {part rest read tail : List UInt8} {c : Char}

theorem Begins.of_isPrefix (h : Begins rest) (hpart : part <+: rest) : Begins part := by
  obtain ⟨c, hc⟩ := h
  exact ⟨c, hpart.trans hc⟩

/-! ## Characters byte by byte -/

/-- The bytes behind the first one of a character, for the range of the next of them. -/
def Follows (low high : UInt8) : List UInt8 → Prop
  | [] => True
  | b :: tail => (low ≤ b ∧ b ≤ high) ∧ Follows 0x80 0xBF tail

theorem utf8EncodeChar_ofNat {n : Nat} (h : n.isValidChar) :
    utf8EncodeChar (Char.ofNat n) =
      if n ≤ 0x7F then [n.toUInt8]
      else if n ≤ 0x7FF then [(n / 64 % 32 + 192).toUInt8, (n % 64 + 128).toUInt8]
      else if n ≤ 0xFFFF then
        [(n / 4096 % 16 + 224).toUInt8, (n / 64 % 64 + 128).toUInt8, (n % 64 + 128).toUInt8]
      else
        [(n / 262144 % 8 + 240).toUInt8, (n / 4096 % 64 + 128).toUInt8, (n / 64 % 64 + 128).toUInt8,
          (n % 64 + 128).toUInt8] := by
  have hval : (Char.ofNat n).val.toNat = n := by
    rw [Char.ofNat, dif_pos h]
    rfl
  unfold utf8EncodeChar
  rw [hval]

theorem utf8EncodeChar_ascii (h : b < 0x80) : utf8EncodeChar (Char.ofNat b.toNat) = [b] := by
  have hlt : b.toNat < 0x80 := UInt8.lt_iff_toNat_lt.mp h
  rw [utf8EncodeChar_ofNat (by unfold Nat.isValidChar; omega), if_pos (by omega)]
  simp

/-- The number that is put together from the bytes behind the first one. -/
def assemble (bits : Nat) (tail : List UInt8) : Nat := tail.foldl (fun n b => n * 64 + (b.toNat - 0x80)) bits

theorem begin_two (ha : 0xC2 ≤ a.toNat ∧ a.toNat ≤ 0xDF) :
    begin a = ([], .inside (a.toNat - 0xC0) 1 0x80 0xBF) := by
  simp only [begin, UInt8.le_iff_toNat_le, UInt8.lt_iff_toNat_lt, UInt8.reduceToNat]
  rw [if_neg (by omega), if_pos ha]

theorem begin_three (ha : 0xE0 ≤ a.toNat ∧ a.toNat ≤ 0xEF) :
    begin a = ([], .inside (a.toNat - 0xE0) 2 (if a = 0xE0 then 0xA0 else 0x80) (if a = 0xED then 0x9F else 0xBF)) := by
  simp only [begin, UInt8.le_iff_toNat_le, UInt8.lt_iff_toNat_lt, UInt8.reduceToNat]
  rw [if_neg (by omega), if_neg (by omega), if_pos ha]

theorem begin_four (ha : 0xF0 ≤ a.toNat ∧ a.toNat ≤ 0xF4) :
    begin a = ([], .inside (a.toNat - 0xF0) 3 (if a = 0xF0 then 0x90 else 0x80) (if a = 0xF4 then 0x8F else 0xBF)) := by
  simp only [begin, UInt8.le_iff_toNat_le, UInt8.lt_iff_toNat_lt, UInt8.reduceToNat]
  rw [if_neg (by omega), if_neg (by omega), if_neg (by omega), if_pos ha]

/-- The bytes that may be second in a character of three. -/
theorem second_of_three_iff :
    ((if a = 0xE0 then 0xA0 else 0x80) ≤ b ∧ b ≤ if a = 0xED then 0x9F else 0xBF) ↔
      (0x80 ≤ b.toNat ∧ b.toNat ≤ 0xBF) ∧ (a.toNat = 0xE0 → 0xA0 ≤ b.toNat) ∧ (a.toNat = 0xED → b.toNat ≤ 0x9F) := by
  simp only [UInt8.le_iff_toNat_le, ← UInt8.toNat_inj, UInt8.reduceToNat]
  split <;> split <;> simp only [UInt8.reduceToNat] <;> omega

/-- The bytes that may be second in a character of four. -/
theorem second_of_four_iff :
    ((if a = 0xF0 then 0x90 else 0x80) ≤ b ∧ b ≤ if a = 0xF4 then 0x8F else 0xBF) ↔
      (0x80 ≤ b.toNat ∧ b.toNat ≤ 0xBF) ∧ (a.toNat = 0xF0 → 0x90 ≤ b.toNat) ∧ (a.toNat = 0xF4 → b.toNat ≤ 0x8F) := by
  simp only [UInt8.le_iff_toNat_le, ← UInt8.toNat_inj, UInt8.reduceToNat]
  split <;> split <;> simp only [UInt8.reduceToNat] <;> omega

theorem later_iff : 0x80 ≤ b ∧ b ≤ 0xBF ↔ 0x80 ≤ b.toNat ∧ b.toNat ≤ 0xBF := by
  simp only [UInt8.le_iff_toNat_le, UInt8.reduceToNat]

/-- What a byte that asks for more says of the bytes behind it. -/
theorem begin_cases (h : begin a = ([], .inside bits owed low high)) :
    (owed = 1 ∧ (0xC2 ≤ a.toNat ∧ a.toNat ≤ 0xDF) ∧ bits = a.toNat - 0xC0 ∧ low = 0x80 ∧ high = 0xBF) ∨
      (owed = 2 ∧ (0xE0 ≤ a.toNat ∧ a.toNat ≤ 0xEF) ∧ bits = a.toNat - 0xE0 ∧
        low = (if a = 0xE0 then 0xA0 else 0x80) ∧ high = if a = 0xED then 0x9F else 0xBF) ∨
      owed = 3 ∧ (0xF0 ≤ a.toNat ∧ a.toNat ≤ 0xF4) ∧ bits = a.toNat - 0xF0 ∧
        low = (if a = 0xF0 then 0x90 else 0x80) ∧ high = if a = 0xF4 then 0x8F else 0xBF := by
  by_cases htwo : 0xC2 ≤ a.toNat ∧ a.toNat ≤ 0xDF
  · rw [begin_two htwo, Prod.mk.injEq, State.inside.injEq] at h
    obtain ⟨-, hbits, howed, hlow, hhigh⟩ := h
    exact .inl ⟨howed.symm, htwo, hbits.symm, hlow.symm, hhigh.symm⟩
  by_cases hthree : 0xE0 ≤ a.toNat ∧ a.toNat ≤ 0xEF
  · rw [begin_three hthree, Prod.mk.injEq, State.inside.injEq] at h
    obtain ⟨-, hbits, howed, hlow, hhigh⟩ := h
    exact .inr (.inl ⟨howed.symm, hthree, hbits.symm, hlow.symm, hhigh.symm⟩)
  by_cases hfour : 0xF0 ≤ a.toNat ∧ a.toNat ≤ 0xF4
  · rw [begin_four hfour, Prod.mk.injEq, State.inside.injEq] at h
    obtain ⟨-, hbits, howed, hlow, hhigh⟩ := h
    exact .inr (.inr ⟨howed.symm, hfour, hbits.symm, hlow.symm, hhigh.symm⟩)
  · simp only [begin, UInt8.le_iff_toNat_le, UInt8.reduceToNat, htwo, hthree, hfour, ↓reduceIte] at h
    split at h
    · simp only [Prod.mk.injEq, reduceCtorEq, and_false] at h
    · simp only [Prod.mk.injEq, reduceCtorEq, and_false] at h

/-- A first byte and the bytes that it asks for are a character. -/
theorem encode_of_begin (hbegin : begin a = ([], .inside bits owed low high)) (hfollows : Follows low high tail)
    (howed : tail.length = owed) : utf8EncodeChar (Char.ofNat (assemble bits tail)) = a :: tail := by
  rcases begin_cases hbegin with ⟨rfl, ha, hbits, rfl, rfl⟩ | ⟨rfl, ha, hbits, rfl, rfl⟩ | ⟨rfl, ha, hbits, rfl, rfl⟩
  · obtain ⟨b, rfl⟩ := List.length_eq_one_iff.mp howed
    simp only [Follows, later_iff] at hfollows
    simp only [assemble, List.foldl_cons, List.foldl_nil, hbits]
    generalize hn : (a.toNat - 0xC0) * 64 + (b.toNat - 0x80) = n
    rw [utf8EncodeChar_ofNat (by unfold Nat.isValidChar; omega), if_neg (by omega), if_pos (by omega)]
    simp only [List.cons.injEq, ← UInt8.toNat_inj, Nat.toUInt8, UInt8.toNat_ofNat', and_true]
    omega
  · obtain ⟨b, d, rfl⟩ := List.length_eq_two.mp howed
    simp only [Follows, second_of_three_iff, later_iff] at hfollows
    simp only [assemble, List.foldl_cons, List.foldl_nil, hbits]
    generalize hn : ((a.toNat - 0xE0) * 64 + (b.toNat - 0x80)) * 64 + (d.toNat - 0x80) = n
    rw [utf8EncodeChar_ofNat (by unfold Nat.isValidChar; omega), if_neg (by omega), if_neg (by omega), if_pos (by omega)]
    simp only [List.cons.injEq, ← UInt8.toNat_inj, Nat.toUInt8, UInt8.toNat_ofNat', and_true]
    omega
  · obtain ⟨b, d, e, rfl⟩ := List.length_eq_three.mp howed
    simp only [Follows, second_of_four_iff, later_iff] at hfollows
    simp only [assemble, List.foldl_cons, List.foldl_nil, hbits]
    generalize hn : (((a.toNat - 0xF0) * 64 + (b.toNat - 0x80)) * 64 + (d.toNat - 0x80)) * 64 + (e.toNat - 0x80) = n
    rw [utf8EncodeChar_ofNat (by unfold Nat.isValidChar; omega), if_neg (by omega), if_neg (by omega), if_neg (by omega)]
    simp only [List.cons.injEq, ← UInt8.toNat_inj, Nat.toUInt8, UInt8.toNat_ofNat', and_true]
    omega

/-- A character is a byte of ASCII, or a first byte and the bytes that it asks for. -/
theorem encode_cases (c : Char) :
    (∃ a, a < 0x80 ∧ utf8EncodeChar c = [a]) ∨
      ∃ a tail bits low high, utf8EncodeChar c = a :: tail ∧ begin a = ([], .inside bits tail.length low high) ∧
        Follows low high tail := by
  have hvalid : c.val.toNat < 0xD800 ∨ 0xDFFF < c.val.toNat ∧ c.val.toNat < 0x110000 := c.valid
  unfold utf8EncodeChar
  generalize c.val.toNat = n at hvalid
  dsimp only
  split
  · refine .inl ⟨_, ?_, rfl⟩
    simp only [UInt8.lt_iff_toNat_lt, UInt8.toNat_ofNat', UInt8.reduceToNat]
    omega
  refine .inr ?_
  split
  · refine ⟨_, _, _, _, _, rfl, begin_two ?_, ?_⟩
    · simp only [UInt8.toNat_ofNat']
      omega
    · simp only [Follows, later_iff, UInt8.toNat_ofNat', and_true]
      omega
  split
  · refine ⟨_, _, _, _, _, rfl, begin_three ?_, ?_⟩
    · simp only [UInt8.toNat_ofNat']
      omega
    · simp only [Follows, second_of_three_iff, later_iff, UInt8.toNat_ofNat', and_true]
      omega
  · refine ⟨_, _, _, _, _, rfl, begin_four ?_, ?_⟩
    · simp only [UInt8.toNat_ofNat']
      omega
    · simp only [Follows, second_of_four_iff, later_iff, UInt8.toNat_ofNat', and_true]
      omega

/-! ## Where the machine stands -/

/-- The bytes are the first ones of a character, and the machine stands behind them. -/
inductive Inside : (read : List UInt8) → (bits owed : Nat) → (low high : UInt8) → Prop where
  | intro {a least greatest low high : UInt8} {seen : List UInt8} {first owed : Nat}
    (hbegin : begin a = ([], .inside first (seen.length + owed) least greatest))
    (hfollows : ∀ more, Follows least greatest (seen ++ more) ↔ Follows low high more)
    (howed : 0 < owed) (hrange : low ≤ high) : Inside (a :: seen) (assemble first seen) owed low high

theorem begin_trichotomy (b : UInt8) :
    (b < 0x80 ∧ begin b = ([Char.ofNat b.toNat], .start)) ∨
      (∃ bits owed low high, begin b = ([], .inside bits owed low high) ∧ 0 < owed ∧ low ≤ high) ∨
      (¬ b < 0x80 ∧ begin b = ([replacement], .start)) := by
  by_cases hascii : b < 0x80
  · exact .inl ⟨hascii, if_pos hascii⟩
  by_cases htwo : 0xC2 ≤ b.toNat ∧ b.toNat ≤ 0xDF
  · exact .inr (.inl ⟨_, _, _, _, begin_two htwo, by decide, by decide⟩)
  by_cases hthree : 0xE0 ≤ b.toNat ∧ b.toNat ≤ 0xEF
  · refine .inr (.inl ⟨_, _, _, _, begin_three hthree, by decide, ?_⟩)
    by_cases hleast : b = 0xE0
    · rw [hleast]
      decide
    · rw [if_neg hleast]
      split <;> decide
  by_cases hfour : 0xF0 ≤ b.toNat ∧ b.toNat ≤ 0xF4
  · refine .inr (.inl ⟨_, _, _, _, begin_four hfour, by decide, ?_⟩)
    by_cases hleast : b = 0xF0
    · rw [hleast]
      decide
    · rw [if_neg hleast]
      split <;> decide
  · refine .inr (.inr ⟨hascii, ?_⟩)
    simp only [begin, UInt8.le_iff_toNat_le, UInt8.reduceToNat, hascii, htwo, hthree, hfour, ↓reduceIte]

namespace Inside

theorem first (hbegin : begin a = ([], .inside bits owed low high)) (howed : 0 < owed) (hrange : low ≤ high) :
    Inside [a] bits owed low high := by
  have hempty : begin a = ([], .inside bits (([] : List UInt8).length + owed) low high) := by
    rwa [List.length_nil, Nat.zero_add]
  exact .intro hempty (fun _ => Iff.rfl) howed hrange

theorem next (h : Inside read bits owed low high) (hb : low ≤ b ∧ b ≤ high) (howed : 1 < owed) :
    Inside (read ++ [b]) (bits * 64 + (b.toNat - 0x80)) (owed - 1) 0x80 0xBF := by
  cases h with
  | @intro a least greatest _ _ seen first _ hbegin hfollows hpos hrange =>
      have hbits : assemble first (seen ++ [b]) = assemble first seen * 64 + (b.toNat - 0x80) := by
        rw [assemble, List.foldl_append]
        rfl
      have hcount : (seen ++ [b]).length + (owed - 1) = seen.length + owed := by
        rw [List.length_append, List.length_singleton]
        omega
      rw [← hbits, List.cons_append]
      refine .intro (hcount ▸ hbegin) (fun more => ?_) (by omega) (by decide)
      rw [List.append_assoc, List.singleton_append, hfollows]
      exact ⟨And.right, And.intro hb⟩

/-- The last byte that is owed makes a character of those before it. -/
theorem encode (h : Inside read bits owed low high) (hb : low ≤ b ∧ b ≤ high) (howed : owed ≤ 1) :
    utf8EncodeChar (Char.ofNat (bits * 64 + (b.toNat - 0x80))) = read ++ [b] := by
  cases h with
  | @intro a least greatest _ _ seen first _ hbegin hfollows hpos hrange =>
      have hwhole : Follows least greatest (seen ++ [b]) := (hfollows [b]).mpr ⟨hb, trivial⟩
      have hcount : (seen ++ [b]).length = seen.length + owed := by
        rw [List.length_append, List.length_singleton]
        omega
      have hchar := encode_of_begin hbegin hwhole hcount
      rwa [assemble, List.foldl_append] at hchar

theorem follows_replicate (n : Nat) : Follows 0x80 0xBF (List.replicate n 0x80) := by
  induction n with
  | zero => trivial
  | succ n ih => exact ⟨by decide, ih⟩

theorem begins (h : Inside read bits owed low high) : Begins read := by
  cases h with
  | @intro a least greatest _ _ seen first _ hbegin hfollows hpos hrange =>
      -- The smallest bytes that may follow complete the character.
      have hmore : Follows low high (low :: List.replicate (owed - 1) 0x80) :=
        ⟨⟨UInt8.le_refl low, hrange⟩, follows_replicate _⟩
      have hcount : (seen ++ low :: List.replicate (owed - 1) 0x80).length = seen.length + owed := by
        rw [List.length_append, List.length_cons, List.length_replicate]
        omega
      have hchar := encode_of_begin hbegin ((hfollows _).mpr hmore) hcount
      exact ⟨_, _, hchar.symm⟩

/-- With a byte that is out of range the bytes begin no character. -/
theorem not_begins (h : Inside read bits owed low high) (hb : ¬ (low ≤ b ∧ b ≤ high)) : ¬ Begins (read ++ [b]) := by
  rintro ⟨c, more, hc⟩
  cases h with
  | @intro a least greatest _ _ seen first _ hbegin hfollows hpos hrange =>
      rcases encode_cases c with ⟨a', ha', hencode⟩ | ⟨a', tail, bits', low', high', hencode, hbegin', htail⟩
      · simp [hencode] at hc
      · rw [hencode, List.cons_append, List.cons_append, List.cons.injEq, List.append_assoc, List.singleton_append] at hc
        obtain ⟨rfl, rfl⟩ := hc
        rw [hbegin, Prod.mk.injEq, State.inside.injEq] at hbegin'
        obtain ⟨-, -, -, rfl, rfl⟩ := hbegin'
        exact hb ((hfollows _).mp htail).1

theorem not_isPrefix (h : Inside read bits owed low high) (c : Char) : ¬ utf8EncodeChar c <+: read := by
  rintro ⟨more, hc⟩
  cases h with
  | @intro a least greatest _ _ seen first _ hbegin hfollows hpos hrange =>
      rcases encode_cases c with ⟨a', ha', hencode⟩ | ⟨a', tail, bits', low', high', hencode, hbegin', htail⟩
      · rw [hencode, List.singleton_append, List.cons.injEq] at hc
        obtain ⟨rfl, rfl⟩ := hc
        simp [begin, ha'] at hbegin
      · rw [hencode, List.cons_append, List.cons.injEq] at hc
        obtain ⟨rfl, rfl⟩ := hc
        rw [hbegin, Prod.mk.injEq, State.inside.injEq] at hbegin'
        have hcount := hbegin'.2.2.1
        rw [List.length_append] at hcount
        omega

theorem broken (h : Inside read bits owed low high) (hrest : ∀ b ∈ rest.head?, ¬ (low ≤ b ∧ b ≤ high)) :
    Broken read rest := by
  have hlongest (longer : List UInt8) (hfront : longer <+: read ++ rest) (hlonger : Begins longer) :
      longer.length ≤ read.length := by
    by_contra hlength
    cases rest with
    | nil => exact hlength (List.append_nil read ▸ hfront.length_le)
    | cons b rest =>
        have hnext : read ++ [b] <+: longer := by
          refine List.prefix_of_prefix_length_le ⟨rest, ?_⟩ hfront ?_
          · rw [List.append_assoc, List.singleton_append]
          · rw [List.length_append, List.length_singleton]
            omega
        exact h.not_begins (hrest b rfl) (hlonger.of_isPrefix hnext)
  refine ⟨?_, fun c hc => ?_, .inr h.begins, hlongest⟩
  · rintro rfl
    cases h
  · have hlength := hlongest _ hc ⟨c, List.prefix_refl _⟩
    exact h.not_isPrefix c (List.prefix_of_prefix_length_le hc (List.prefix_append read rest) hlength)

end Inside

/-- A single byte that begins no character. -/
theorem broken_singleton (hascii : ¬ b < 0x80) (hbegin : begin b = ([replacement], .start)) (rest : List UInt8) :
    Broken [b] rest := by
  have hnone : ¬ Begins [b] := by
    rintro ⟨c, more, hc⟩
    rcases encode_cases c with ⟨a', ha', hencode⟩ | ⟨a', tail, bits', low', high', hencode, hbegin', htail⟩
    · rw [hencode, List.singleton_append, List.cons.injEq] at hc
      exact hascii (hc.1 ▸ ha')
    · rw [hencode, List.singleton_append, List.cons.injEq] at hc
      rw [← hc.1, hbegin] at hbegin'
      cases hbegin'
  have hlongest (longer : List UInt8) (hfront : longer <+: [b] ++ rest) (hlonger : Begins longer) : longer = [] := by
    cases longer with
    | nil => rfl
    | cons a longer =>
        obtain ⟨more, hmore⟩ := hfront
        obtain rfl : a = b := (List.cons.inj hmore).1
        exact absurd (hlonger.of_isPrefix ⟨longer, rfl⟩) hnone
  refine ⟨List.cons_ne_nil _ _, fun c hc => ?_, .inl rfl, fun longer hfront hlonger => ?_⟩
  · exact String.utf8EncodeChar_ne_nil (hlongest _ hc ⟨c, List.prefix_refl _⟩)
  · rw [hlongest longer hfront hlonger]
    exact Nat.zero_le _

/-! ## The front of the bytes -/

/-- How the front of bytes is read by the machine: as a character, or as a part that is broken. -/
inductive Front : List UInt8 → List Char → Prop where
  | char (c : Char) (rest : List UInt8) : Front (utf8EncodeChar c ++ rest) (c :: decode rest)
  | broken {part rest : List UInt8} (hpart : Broken part rest) : Front (part ++ rest) (replacement :: decode rest)

theorem front_inside (h : Inside read bits owed low high) (rest : List UInt8) :
    Front (read ++ rest) (decodeFrom (.inside bits owed low high) rest) := by
  induction rest generalizing read bits owed low high with
  | nil => exact .broken (h.broken nofun)
  | cons b rest ih =>
      by_cases hb : low ≤ b ∧ b ≤ high
      · have happend : read ++ b :: rest = read ++ [b] ++ rest := by rw [List.append_assoc, List.singleton_append]
        simp only [decodeFrom, step, if_pos hb, happend]
        by_cases howed : owed ≤ 1
        · rw [if_pos howed, ← h.encode hb howed]
          exact .char _ rest
        · rw [if_neg howed]
          exact ih (h.next hb (by omega))
      · simp only [decodeFrom, step, if_neg hb]
        refine .broken (h.broken fun b' hb' => ?_)
        cases hb'
        exact hb

theorem front_decode {bytes : List UInt8} (h : bytes ≠ []) : Front bytes (decode bytes) := by
  cases bytes with
  | nil => exact absurd rfl h
  | cons b rest =>
      simp only [decode, decodeFrom, step]
      rcases begin_trichotomy b with ⟨hascii, hbegin⟩ | ⟨bits, owed, low, high, hbegin, howed, hrange⟩ | ⟨hascii, hbegin⟩
      · have hchar := Front.char (Char.ofNat b.toNat) rest
        rw [utf8EncodeChar_ascii hascii] at hchar
        rw [hbegin]
        exact hchar
      · rw [hbegin]
        exact front_inside (.first hbegin howed hrange) rest
      · rw [hbegin]
        exact .broken (broken_singleton hascii hbegin rest)

/-- Only one character stands in front of bytes. -/
theorem encode_append_inj {c d : Char} {rest tail : List UInt8}
    (h : utf8EncodeChar c ++ rest = utf8EncodeChar d ++ tail) : c = d ∧ rest = tail := by
  have hfirst (c : Char) (rest : List UInt8) :
      (utf8EncodeChar c ++ rest).toByteArray.utf8DecodeChar? 0 = some c := by
    rw [List.toByteArray_append, ByteArray.utf8DecodeChar?_utf8EncodeChar_append]
  obtain rfl : c = d := Option.some.inj ((hfirst c rest).symm.trans (h ▸ hfirst d tail))
  exact ⟨rfl, List.append_cancel_left h⟩

theorem decode_char (c : Char) (rest : List UInt8) : decode (utf8EncodeChar c ++ rest) = c :: decode rest := by
  have hfront := @front_decode (utf8EncodeChar c ++ rest) (by simp [String.utf8EncodeChar_ne_nil])
  generalize hbytes : utf8EncodeChar c ++ rest = bytes at hfront ⊢
  generalize decode bytes = chars at hfront
  cases hfront with
  | char d tail =>
      obtain ⟨rfl, rfl⟩ := encode_append_inj hbytes
      rfl
  | broken hpart => exact absurd ⟨rest, hbytes⟩ (hpart.no_char c)

theorem Broken.length_le {part' rest' : List UInt8} (h : Broken part rest) (h' : Broken part' rest')
    (heq : part ++ rest = part' ++ rest') : part.length ≤ part'.length := by
  rcases h.begins with hone | hbegins
  · have hpos := List.length_pos_of_ne_nil h'.ne_nil
    omega
  · exact h'.longest part ⟨rest, heq⟩ hbegins

theorem decode_broken (h : Broken part rest) : decode (part ++ rest) = replacement :: decode rest := by
  have hfront := @front_decode (part ++ rest) (by simp [h.ne_nil])
  generalize hbytes : part ++ rest = bytes at hfront ⊢
  generalize decode bytes = chars at hfront
  cases hfront with
  | char c tail => exact absurd ⟨tail, hbytes.symm⟩ (h.no_char c)
  | @broken part' rest' h' =>
      have hlength := Nat.le_antisymm (h.length_le h' hbytes) (h'.length_le h hbytes.symm)
      obtain ⟨-, rfl⟩ := List.append_inj hbytes hlength
      rfl

/-! ## The whole text -/

theorem reads_decode (bytes : List UInt8) : Reads bytes (decode bytes) := by
  induction hlength : bytes.length using Nat.strongRecOn generalizing bytes with
  | ind n ih =>
      rcases eq_or_ne bytes [] with rfl | hne
      · exact .nil
      · generalize hchars : decode bytes = chars
        have hfront := hchars ▸ front_decode hne
        cases hfront with
        | char c rest =>
            have hpos := List.length_pos_of_ne_nil (@String.utf8EncodeChar_ne_nil c)
            rw [List.length_append] at hlength
            exact .char c (ih rest.length (by omega) rest rfl)
        | @broken part rest hpart =>
            have hpos := List.length_pos_of_ne_nil hpart.ne_nil
            rw [List.length_append] at hlength
            exact .broken hpart (ih rest.length (by omega) rest rfl)

theorem eq_decode_of_reads {bytes : List UInt8} {chars : List Char} (h : Reads bytes chars) : chars = decode bytes := by
  induction h with
  | nil => rfl
  | char c _ ih => rw [decode_char, ih]
  | broken hpart _ ih => rw [decode_broken hpart, ih]

/-- The machine reads bytes by the rule, and there is no other way to do it. -/
theorem reads_iff {bytes : List UInt8} {chars : List Char} : Reads bytes chars ↔ chars = decode bytes :=
  ⟨eq_decode_of_reads, fun h => h ▸ reads_decode bytes⟩

/-! ## Cutting at a byte of ASCII -/

variable {state : State}

theorem decodeFrom_nil (state : State) : decodeFrom state [] = finish state := rfl

theorem decodeFrom_cons (state : State) (b : UInt8) (rest : List UInt8) :
    decodeFrom state (b :: rest) = (step state b).1 ++ decodeFrom (step state b).2 rest := rfl

/-- Inside a character no byte of ASCII can be next. -/
def State.Sound : State → Prop
  | .start => True
  | .inside _ _ low _ => 0x80 ≤ low

theorem sound_begin (b : UInt8) : (begin b).2.Sound := by
  unfold begin
  split
  · trivial
  · split
    · exact UInt8.le_refl _
    · split
      · simp only [State.Sound]
        split <;> decide
      · split
        · simp only [State.Sound]
          split <;> decide
        · trivial

theorem sound_step (state : State) (b : UInt8) : (step state b).2.Sound := by
  cases state with
  | start => exact sound_begin b
  | inside bits owed low high =>
      simp only [step]
      split
      · split
        · trivial
        · exact UInt8.le_refl _
      · exact sound_begin b

/-- Bytes before and behind an ASCII byte are read apart from each other. -/
theorem decodeFrom_append_ascii (hb : b < 0x80) (state : State) (h : state.Sound) (before behind : List UInt8) :
    decodeFrom state (before ++ b :: behind) = decodeFrom state before ++ Char.ofNat b.toNat :: decode behind := by
  induction before generalizing state with
  | nil =>
      have hstep : step state b = (finish state ++ [Char.ofNat b.toNat], .start) :=
        step_ascii hb state fun _ _ _ _ heq => by rwa [heq] at h
      rw [List.nil_append, decodeFrom_cons, hstep, decodeFrom_nil, List.append_assoc, List.singleton_append, decode]
  | cons a before ih =>
      rw [List.cons_append, decodeFrom_cons, ih _ (sound_step state a), decodeFrom_cons, List.append_assoc]

theorem decode_intercalate (hb : b < 0x80) (segments : List (List UInt8)) :
    decode ([b].intercalate segments) = [Char.ofNat b.toNat].intercalate (segments.map decode) := by
  induction segments with
  | nil => rfl
  | cons first rest ih =>
      cases rest with
      | nil => simp only [List.map_cons, List.map_nil, List.intercalate_singleton]
      | cons second rest =>
          have hfirst : decode (first ++ b :: [b].intercalate (second :: rest)) =
              decode first ++ Char.ofNat b.toNat :: decode ([b].intercalate (second :: rest)) :=
            decodeFrom_append_ascii hb .start trivial first _
          rw [List.intercalate_cons_cons, List.append_assoc, List.singleton_append, hfirst, ih, List.map_cons,
            List.map_cons, List.map_cons, List.intercalate_cons_cons, List.append_assoc, List.singleton_append]

end Framecast.Utf8
