import Framecast.Json.Parser
import Framecast.Json.Printer

/-!
# The text of a string

How a string may be spelled between its quotes: a character as it is, an escape of one letter, or units of sixteen bits
in hexadecimal digits, where two units in a row spell a character above the first 65536. The units of a string may be
halves of such pairs that stand alone; no characters are known for it then. `string_quoted` says that the reader takes
every spelling for the string that it spells, and `quoted_quote` that the writer uses one of them.
-/

namespace Framecast.Json

/-! ## The rules -/

/-- The letters behind a backslash with the characters that they stand for. -/
def letters : List (Char × Char) :=
  [('"', '"'), ('\\', '\\'), ('/', '/'), ('b', '\x08'), ('f', '\x0c'), ('n', '\n'), ('r', '\r'), ('t', '\t')]

/-- The hexadecimal digits with their values. -/
def hexDigits : List (Char × Nat) :=
  [('0', 0), ('1', 1), ('2', 2), ('3', 3), ('4', 4), ('5', 5), ('6', 6), ('7', 7), ('8', 8), ('9', 9),
    ('a', 10), ('b', 11), ('c', 12), ('d', 13), ('e', 14), ('f', 15),
    ('A', 10), ('B', 11), ('C', 12), ('D', 13), ('E', 14), ('F', 15)]

inductive Spelling : List Char → Piece → Prop
  | plain {c : Char} (hcontrol : 0x20 ≤ c.toNat) (hquote : c ≠ '"') (hbackslash : c ≠ '\\') : Spelling [c] (.char c)
  | letter {e c : Char} (h : (e, c) ∈ letters) : Spelling ['\\', e] (.char c)
  | unit {a b c d : Char} {i j k l : Nat} (ha : (a, i) ∈ hexDigits) (hb : (b, j) ∈ hexDigits) (hc : (c, k) ∈ hexDigits)
    (hd : (d, l) ∈ hexDigits) : Spelling ['\\', 'u', a, b, c, d] (.unit (((i * 16 + j) * 16 + k) * 16 + l))

/-- The text between the quotes with the pieces that it spells. -/
inductive Spellings : List Char → List Piece → Prop
  | nil : Spellings [] []
  | cons {s t : List Char} {p : Piece} {ps : List Piece} (h : Spelling s p) (ht : Spellings t ps) :
    Spellings (s ++ t) (p :: ps)

/-- The pieces stand for the characters. -/
inductive Encodes : List Piece → List Char → Prop
  | nil : Encodes [] []
  | char (c : Char) {ps : List Piece} {cs : List Char} (h : Encodes ps cs) : Encodes (.char c :: ps) (c :: cs)
  | unit {c : Char} (hc : c.toNat < 0x10000) {ps : List Piece} {cs : List Char} (h : Encodes ps cs) :
    Encodes (.unit c.toNat :: ps) (c :: cs)
  | pair {c : Char} (hc : 0x10000 ≤ c.toNat) {ps : List Piece} {cs : List Char} (h : Encodes ps cs) :
    Encodes (.unit (0xD800 + (c.toNat - 0x10000) / 0x400) :: .unit (0xDC00 + (c.toNat - 0x10000) % 0x400) :: ps)
      (c :: cs)

/-- A string in its quotes. -/
inductive Quoted : List Char → Option String → Prop
  | known {s : List Char} {ps : List Piece} {str : String} (hs : Spellings s ps) (h : Encodes ps str.toList) :
    Quoted ('"' :: s ++ ['"']) (some str)
  | unknown {s : List Char} {ps : List Piece} (hs : Spellings s ps) (h : ∀ cs, ¬ Encodes ps cs) :
    Quoted ('"' :: s ++ ['"']) none

variable {s rest : List Char} {p : Piece} {ps : List Piece} {cs : List Char} {c : Char} {n : Nat}

/-! ## Reading pieces -/

theorem digit?_of_mem_hexDigits (h : (c, n) ∈ hexDigits) : Hexadecimal.digit? c = some n ∧ n < 16 := by
  have hall : ∀ d ∈ hexDigits, Hexadecimal.digit? d.1 = some d.2 ∧ d.2 < 16 := by decide
  exact hall _ h

theorem escaped?_of_mem_letters {e : Char} (h : (e, c) ∈ letters) : escaped? e = some c ∧ e ≠ 'u' := by
  have hall : ∀ d ∈ letters, escaped? d.1 = some d.2 ∧ d.1 ≠ 'u' := by decide
  exact hall _ h

theorem pieces_spelling (h : Spelling s p) :
    pieces (s ++ rest) = (pieces rest).map fun (more, rest) => (p :: more, rest) := by
  cases h with
  | @plain c hcontrol hquote hbackslash =>
      rw [List.singleton_append, pieces.eq_5 _ _ hquote (fun _ _ _ _ _ h => absurd h hbackslash)
        (fun _ _ h => absurd h hbackslash), if_neg (not_or.mpr ⟨Nat.not_lt.mpr hcontrol, hbackslash⟩)]
      cases pieces rest <;> rfl
  | letter h =>
      obtain ⟨hescaped, hu⟩ := escaped?_of_mem_letters h
      rw [List.cons_append, List.singleton_append, pieces.eq_4 _ _ (fun _ _ _ _ _ h => absurd h hu), hescaped]
      cases pieces rest <;> rfl
  | @unit a b c d i j k l ha hb hc hd =>
      have hunit : hexUnit? a b c d = some (((i * 16 + j) * 16 + k) * 16 + l) := by
        simp only [hexUnit?, (digit?_of_mem_hexDigits ha).1, (digit?_of_mem_hexDigits hb).1,
          (digit?_of_mem_hexDigits hc).1, (digit?_of_mem_hexDigits hd).1, Option.bind_eq_bind, Option.bind_some,
          Option.pure_def, Option.some.injEq]
        omega
      rw [List.cons_append, List.cons_append, List.cons_append, List.cons_append, List.cons_append,
        List.singleton_append, pieces.eq_3, hunit]
      cases pieces rest <;> rfl

theorem pieces_spellings (h : Spellings s ps) : pieces (s ++ '"' :: rest) = some (ps, rest) := by
  induction h with
  | nil => rfl
  | cons h ht ih => rw [List.append_assoc, pieces_spelling h, ih, Option.map_some]

/-! ## Characters -/

theorem characters?_unit (hhigh : isHighHalf n = false) (hlow : isLowHalf n = false) :
    characters? (.unit n :: ps) = (characters? ps).map (Char.ofNat n :: ·) := by
  rcases ps with _ | ⟨_ | m, ps⟩ <;> simp [characters?, hhigh, hlow]

theorem isHalf_eq_false (hn : n.isValidChar) : isHighHalf n = false ∧ isLowHalf n = false := by
  simp only [Nat.isValidChar] at hn
  simp only [isHighHalf, isLowHalf, Bool.and_eq_false_iff, decide_eq_false_iff_not]
  omega

theorem characters?_of_encodes (h : Encodes ps cs) : characters? ps = some cs := by
  induction h with
  | nil => rfl
  | char c h ih => rw [characters?, ih, Option.map_some]
  | @unit c hc ps cs h ih =>
      obtain ⟨hhigh, hlow⟩ := isHalf_eq_false (n := c.toNat) c.valid
      rw [characters?_unit hhigh hlow, ih, Option.map_some, Char.ofNat_toNat]
  | @pair c hc ps cs h ih =>
      have hvalid : c.toNat.isValidChar := c.valid
      simp only [Nat.isValidChar] at hvalid
      have hpair : isHighHalf (0xD800 + (c.toNat - 0x10000) / 0x400) = true ∧
          isLowHalf (0xDC00 + (c.toNat - 0x10000) % 0x400) = true := by
        simp only [isHighHalf, isLowHalf, Bool.and_eq_true, decide_eq_true_eq]
        omega
      have hchar : 0x10000 + (0xD800 + (c.toNat - 0x10000) / 0x400 - 0xD800) * 0x400 +
          (0xDC00 + (c.toNat - 0x10000) % 0x400 - 0xDC00) = c.toNat := by omega
      rw [characters?, if_pos (by rw [hpair.1, hpair.2]; rfl), ih, Option.map_some, hchar, Char.ofNat_toNat]

theorem toNat_ofNat (hn : n.isValidChar) : (Char.ofNat n).toNat = n := by
  rw [Char.ofNat, dif_pos hn]
  rfl

theorem Encodes.unit_ofNat (hhalf : ¬ (isHighHalf n || isLowHalf n) = true) (hn : n < 0x10000) (h : Encodes ps cs) :
    Encodes (.unit n :: ps) (Char.ofNat n :: cs) := by
  have hvalid : n.isValidChar := by
    simp only [isHighHalf, isLowHalf, Bool.or_eq_true, Bool.and_eq_true, decide_eq_true_eq] at hhalf
    simp only [Nat.isValidChar]
    omega
  have hunit := Encodes.unit (c := Char.ofNat n) (by rwa [toNat_ofNat hvalid]) h
  rwa [toNat_ofNat hvalid] at hunit

theorem Encodes.pair_ofNat {m k : Nat} (hpair : (isHighHalf n && isLowHalf m) = true)
    (hk : k = 0x10000 + (n - 0xD800) * 0x400 + (m - 0xDC00)) (h : Encodes ps cs) :
    Encodes (.unit n :: .unit m :: ps) (Char.ofNat k :: cs) := by
  simp only [isHighHalf, isLowHalf, Bool.and_eq_true, decide_eq_true_eq] at hpair
  have hvalid : k.isValidChar := by
    simp only [Nat.isValidChar]
    omega
  have hhigh : 0xD800 + (k - 0x10000) / 0x400 = n := by omega
  have hlow : 0xDC00 + (k - 0x10000) % 0x400 = m := by omega
  have hchar := Encodes.pair (c := Char.ofNat k) (by rw [toNat_ofNat hvalid]; omega) h
  rwa [toNat_ofNat hvalid, hhigh, hlow] at hchar

theorem encodes_of_characters? (hps : ∀ n, .unit n ∈ ps → n < 0x10000) (h : characters? ps = some cs) :
    Encodes ps cs := by
  fun_induction characters? ps generalizing cs with
  | case1 =>
      cases h
      exact .nil
  | case2 c rest ih =>
      obtain ⟨cs, hcs, rfl⟩ := Option.map_eq_some_iff.mp h
      exact .char c (ih (fun n hn => hps n (List.mem_cons_of_mem _ hn)) hcs)
  | case3 n m rest hpair ih =>
      obtain ⟨cs, hcs, rfl⟩ := Option.map_eq_some_iff.mp h
      exact .pair_ofNat hpair rfl (ih (fun n hn => hps n (List.mem_cons_of_mem _ (List.mem_cons_of_mem _ hn))) hcs)
  | case5 n m rest hpair hhalf ih =>
      obtain ⟨cs, hcs, rfl⟩ := Option.map_eq_some_iff.mp h
      exact .unit_ofNat hhalf (hps n List.mem_cons_self) (ih (fun n hn => hps n (List.mem_cons_of_mem _ hn)) hcs)
  | case7 n rest hrest hhalf ih =>
      obtain ⟨cs, hcs, rfl⟩ := Option.map_eq_some_iff.mp h
      exact .unit_ofNat hhalf (hps n List.mem_cons_self) (ih (fun n hn => hps n (List.mem_cons_of_mem _ hn)) hcs)
  | case4 | case6 => cases h

theorem Spelling.unit_lt (h : Spelling s (.unit n)) : n < 0x10000 := by
  cases h with
  | unit ha hb hc hd =>
      have hi := (digit?_of_mem_hexDigits ha).2
      have hj := (digit?_of_mem_hexDigits hb).2
      have hk := (digit?_of_mem_hexDigits hc).2
      have hl := (digit?_of_mem_hexDigits hd).2
      omega

theorem Spellings.unit_lt (h : Spellings s ps) : ∀ n, .unit n ∈ ps → n < 0x10000 := by
  induction h with
  | nil => exact nofun
  | cons h ht ih =>
      intro n hn
      rcases List.mem_cons.mp hn with rfl | hn
      · exact h.unit_lt
      · exact ih n hn

theorem string_spellings (h : Spellings s ps) :
    string (s ++ '"' :: rest) = some ((characters? ps).map String.ofList, rest) := by
  rw [string, pieces_spellings h]
  rfl

/-- A quoted string is read up to its closing quote. -/
theorem string_quoted {name : Option String} (h : Quoted s name) :
    ∃ t, s = '"' :: t ∧ ∀ rest, string (t ++ rest) = some (name, rest) := by
  cases h with
  | @known s ps str hs h =>
      refine ⟨s ++ ['"'], rfl, fun rest => ?_⟩
      rw [List.append_assoc, List.singleton_append, string_spellings hs, characters?_of_encodes h, Option.map_some,
        String.ofList_toList]
  | @unknown s ps hs h =>
      refine ⟨s ++ ['"'], rfl, fun rest => ?_⟩
      have hnone : characters? ps = none :=
        Option.eq_none_iff_forall_ne_some.mpr fun cs hcs => h cs (encodes_of_characters? hs.unit_lt hcs)
      rw [List.append_assoc, List.singleton_append, string_spellings hs, hnone, Option.map_none]

/-! ## Writing -/

theorem digit_mem_hexDigits (hn : n < 16) : (Hexadecimal.digit n, n) ∈ hexDigits :=
  (by decide : ∀ m < 16, (Hexadecimal.digit m, m) ∈ hexDigits) n hn

theorem spelling_escape (c : Char) :
    Spelling (escape c) (.char c) ∨ Spelling (escape c) (.unit c.toNat) ∧ c.toNat < 0x10000 := by
  unfold escape
  split
  case h_8 hquote hbackslash _ _ _ _ _ =>
    split
    case isTrue hcontrol =>
      have hzero : ('0', 0) ∈ hexDigits := by decide
      have hunit := Spelling.unit hzero hzero (digit_mem_hexDigits (n := c.toNat / 16) (by omega))
        (digit_mem_hexDigits (n := c.toNat % 16) (by omega))
      have hvalue : ((0 * 16 + 0) * 16 + c.toNat / 16) * 16 + c.toNat % 16 = c.toNat := by omega
      rw [hvalue] at hunit
      exact .inr ⟨hunit, by omega⟩
    case isFalse hcontrol => exact .inl (.plain (Nat.not_lt.mp hcontrol) hquote hbackslash)
  all_goals exact .inl (.letter (by decide))

theorem quoted_quote (str : String) : Quoted (quote str.toList) (some str) := by
  have hall : ∀ cs : List Char, ∃ ps, Spellings (cs.flatMap escape) ps ∧ Encodes ps cs := by
    intro cs
    induction cs with
    | nil => exact ⟨[], .nil, .nil⟩
    | cons c cs ih =>
        obtain ⟨ps, hs, hps⟩ := ih
        rw [List.flatMap_cons]
        rcases spelling_escape c with h | ⟨h, hc⟩
        · exact ⟨_, .cons h hs, .char c hps⟩
        · exact ⟨_, .cons h hs, .unit hc hps⟩
  obtain ⟨ps, hs, hps⟩ := hall str.toList
  exact .known hs hps

end Framecast.Json
