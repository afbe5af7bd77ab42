import Framecast.Proofs.Json.Numbers
import Framecast.Proofs.Json.Strings

/-!
# The text of a value

The grammar of JSON: `Written s v` says that `s` is a text for `v`, with any blanks around it and between its parts.
The reader takes every such text for the value (`parse_written`), and the writer uses one of them
(`written_record` and the lemmas beside it).
-/

namespace Framecast.Json

/-! ## The rules -/

/-- Characters that may stand between two parts of a value. -/
def Blanks (s : List Char) : Prop := ∀ c ∈ s, c ∈ [' ', '\n', '\r', '\t']

/-- The name of a member with the blanks around it. -/
inductive Name : List Char → Option String → Prop
  | mk {before s after : List Char} {name : Option String} (hbefore : Blanks before) (h : Quoted s name)
    (hafter : Blanks after) : Name (before ++ s ++ after) name

mutual

/-- The text of a value. -/
inductive Written : List Char → Value → Prop
  | null : Written "null".toList .null
  | true : Written "true".toList (.boolean true)
  | false : Written "false".toList (.boolean false)
  | number {s : List Char} {n : Number} (h : NumberText s n) : Written s (.number n)
  | string {s : List Char} {str : Option String} (h : Quoted s str) : Written s (.string str)
  | emptyArray {s : List Char} (h : Blanks s) : Written ('[' :: s ++ [']']) (.array [])
  | array {s : List Char} {items : List Value} (h : Items s items) : Written ('[' :: s ++ [']']) (.array items)
  | emptyObject {s : List Char} (h : Blanks s) : Written ('\x7b' :: s ++ ['\x7d']) (.object [])
  | object {s : List Char} {found : List (Option String × Value)} (h : Members s found) :
    Written ('\x7b' :: s ++ ['\x7d']) (.object found)
  | blanks {before s after : List Char} {v : Value} (hbefore : Blanks before) (h : Written s v)
    (hafter : Blanks after) : Written (before ++ s ++ after) v

/-- The elements of an array with commas between them. -/
inductive Items : List Char → List Value → Prop
  | last {s : List Char} {v : Value} (h : Written s v) : Items s [v]
  | cons {s t : List Char} {v : Value} {vs : List Value} (h : Written s v) (ht : Items t vs) :
    Items (s ++ ',' :: t) (v :: vs)

/-- The members of an object with commas between them. -/
inductive Members : List Char → List (Option String × Value) → Prop
  | last {k s : List Char} {name : Option String} {v : Value} (hk : Name k name) (h : Written s v) :
    Members (k ++ ':' :: s) [(name, v)]
  | cons {k s t : List Char} {name : Option String} {v : Value} {more : List (Option String × Value)}
    (hk : Name k name) (h : Written s v) (ht : Members t more) :
    Members (k ++ ':' :: (s ++ ',' :: t)) ((name, v) :: more)

end

variable {s t rest : List Char} {v : Value} {name : Option String} {fuel : Nat} {c : Char}

-- The readers open by their equations, made once here for all the lemmas about one step.
attribute [local simp] value elements members

/-! ## Blanks -/

theorem isBlank_iff : isBlank c = true ↔ c ∈ [' ', '\n', '\r', '\t'] := by
  simp [isBlank, or_assoc]

theorem skipBlanks_append (h : Blanks s) : skipBlanks (s ++ rest) = skipBlanks rest :=
  List.dropWhile_append_of_pos fun c hc => isBlank_iff.mpr (h c hc)

theorem skipBlanks_cons (h : c ∉ [' ', '\n', '\r', '\t']) : skipBlanks (c :: rest) = c :: rest :=
  List.dropWhile_cons_of_neg fun hc => h (isBlank_iff.mp hc)

theorem Blanks.nil : Blanks [] := nofun

/-- Blanks end a number. -/
theorem Ended.append (h : Ended rest) (hs : Blanks s) : Ended (s ++ rest) := by
  rcases s with _ | ⟨c, s⟩
  · exact h
  · intro d hd
    cases hd
    have hc := hs c List.mem_cons_self
    simp only [List.mem_cons, List.not_mem_nil, or_false] at hc
    rcases hc with rfl | rfl | rfl | rfl
    all_goals decide

theorem value_blanks (h : Blanks s) : value fuel (s ++ rest) = value fuel rest := by
  cases fuel with
  | zero => rfl
  | succ fuel => rw [value.eq_2, value.eq_2, skipBlanks_append h]

/-! ## Reading one part -/

theorem NumberText.head {n : Number} (h : NumberText s n) : ∃ c t, s = c :: t ∧ (c.isDigit = true ∨ c = '-') := by
  have hwhole : ∀ {s : List Char} {n : Nat}, Whole s n → ∃ c t, s = c :: t ∧ (c.isDigit = true ∨ c = '-') := by
    intro s n h
    obtain ⟨c, t, rfl⟩ := List.exists_cons_of_ne_nil h.ne_nil
    exact ⟨c, t, rfl, .inl (h.digits c List.mem_cons_self)⟩
  cases h with
  | natural h => exact hwhole h
  | negative h hn => exact ⟨_, _, rfl, .inr rfl⟩
  | minusZero h => exact ⟨_, _, rfl, .inr rfl⟩
  | real hsign h hf he hne =>
      rw [List.mem_cons, List.mem_singleton] at hsign
      rcases hsign with rfl | rfl
      · obtain ⟨c, t, rfl, hc⟩ := hwhole h
        exact ⟨c, _, rfl, hc⟩
      · exact ⟨_, _, rfl, .inr rfl⟩

theorem value_number {n : Number} (h : NumberText s n) (hrest : Ended rest) :
    value (fuel + 1) (s ++ rest) = some (.number n, rest) := by
  have hread := number_append h hrest
  obtain ⟨c, t, rfl, hc⟩ := h.head
  have hother : ∀ d ∈ [' ', '\n', '\r', '\t', 'n', 't', 'f', '"', '[', '\x7b'], c ≠ d := by
    have hall : [' ', '\n', '\r', '\t', 'n', 't', 'f', '"', '[', '\x7b'].all (fun d => !d.isDigit && d != '-') := by
      decide
    rintro d hd rfl
    have hd := List.all_eq_true.mp hall c hd
    rcases hc with hc | rfl
    · rw [hc] at hd
      cases hd
    · cases hd
  simp only [List.forall_mem_cons] at hother
  rw [List.cons_append] at hread ⊢
  rw [value.eq_2, skipBlanks_cons (by simp [hother])]
  split
  case h_7 => rw [hread]; rfl
  all_goals simp_all

theorem value_string (h : Quoted s name) : value (fuel + 1) (s ++ rest) = some (.string name, rest) := by
  obtain ⟨t, rfl, ht⟩ := string_quoted h
  rw [value.eq_2, List.cons_append, skipBlanks_cons (by decide)]
  simp only [ht, Option.map_some]

/-- A closing character behind blanks. -/
theorem skipBlanks_close (h : Blanks s) (hc : c ∉ [' ', '\n', '\r', '\t']) :
    skipBlanks (s ++ [c] ++ rest) = c :: rest := by
  rw [List.append_assoc, skipBlanks_append h, List.singleton_append, skipBlanks_cons hc]

theorem value_emptyArray (h : Blanks s) : value (fuel + 1) ('[' :: s ++ [']'] ++ rest) = some (.array [], rest) := by
  rw [value.eq_2, List.cons_append, List.cons_append, skipBlanks_cons (by decide)]
  simp only [skipBlanks_close h (c := ']') (by decide)]

theorem value_emptyObject (h : Blanks s) :
    value (fuel + 1) ('\x7b' :: s ++ ['\x7d'] ++ rest) = some (.object [], rest) := by
  rw [value.eq_2, List.cons_append, List.cons_append, skipBlanks_cons (by decide)]
  simp only [skipBlanks_close h (c := '\x7d') (by decide)]

theorem elements_last (hv : value fuel s = some (v, t)) (ht : skipBlanks t = ']' :: rest) :
    elements (fuel + 1) s = some ([v], rest) := by
  simp [hv, ht]

theorem elements_cons {r : List Char} {vs : List Value} (hv : value fuel s = some (v, t))
    (ht : skipBlanks t = ',' :: r) (hr : elements fuel r = some (vs, rest)) :
    elements (fuel + 1) s = some (v :: vs, rest) := by
  simp [hv, ht, hr]

/-- The value of an array does not start with the bracket that closes one. -/
theorem elements_head {items : List Value} (h : elements fuel s = some (items, rest)) :
    skipBlanks s ≠ ']' :: t := by
  intro hs
  have hnone : ∀ fuel, value fuel s = none := by
    intro fuel
    cases fuel with
    | zero => rfl
    | succ fuel => rw [value.eq_2, hs]; rfl
  cases fuel with
  | zero => cases h
  | succ fuel =>
      rw [elements.eq_2, hnone] at h
      cases h

theorem members_head {found : List (Option String × Value)} (h : members fuel s = some (found, rest)) :
    skipBlanks s ≠ '\x7d' :: t := by
  intro hs
  cases fuel with
  | zero => cases h
  | succ fuel =>
      rw [members.eq_2, hs] at h
      cases h

theorem value_array {items : List Value} (h : elements fuel s = some (items, rest)) :
    value (fuel + 1) ('[' :: s) = some (.array items, rest) := by
  rw [value.eq_2, skipBlanks_cons (by decide)]
  simp only
  split
  · rename_i hclose
    exact absurd hclose (elements_head h)
  · rw [h]
    rfl

theorem value_object {found : List (Option String × Value)} (h : members fuel s = some (found, rest)) :
    value (fuel + 1) ('\x7b' :: s) = some (.object found, rest) := by
  rw [value.eq_2, skipBlanks_cons (by decide)]
  simp only
  split
  · rename_i hclose
    exact absurd hclose (members_head h)
  · rw [h]
    rfl

/-- What a reader finds at a member: its name, and its value behind the colon. -/
theorem string_name {k : List Char} (h : Name k name) (rest : List Char) :
    ∃ q r, skipBlanks (k ++ ':' :: rest) = '"' :: q ∧ string q = some (name, r) ∧ skipBlanks r = ':' :: rest := by
  cases h with
  | @mk before s after name hbefore h hafter =>
      obtain ⟨t, rfl, ht⟩ := string_quoted h
      refine ⟨t ++ (after ++ ':' :: rest), after ++ ':' :: rest, ?_, ht _, ?_⟩
      · rw [List.append_assoc, List.append_assoc, skipBlanks_append hbefore]
        exact skipBlanks_cons (by decide)
      · rw [skipBlanks_append hafter]
        exact skipBlanks_cons (by decide)

theorem members_last {k : List Char} (hk : Name k name) (hv : value fuel s = some (v, t))
    (ht : skipBlanks t = '\x7d' :: rest) : members (fuel + 1) (k ++ ':' :: s) = some ([(name, v)], rest) := by
  obtain ⟨q, r, hq, hname, hr⟩ := string_name hk s
  simp [hq, hname, hr, hv, ht]

theorem members_cons {k r : List Char} {more : List (Option String × Value)} (hk : Name k name)
    (hv : value fuel s = some (v, t)) (ht : skipBlanks t = ',' :: r) (hr : members fuel r = some (more, rest)) :
    members (fuel + 1) (k ++ ':' :: s) = some ((name, v) :: more, rest) := by
  obtain ⟨q, u, hq, hname, hu⟩ := string_name hk s
  simp [hq, hname, hu, hv, ht, hr]

/-! ## Reading a whole value

A text of so many characters is read within twice as many steps, and lists take one more for each element. What is left
afterwards may still start with the blanks behind the value. -/

theorem ended_cons (hc : c.isDigit = false ∧ c ∉ ['.', 'e', 'E']) : Ended (c :: rest) := by
  intro d hd
  cases hd
  exact hc

mutual

theorem value_written {s : List Char} {v : Value} (h : Written s v) (fuel : Nat) (rest : List Char)
    (hfuel : 2 * s.length < fuel) (hrest : Ended rest) :
    ∃ r, value fuel (s ++ rest) = some (v, r) ∧ skipBlanks r = skipBlanks rest := by
  obtain ⟨fuel, rfl⟩ := Nat.exists_eq_add_one.mpr (Nat.zero_lt_of_lt hfuel)
  match h with
  | .null => exact ⟨rest, rfl, rfl⟩
  | .true => exact ⟨rest, rfl, rfl⟩
  | .false => exact ⟨rest, rfl, rfl⟩
  | .number h => exact ⟨rest, value_number h hrest, rfl⟩
  | .string h => exact ⟨rest, value_string h, rfl⟩
  | .emptyArray h => exact ⟨rest, value_emptyArray h, rfl⟩
  | .emptyObject h => exact ⟨rest, value_emptyObject h, rfl⟩
  | @Written.array s items h =>
      simp only [List.length_append, List.length_cons, List.length_nil] at hfuel
      have hitems := elements_items h fuel rest (by omega)
      refine ⟨rest, ?_, rfl⟩
      rw [List.append_assoc]
      exact value_array hitems
  | @Written.object s found h =>
      simp only [List.length_append, List.length_cons, List.length_nil] at hfuel
      have hmembers := members_members h fuel rest (by omega)
      refine ⟨rest, ?_, rfl⟩
      rw [List.append_assoc]
      exact value_object hmembers
  | @Written.blanks before s after v hbefore h hafter =>
      simp only [List.length_append] at hfuel
      obtain ⟨r, hv, hr⟩ := value_written h (fuel + 1) (after ++ rest) (by omega) (hrest.append hafter)
      refine ⟨r, ?_, ?_⟩
      · rw [List.append_assoc, List.append_assoc, value_blanks hbefore, hv]
      · rw [hr, skipBlanks_append hafter]

theorem elements_items {s : List Char} {items : List Value} (h : Items s items) (fuel : Nat) (rest : List Char)
    (hfuel : 2 * s.length + 1 < fuel) :
    elements fuel (s ++ ']' :: rest) = some (items, rest) := by
  obtain ⟨fuel, rfl⟩ := Nat.exists_eq_add_one.mpr (Nat.zero_lt_of_lt hfuel)
  match h with
  | .last h =>
      obtain ⟨r, hv, hr⟩ := value_written h fuel (']' :: rest) (by omega) (ended_cons (by decide))
      exact elements_last hv (hr.trans (skipBlanks_cons (by decide)))
  | @Items.cons s t v vs h ht =>
      simp only [List.length_append, List.length_cons] at hfuel
      obtain ⟨r, hv, hr⟩ := value_written h fuel (',' :: (t ++ ']' :: rest)) (by omega) (ended_cons (by decide))
      have hmore := elements_items ht fuel rest (by omega)
      rw [List.append_assoc]
      exact elements_cons hv (hr.trans (skipBlanks_cons (by decide))) hmore

theorem members_members {s : List Char} {found : List (Option String × Value)} (h : Members s found) (fuel : Nat)
    (rest : List Char) (hfuel : 2 * s.length + 1 < fuel) : members fuel (s ++ '\x7d' :: rest) = some (found, rest) := by
  obtain ⟨fuel, rfl⟩ := Nat.exists_eq_add_one.mpr (Nat.zero_lt_of_lt hfuel)
  match h with
  | @Members.last k s name v hk h =>
      simp only [List.length_append, List.length_cons] at hfuel
      obtain ⟨r, hv, hr⟩ := value_written h fuel ('\x7d' :: rest) (by omega) (ended_cons (by decide))
      rw [List.append_assoc]
      exact members_last hk hv (hr.trans (skipBlanks_cons (by decide)))
  | @Members.cons k s t name v more hk h ht =>
      simp only [List.length_append, List.length_cons] at hfuel
      obtain ⟨r, hv, hr⟩ := value_written h fuel (',' :: (t ++ '\x7d' :: rest)) (by omega) (ended_cons (by decide))
      have hmore := members_members ht fuel rest (by omega)
      rw [List.append_assoc, List.cons_append, List.append_assoc]
      exact members_cons hk hv (hr.trans (skipBlanks_cons (by decide))) hmore

end

/-- A text of a value stands for it. -/
theorem parse_written {text : String} (h : Written text.toList v) : parse text = some v := by
  obtain ⟨r, hv, hr⟩ := value_written h (2 * text.toList.length + 2) [] (by omega) nofun
  rw [List.append_nil] at hv
  simp only [parse, hv, hr]
  rfl

/-! ## Writing -/

theorem written_integer (n : Int) : Written (render (.integer n)) (.integer n) := by
  rw [Value.integer, render]
  exact .number (numberText_renderInt n)

theorem written_boolean (b : Bool) : Written (render (.boolean b)) (.boolean b) := by
  cases b
  · exact .false
  · exact .true

theorem written_text (str : String) : Written (render (.text str)) (.text str) := by
  rw [Value.text, render]
  exact .string (quoted_quote str)

theorem Name.of_quoted (h : Quoted s name) : Name s name := by
  have hname := Name.mk .nil h .nil
  rwa [List.nil_append, List.append_nil] at hname

theorem members_renderMembers {found : List (Option String × Value)} (hne : found ≠ [])
    (h : ∀ m ∈ found, Name (quote (m.1.getD "").toList) m.1 ∧ Written (render m.2) m.2) :
    Members (renderMembers found) found := by
  induction found with
  | nil => exact absurd rfl hne
  | cons m found ih =>
      obtain ⟨hname, hvalue⟩ := h m List.mem_cons_self
      rcases found with _ | ⟨next, found⟩
      · exact .last hname hvalue
      · have hmore := ih (List.cons_ne_nil _ _) fun m hm => h m (List.mem_cons_of_mem _ hm)
        rw [renderMembers.eq_3 _ _ _ (List.cons_ne_nil _ _), List.append_assoc, List.cons_append]
        exact .cons hname hvalue hmore

/-- The writer writes a record by the rules if it writes the values in it so. -/
theorem written_record (fields : List (String × Value)) (h : ∀ m ∈ fields, Written (render m.2) m.2) :
    Written (render (.record fields)) (.record fields) := by
  rw [Value.record, render]
  by_cases hnil : fields = []
  · subst hnil
    exact .emptyObject .nil
  · refine .object (members_renderMembers (by simpa using hnil) fun m hm => ?_)
    obtain ⟨⟨name, v⟩, hmem, rfl⟩ := List.mem_map.mp hm
    exact ⟨.of_quoted (quoted_quote name), h (name, v) hmem⟩

end Framecast.Json
