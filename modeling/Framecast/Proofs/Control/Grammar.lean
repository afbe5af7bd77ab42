import Framecast.Control.Command
import Framecast.Proofs.Number.Literal

/-!
# The grammar of control lines

A line that controls the program is a phrase with blanks around it. The phrases are written here as syntax: what each
one looks like and which command it denotes. `ControlCommand.parse` reads exactly the phrases, and a line is one phrase
at most, although the character between two coordinates is also a sign.
-/

namespace Framecast

namespace Text

theorem isBlank_of_unsigned {s : List Char} {n : Nat} (h : Decimal.Unsigned s n) {c : Char} (hc : c ∈ s) :
    isBlank c = false := by
  rcases h.mem hc with hdigit | rfl
  · exact isBlank_of_isDigit hdigit
  · decide

theorem isBlank_of_signed {s : List Char} {i : Int} (h : Decimal.Signed s i) {c : Char} (hc : c ∈ s) :
    isBlank c = false := by
  rcases h.mem hc with hdigit | rfl | rfl
  · exact isBlank_of_isDigit hdigit
  · decide
  · decide

theorem isBlank_of_all {s : List Char} (h : (s.all fun c => !isBlank c) = true) : ∀ c ∈ s, isBlank c = false := by
  simpa using h

theorem isBlank_append_cons {x y : List Char} {s : Char} (hx : ∀ c ∈ x, isBlank c = false) (hs : isBlank s = false)
    (hy : ∀ c ∈ y, isBlank c = false) : ∀ c ∈ x ++ s :: y, isBlank c = false := by
  simp only [List.mem_append, List.mem_cons]
  rintro c (hc | rfl | hc)
  · exact hx c hc
  · exact hs
  · exact hy c hc

end Text

theorem NavKey.word_of_ofWord? {word : String} {k : NavKey} (h : NavKey.ofWord? word = some k) : k.word = word := by
  rw [NavKey.ofWord?] at h
  have hword := List.find?_some h
  exact eq_of_beq hword

namespace ControlCommand

/-! ## Phrases -/

inductive Gesture where
  | press
  | move
  | release

namespace Gesture

def word : Gesture → String
  | press => "press"
  | move => "move"
  | release => "release"

def command : Gesture → Point → ControlCommand
  | press => .press
  | move => .move
  | release => .release

end Gesture

/-- A line without the blanks around it, taken apart. -/
inductive Phrase where
  | quit
  | key (k : NavKey)
  | point (g : Gesture) (x y : List Char)
  | resize (width height : List Char)

def written (word : String) (arguments : List Char) : List Char := word.toList ++ '=' :: arguments

namespace Phrase

def text : Phrase → List Char
  | quit => "quit".toList
  | key k => k.word.toList
  | point g x y => written g.word (x ++ '-' :: y)
  | resize width height => written "resize" (width ++ 'x' :: height)

/-- The command of a phrase whose arguments are literals in range. -/
inductive Denotes : Phrase → ControlCommand → Prop
  | quit : Denotes .quit .quit
  | key (k : NavKey) : Denotes (.key k) (.key k)
  | point (g : Gesture) {x y : List Char} {p : Point} (hx : Decimal.Signed x p.x) (hx' : Coordinate.InRange p.x)
      (hy : Decimal.Signed y p.y) (hy' : Coordinate.InRange p.y) : Denotes (.point g x y) (g.command p)
  | resize {width height : List Char} {w h : Nat} (hw : Decimal.Unsigned width w) (hw' : w < 4294967296)
      (hh : Decimal.Unsigned height h) (hh' : h < 4294967296) : Denotes (.resize width height) (.resize w h)

def Reads (p : Phrase) (line : List Char) : Prop :=
  ∃ before after : List Char, line = before ++ p.text ++ after ∧
    (∀ c ∈ before, Text.isBlank c = true) ∧ ∀ c ∈ after, Text.isBlank c = true

end Phrase

/-! ## Arguments -/

/-- The minus between two coordinates is the first one behind the first character. -/
theorem parsePoint_append {x y : List Char} {i : Int} (hx : Decimal.Signed x i) :
    parsePoint (x ++ '-' :: y) = (do return ⟨← Decimal.coordinate? x, ← Decimal.coordinate? y⟩) := by
  cases x with
  | nil => exact absurd rfl hx.ne_nil
  | cons c rest =>
      rw [List.cons_append, parsePoint, splitFirst?_append hx.notMem_tail]
      rfl

theorem parsePoint_eq_some_iff {s : List Char} {p : Point} :
    parsePoint s = some p ↔ ∃ x y, s = x ++ '-' :: y ∧ (Decimal.Signed x p.x ∧ Coordinate.InRange p.x) ∧
      Decimal.Signed y p.y ∧ Coordinate.InRange p.y := by
  constructor
  · intro h
    cases s with
    | nil => cases h
    | cons c rest =>
        simp only [parsePoint, Option.bind_eq_bind, Option.bind_eq_some_iff, Option.pure_def, Option.some.injEq,
          Prod.exists] at h
        obtain ⟨before, after, hsplit, x, hx, y, hy, rfl⟩ := h
        obtain ⟨rfl, -⟩ := eq_append_of_splitFirst? hsplit
        exact ⟨c :: before, after, rfl, Decimal.coordinate?_eq_some_iff.mp hx, Decimal.coordinate?_eq_some_iff.mp hy⟩
  · rintro ⟨x, y, rfl, hx, hy⟩
    rw [parsePoint_append hx.1, Decimal.coordinate?_eq_some_iff.mpr hx, Decimal.coordinate?_eq_some_iff.mpr hy]
    rfl

theorem parseSize_eq_some_iff {s : List Char} {w h : Nat} :
    parseSize s = some (w, h) ↔ ∃ width height, s = width ++ 'x' :: height ∧
      (Decimal.Unsigned width w ∧ w < 4294967296) ∧ Decimal.Unsigned height h ∧ h < 4294967296 := by
  constructor
  · intro hs
    simp only [parseSize, Option.bind_eq_bind, Option.bind_eq_some_iff, Option.pure_def, Option.some.injEq,
      Prod.exists, Prod.mk.injEq] at hs
    obtain ⟨width, height, hsplit, _, hw, _, hh, rfl, rfl⟩ := hs
    obtain ⟨rfl, -⟩ := eq_append_of_splitFirst? hsplit
    exact ⟨width, height, rfl, Decimal.unsigned32?_eq_some_iff.mp hw, Decimal.unsigned32?_eq_some_iff.mp hh⟩
  · rintro ⟨width, height, rfl, hw, hh⟩
    rw [parseSize, splitFirst?_append hw.1.notMem]
    simp only [Option.bind_eq_bind, Option.bind_some, Decimal.unsigned32?_eq_some_iff.mpr hw,
      Decimal.unsigned32?_eq_some_iff.mpr hh, Option.pure_def]

/-! ## Lines -/

theorem notMem_word (g : Gesture) : '=' ∉ g.word.toList := by
  cases g <;> decide

theorem ofArguments_word (g : Gesture) (arguments : List Char) :
    ofArguments g.word.toList arguments = (parsePoint arguments).map g.command := by
  cases g <;> rfl

namespace Phrase

variable {p p' : Phrase} {c c' : ControlCommand} {line : List Char}

theorem Denotes.isBlank (h : p.Denotes c) : ∀ d ∈ p.text, Text.isBlank d = false := by
  cases h with
  | quit => exact Text.isBlank_of_all rfl
  | key k => exact Text.isBlank_of_all (by cases k <;> rfl)
  | point g hx _ hy _ =>
      have harguments := Text.isBlank_append_cons (s := '-') (fun _ => Text.isBlank_of_signed hx) (by decide)
        fun _ => Text.isBlank_of_signed hy
      exact Text.isBlank_append_cons (Text.isBlank_of_all (by cases g <;> rfl)) (by decide) harguments
  | resize hw _ hh _ =>
      have harguments := Text.isBlank_append_cons (s := 'x') (fun _ => Text.isBlank_of_unsigned hw) (by decide)
        fun _ => Text.isBlank_of_unsigned hh
      exact Text.isBlank_append_cons (Text.isBlank_of_all rfl) (by decide) harguments

theorem Reads.trim_eq (h : p.Reads line) (hp : p.Denotes c) : Text.trim line = p.text := by
  obtain ⟨before, after, rfl, hbefore, hafter⟩ := h
  exact Text.trim_append hbefore hp.isBlank hafter

end Phrase

variable {p p' : Phrase} {c c' : ControlCommand} {line : String}

theorem exists_phrase_of_ofWord {word : List Char} (h : ofWord word = some c) :
    ∃ p : Phrase, p.text = word ∧ p.Denotes c := by
  unfold ofWord at h
  split at h
  · rename_i hword
    cases h
    exact ⟨.quit, by rw [Phrase.text, ← hword, String.toList_ofList], .quit⟩
  · obtain ⟨k, hk, rfl⟩ := Option.map_eq_some_iff.mp h
    have hword : k.word = String.ofList word := NavKey.word_of_ofWord? hk
    exact ⟨.key k, by rw [Phrase.text, hword, String.toList_ofList], .key k⟩

theorem exists_phrase_of_point {arguments : List Char} (g : Gesture)
    (h : (parsePoint arguments).map g.command = some c) :
    ∃ p : Phrase, p.text = g.word.toList ++ '=' :: arguments ∧ p.Denotes c := by
  obtain ⟨q, hq, rfl⟩ := Option.map_eq_some_iff.mp h
  obtain ⟨x, y, rfl, ⟨hx, hx'⟩, hy, hy'⟩ := parsePoint_eq_some_iff.mp hq
  exact ⟨.point g x y, rfl, .point g hx hx' hy hy'⟩

theorem exists_phrase_of_ofArguments {word arguments : List Char} (h : ofArguments word arguments = some c) :
    ∃ p : Phrase, p.text = word ++ '=' :: arguments ∧ p.Denotes c := by
  have htoList : ∀ {s : String}, String.ofList word = s → word = s.toList := fun hs => by
    rw [← hs, String.toList_ofList]
  unfold ofArguments at h
  split at h
  case h_1 hword =>
    obtain ⟨⟨w, h'⟩, hsize, rfl⟩ := Option.map_eq_some_iff.mp h
    obtain ⟨width, height, rfl, ⟨hw, hw'⟩, hh, hh'⟩ := parseSize_eq_some_iff.mp hsize
    rw [htoList hword]
    exact ⟨.resize width height, rfl, .resize hw hw' hh hh'⟩
  case h_2 hword =>
    rw [htoList hword]
    exact exists_phrase_of_point .press h
  case h_3 hword =>
    rw [htoList hword]
    exact exists_phrase_of_point .move h
  case h_4 hword =>
    rw [htoList hword]
    exact exists_phrase_of_point .release h
  case h_5 => cases h

theorem exists_phrase_of_parse (h : parse line = some c) : ∃ p : Phrase, p.Reads line.toList ∧ p.Denotes c := by
  have hphrase : ∃ p : Phrase, p.text = Text.trim line.toList ∧ p.Denotes c := by
    simp only [parse] at h
    split at h
    · rename_i hsplit
      rw [(eq_append_of_splitFirst? hsplit).1]
      exact exists_phrase_of_ofArguments h
    · exact exists_phrase_of_ofWord h
  obtain ⟨p, htext, hp⟩ := hphrase
  obtain ⟨before, after, hline, hbefore, hafter⟩ := Text.exists_eq_append_trim line.toList
  exact ⟨p, ⟨before, after, htext ▸ hline, hbefore, hafter⟩, hp⟩

theorem parse_eq_ofArguments {word arguments : List Char} (htrim : Text.trim line.toList = word ++ '=' :: arguments)
    (hword : '=' ∉ word) : parse line = ofArguments word arguments := by
  simp only [parse, htrim, splitFirst?_append hword]

theorem parse_of_reads (h : p.Reads line.toList) (hp : p.Denotes c) : parse line = some c := by
  have htrim := h.trim_eq hp
  cases hp with
  | quit =>
      simp only [parse, htrim]
      rfl
  | key k =>
      simp only [parse, htrim]
      cases k <;> rfl
  | @point g x y q hx hx' hy hy' =>
      have hpoint : parsePoint (x ++ '-' :: y) = some q :=
        parsePoint_eq_some_iff.mpr ⟨x, y, rfl, ⟨hx, hx'⟩, hy, hy'⟩
      rw [parse_eq_ofArguments htrim (notMem_word g), ofArguments_word, hpoint, Option.map_some]
  | resize hw hw' hh hh' =>
      rw [parse_eq_ofArguments htrim (by decide)]
      exact congrArg (Option.map _) (parseSize_eq_some_iff.mpr ⟨_, _, rfl, ⟨hw, hw'⟩, hh, hh'⟩)

/-! ## One reading -/

theorem append_cons_inj {d : Char} {before before' after after' : List Char} (h : d ∉ before) (h' : d ∉ before')
    (heq : before ++ d :: after = before' ++ d :: after') : before = before' ∧ after = after' := by
  have hsplit := splitFirst?_append h after
  rw [heq, splitFirst?_append h' after', Option.some.injEq, Prod.mk.injEq] at hsplit
  exact ⟨hsplit.1.symm, hsplit.2.symm⟩

theorem point_arguments_inj {x x' y y' : List Char} {i i' : Int} (hx : Decimal.Signed x i)
    (hx' : Decimal.Signed x' i') (heq : x ++ '-' :: y = x' ++ '-' :: y') : x = x' ∧ y = y' := by
  cases x with
  | nil => exact absurd rfl hx.ne_nil
  | cons d rest =>
      cases x' with
      | nil => exact absurd rfl hx'.ne_nil
      | cons d' rest' =>
          obtain ⟨rfl, hrest⟩ := List.cons_eq_cons.mp heq
          obtain ⟨rfl, rfl⟩ := append_cons_inj hx.notMem_tail hx'.notMem_tail hrest
          exact ⟨rfl, rfl⟩

/-- Phrases that look alike and denote the same command are the same. -/
theorem Phrase.Denotes.inj (hp : p.Denotes c) (hp' : p'.Denotes c') (hc : c = c') (htext : p.text = p'.text) :
    p = p' := by
  cases hp with
  | quit =>
      cases hp' with
      | quit => rfl
      | point g => cases g <;> cases hc
      | _ => cases hc
  | key k =>
      cases hp' with
      | key => cases hc; rfl
      | point g => cases g <;> cases hc
      | _ => cases hc
  | point g hx _ hy _ =>
      cases hp' with
      | point g' hx' =>
          obtain rfl : g = g' := by
            cases g <;> cases g' <;> first | rfl | cases hc
          obtain ⟨-, harguments⟩ := List.cons_eq_cons.mp (List.append_cancel_left htext)
          obtain ⟨rfl, rfl⟩ := point_arguments_inj hx hx' harguments
          rfl
      | _ => cases g <;> cases hc
  | resize hw _ hh _ =>
      cases hp' with
      | resize hw' =>
          obtain ⟨-, harguments⟩ := List.cons_eq_cons.mp (List.append_cancel_left htext)
          obtain ⟨rfl, rfl⟩ := append_cons_inj hw.notMem hw'.notMem harguments
          rfl
      | point g => cases g <;> cases hc
      | _ => cases hc

/-- A line is a command exactly when it is a phrase between blanks, in one way only, and a point that is written out
is read back. -/
theorem parse_eq_some_iff_phrase :
    (∀ (line : String) (c : ControlCommand),
      parse line = some c ↔ ∃ p : Phrase, p.Reads line.toList ∧ p.Denotes c) ∧
    (∀ (line : String) (p p' : Phrase) (c c' : ControlCommand), p.Reads line.toList → p.Denotes c →
      p'.Reads line.toList → p'.Denotes c' → p = p' ∧ c = c') ∧
    ∀ x y : Int, Coordinate.InRange x → Coordinate.InRange y → parse s!"press={x}-{y}" = some (press ⟨x, y⟩) := by
  refine ⟨fun line c => ⟨exists_phrase_of_parse, fun ⟨p, h, hp⟩ => parse_of_reads h hp⟩, ?_, ?_⟩
  · intro line p p' c c' h hp h' hp'
    have hc : c = c' := Option.some.inj ((parse_of_reads h hp).symm.trans (parse_of_reads h' hp'))
    exact ⟨hp.inj hp' hc ((h.trim_eq hp).symm.trans (h'.trim_eq hp')), hc⟩
  · intro x y hx hy
    refine parse_of_reads (p := .point .press (toString x).toList (toString y).toList) ⟨[], [], ?_, nofun, nofun⟩
      (.point .press (Decimal.signed_toString x) hx (Decimal.signed_toString y) hy)
    simp only [String.toList_append, List.append_assoc, List.nil_append, List.append_nil]
    rfl

/-- Two signs behind each other, and the coordinates farthest from each other. -/
theorem parse_signed_points : parse " move=-5--7\r" = some (move ⟨-5, -7⟩) ∧
    parse s!"press={(-2147483648 : Int)}-{(2147483647 : Int)}" = some (press ⟨-2147483648, 2147483647⟩) := by
  have hx : Decimal.Signed ['-', '5'] (-5) := .minus (n := 5) ⟨nofun, List.all_eq_true.mp rfl, by decide⟩
  have hy : Decimal.Signed ['-', '7'] (-7) := .minus (n := 7) ⟨nofun, List.all_eq_true.mp rfl, by decide⟩
  obtain ⟨hparse, -, hwritten⟩ := parse_eq_some_iff_phrase
  constructor
  · exact (hparse _ _).mpr ⟨.point .move ['-', '5'] ['-', '7'], ⟨[' '], ['\r'], rfl, List.all_eq_true.mp rfl, List.all_eq_true.mp rfl⟩,
      .point .move (p := ⟨-5, -7⟩) hx (by decide) hy (by decide)⟩
  · exact hwritten _ _ (by decide) (by decide)

end ControlCommand

end Framecast
