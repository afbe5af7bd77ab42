import Framecast.Config
import Framecast.Proofs.Json.Grammar

/-!
# Configurations given in part

A file gives some of the sections and some of the settings in each, in any order and with anything else among them. The
settings that it gives are taken and every other one keeps its default, also in a section that is given
(`ofFile_given`).
-/

namespace Framecast

open Json

/-! ## Records given in part -/

namespace Json

/-- The value is an object of the chosen fields, in any order and with members of other names among them. -/
inductive Chosen (fields : List (String × Value)) (chosen : List String) : Value → Prop
  | mk (extra : List (String × Value)) {members : List (String × Value)}
    (order : members.Perm (fields.filter (fun m => m.1 ∈ chosen) ++ extra))
    (unknown : ∀ m ∈ extra, m.1 ∉ fields.map Prod.fst) : Chosen fields chosen (.record members)

variable {fields extra members : List (String × Value)} {chosen : List String} {name : String} {v : Value} {α : Type}

/-- The chosen fields alone. -/
theorem chosen_filter (fields : List (String × Value)) (chosen : List String) :
    Chosen fields chosen (.record (fields.filter (fun m => m.1 ∈ chosen))) :=
  .mk [] (by rw [List.append_nil]) nofun

/-- All fields in their order. -/
theorem chosen_record (fields : List (String × Value)) : Chosen fields (fields.map Prod.fst) (.record fields) := by
  refine .mk [] ?_ nofun
  rw [List.append_nil, List.filter_eq_self.mpr fun m hm => decide_eq_true (List.mem_map_of_mem hm)]

theorem named?_map (members : List (String × Value)) :
    named? (members.map fun (name, v) => (some name, v)) = some members := by
  induction members with
  | nil => rfl
  | cons m members ih =>
      rw [List.map_cons, named?, ih]
      rfl

theorem filter_name (hnodup : (fields.map Prod.fst).Nodup) (hmem : (name, v) ∈ fields) :
    fields.filter (fun m => m.1 == name) = [(name, v)] := by
  induction fields with
  | nil => cases hmem
  | cons m fields ih =>
      rw [List.map_cons, List.nodup_cons] at hnodup
      rcases List.mem_cons.mp hmem with rfl | hmem
      · have hrest : fields.filter (fun m => m.1 == name) = [] := List.filter_eq_nil_iff.mpr fun m hm heq =>
          hnodup.1 (List.mem_map.mpr ⟨m, hm, eq_of_beq heq⟩)
        rw [List.filter_cons, if_pos (beq_self_eq_true name), hrest]
      · have hother : ¬ (m.1 == name) = true := fun heq =>
          hnodup.1 (List.mem_map.mpr ⟨_, hmem, (eq_of_beq heq).symm⟩)
        rw [List.filter_cons, if_neg hother, ih hnodup.2 hmem]

/-- What is found for a field is its value if it is chosen, whatever stands around it. -/
theorem field?_of_perm (hnodup : (fields.map Prod.fst).Nodup)
    (order : members.Perm (fields.filter (fun m => m.1 ∈ chosen) ++ extra))
    (unknown : ∀ m ∈ extra, m.1 ∉ fields.map Prod.fst) (hmem : (name, v) ∈ fields) :
    field? members name = some (if name ∈ chosen then some v else none) := by
  have hextra : extra.filter (fun m => m.1 == name) = [] := List.filter_eq_nil_iff.mpr fun m hm heq =>
    unknown m hm (List.mem_map.mpr ⟨_, hmem, (eq_of_beq heq).symm⟩)
  have hchosen : (fields.filter (fun m => m.1 ∈ chosen)).filter (fun m => m.1 == name) =
      [(name, v)].filter (fun m => m.1 ∈ chosen) := by
    rw [← filter_name hnodup hmem, List.filter_filter, List.filter_filter]
    exact List.filter_congr fun m _ => Bool.and_comm _ _
  have hfound := order.filter (fun m => m.1 == name)
  rw [List.filter_append, hextra, List.append_nil, hchosen, List.filter_cons, List.filter_nil] at hfound
  by_cases hname : name ∈ chosen
  · rw [if_pos (decide_eq_true hname), List.perm_singleton] at hfound
    rw [field?, hfound, if_pos hname]
  · rw [if_neg (by simpa using hname), List.perm_nil] at hfound
    rw [field?, hfound, if_neg hname]

theorem mapM_eq_some_map {α β : Type} {items : List α} {f : α → Option β} {g : α → β}
    (h : ∀ a ∈ items, f a = some (g a)) : items.mapM f = some (items.map g) := by
  induction items with
  | nil => rfl
  | cons a items ih =>
      rw [List.mapM_cons, h a List.mem_cons_self, ih fun b hb => h b (List.mem_cons_of_mem _ hb)]
      rfl

theorem fields?_of_chosen (names : List String) (hnames : fields.map Prod.fst = names) (hnodup : names.Nodup)
    (h : Chosen fields chosen v) :
    v.fields? names = some (fields.map fun m => if m.1 ∈ chosen then some m.2 else none) := by
  subst hnames
  cases h with
  | @mk extra members order unknown =>
      rw [Value.record, Value.fields?, named?_map, Option.bind_eq_bind, Option.bind_some, List.mapM_map]
      exact mapM_eq_some_map fun m hm => field?_of_perm hnodup order unknown hm

/-- A setting is read if it is given, and keeps its default if not. -/
theorem orElse_ite {read : Value → Option α} {a : α} (p : Prop) [Decidable p] (default : α) (h : read v = some a) :
    orElse default read (if p then some v else none) = some (if p then a else default) := by
  split
  · exact h
  · rfl

theorem natural?_integer {bits n : Nat} (h : n < 1 <<< bits) : (Value.integer n).natural? bits = some n := by
  have hrange : (0 : Int) ≤ n ∧ (n : Int) ≤ (1 <<< bits : Nat) - 1 := by omega
  rw [Value.natural?, Value.integer, Value.integerIn?, if_pos hrange, Option.map_some, Int.toNat_natCast]

end Json

/-! ## Sections -/

namespace DisplaySettings

variable {s : DisplaySettings} {chosen : List String} {v : Value}

/-- The settings with their names. -/
def fields (s : DisplaySettings) : List (String × Value) :=
  [("width", .integer s.width), ("height", .integer s.height), ("bits_per_pixel", .integer s.bitsPerPixel),
    ("antialias", .boolean s.antialias)]

/-- The numbers fit in 32 bits. -/
structure Fits (s : DisplaySettings) : Prop where
  width : s.width < 1 <<< 32
  height : s.height < 1 <<< 32
  bitsPerPixel : s.bitsPerPixel < 1 <<< 32

/-- The chosen settings and the defaults of the others. -/
def select (s : DisplaySettings) (chosen : List String) : DisplaySettings where
  width := if "width" ∈ chosen then s.width else default.width
  height := if "height" ∈ chosen then s.height else default.height
  bitsPerPixel := if "bits_per_pixel" ∈ chosen then s.bitsPerPixel else default.bitsPerPixel
  antialias := if "antialias" ∈ chosen then s.antialias else default.antialias

theorem ofJson?_chosen (hs : s.Fits) (h : Chosen s.fields chosen v) : ofJson? v = some (s.select chosen) := by
  have hantialias : (Value.boolean s.antialias).boolean? = some s.antialias := rfl
  rw [ofJson?, fields?_of_chosen names rfl (by decide) h]
  simp only [fields, List.map_cons, List.map_nil, Option.bind_eq_bind, Option.bind_some, Option.pure_def, select,
    orElse_ite _ _ (natural?_integer hs.width), orElse_ite _ _ (natural?_integer hs.height),
    orElse_ite _ _ (natural?_integer hs.bitsPerPixel), orElse_ite _ _ hantialias]

theorem select_names (s : DisplaySettings) : s.select names = s := rfl

theorem written_fields (s : DisplaySettings) : ∀ m ∈ s.fields, Written (render m.2) m.2 := by
  intro m hm
  simp only [fields, List.mem_cons, List.not_mem_nil, or_false] at hm
  rcases hm with rfl | rfl | rfl | rfl
  · exact written_integer _
  · exact written_integer _
  · exact written_integer _
  · exact written_boolean _

end DisplaySettings

namespace PipeSettings

variable {s : PipeSettings} {chosen : List String} {v : Value}

/-- The settings with their names. -/
def fields (s : PipeSettings) : List (String × Value) :=
  [("image_fifo", .text s.imagePipe), ("command_fifo", .text s.commandPipe)]

/-- The chosen settings and the defaults of the others. -/
def select (s : PipeSettings) (chosen : List String) : PipeSettings where
  imagePipe := if "image_fifo" ∈ chosen then s.imagePipe else default.imagePipe
  commandPipe := if "command_fifo" ∈ chosen then s.commandPipe else default.commandPipe

theorem ofJson?_chosen (h : Chosen s.fields chosen v) : ofJson? v = some (s.select chosen) := by
  have htext : ∀ str, (Value.text str).string? = some str := fun _ => rfl
  rw [ofJson?, fields?_of_chosen names rfl (by decide) h]
  simp only [fields, List.map_cons, List.map_nil, Option.bind_eq_bind, Option.bind_some, Option.pure_def, select,
    orElse_ite _ _ (htext _)]

theorem select_names (s : PipeSettings) : s.select names = s := rfl

theorem written_fields (s : PipeSettings) : ∀ m ∈ s.fields, Written (render m.2) m.2 := by
  intro m hm
  simp only [fields, List.mem_cons, List.not_mem_nil, or_false] at hm
  rcases hm with rfl | rfl
  · exact written_text _
  · exact written_text _

end PipeSettings

namespace TimingSettings

variable {s : TimingSettings} {chosen : List String} {v : Value}

/-- The settings with their names. -/
def fields (s : TimingSettings) : List (String × Value) :=
  [("frame_poll_interval_ms", .integer s.framePoll), ("input_poll_interval_ms", .integer s.inputPoll)]

/-- The numbers fit in 64 bits. -/
structure Fits (s : TimingSettings) : Prop where
  framePoll : s.framePoll < 1 <<< 64
  inputPoll : s.inputPoll < 1 <<< 64

/-- The chosen settings and the defaults of the others. -/
def select (s : TimingSettings) (chosen : List String) : TimingSettings where
  framePoll := if "frame_poll_interval_ms" ∈ chosen then s.framePoll else default.framePoll
  inputPoll := if "input_poll_interval_ms" ∈ chosen then s.inputPoll else default.inputPoll

theorem ofJson?_chosen (hs : s.Fits) (h : Chosen s.fields chosen v) : ofJson? v = some (s.select chosen) := by
  rw [ofJson?, fields?_of_chosen names rfl (by decide) h]
  simp only [fields, List.map_cons, List.map_nil, Option.bind_eq_bind, Option.bind_some, Option.pure_def, select,
    orElse_ite _ _ (natural?_integer hs.framePoll), orElse_ite _ _ (natural?_integer hs.inputPoll)]

theorem select_names (s : TimingSettings) : s.select names = s := rfl

theorem written_fields (s : TimingSettings) : ∀ m ∈ s.fields, Written (render m.2) m.2 := by
  intro m hm
  simp only [fields, List.mem_cons, List.not_mem_nil, or_false] at hm
  rcases hm with rfl | rfl
  · exact written_integer _
  · exact written_integer _

end TimingSettings

/-! ## Files -/

namespace Config

/-- The names that a file gives: those of sections, and those of settings in each section. -/
structure Selection where
  sections : List String
  display : List String
  pipes : List String
  timing : List String

/-- The selected settings and the defaults of the others. -/
def select (c : Config) (S : Selection) : Config where
  display := if "display" ∈ S.sections then c.display.select S.display else .default
  pipes := if "pipes" ∈ S.sections then c.pipes.select S.pipes else .default
  timing := if "timing" ∈ S.sections then c.timing.select S.timing else .default

/-- The value gives the selected settings of a configuration. -/
inductive Given (c : Config) (S : Selection) : Value → Prop
  | mk {display pipes timing v : Value} (hdisplay : Chosen c.display.fields S.display display)
    (hpipes : Chosen c.pipes.fields S.pipes pipes) (htiming : Chosen c.timing.fields S.timing timing)
    (h : Chosen [("display", display), ("pipes", pipes), ("timing", timing)] S.sections v) : Given c S v

/-- The numbers fit in the widths that they are kept in. -/
structure Fits (c : Config) : Prop where
  display : c.display.Fits
  timing : c.timing.Fits

variable {c : Config} {S : Selection} {v : Value} {text : String}

theorem ofJson?_given (hc : c.Fits) (h : Given c S v) : ofJson? v = some (c.select S) := by
  cases h with
  | mk hdisplay hpipes htiming h =>
      rw [ofJson?, fields?_of_chosen names rfl (by decide) h]
      simp only [List.map_cons, List.map_nil, Option.bind_eq_bind, Option.bind_some, Option.pure_def, select,
        orElse_ite _ _ (DisplaySettings.ofJson?_chosen hc.display hdisplay),
        orElse_ite _ _ (PipeSettings.ofJson?_chosen hpipes),
        orElse_ite _ _ (TimingSettings.ofJson?_chosen hc.timing htiming)]

theorem ofFile_written (path : String) (h : Written text.toList v) (hv : ofJson? v = some c) :
    ofFile path (some text.toUTF8) = .ok c := by
  have hdecode : String.fromUTF8? text.toUTF8 = some text := by
    rw [String.toUTF8_eq_toByteArray, String.fromUTF8?, dif_pos text.isValidUTF8]
    rfl
  have htext : ofText? text = some c := by
    rw [ofText?, parse_written h]
    exact hv
  simp only [ofFile, Option.bind_some, hdecode, htext]

/-- Everything is selected. -/
def everything : Selection := ⟨names, DisplaySettings.names, PipeSettings.names, TimingSettings.names⟩

theorem select_everything (c : Config) : c.select everything = c := rfl

theorem given_toJson (c : Config) : Given c everything c.toJson :=
  .mk (chosen_record _) (chosen_record _) (chosen_record _) (chosen_record _)

theorem written_toJson (c : Config) : Written (render c.toJson) c.toJson := by
  refine written_record _ fun m hm => ?_
  simp only [List.mem_cons, List.not_mem_nil, or_false] at hm
  rcases hm with rfl | rfl | rfl
  · exact written_record _ c.display.written_fields
  · exact written_record _ c.pipes.written_fields
  · exact written_record _ c.timing.written_fields

/-- Whatever is selected, there is a text that gives it. -/
theorem exists_written_given (c : Config) (S : Selection) : ∃ v, Given c S v ∧ Written (render v) v := by
  refine ⟨_, .mk (chosen_filter _ _) (chosen_filter _ _) (chosen_filter _ _) (chosen_filter _ _), ?_⟩
  refine written_record _ fun m hm => ?_
  have hm := (List.mem_filter.mp hm).1
  simp only [List.mem_cons, List.not_mem_nil, or_false] at hm
  rcases hm with rfl | rfl | rfl
  · exact written_record _ fun m hm => c.display.written_fields m (List.mem_filter.mp hm).1
  · exact written_record _ fun m hm => c.pipes.written_fields m (List.mem_filter.mp hm).1
  · exact written_record _ fun m hm => c.timing.written_fields m (List.mem_filter.mp hm).1

/-- A file that gives selected settings of a configuration makes the configuration of them and the defaults of the
others, in whatever way it is written; the file that a configuration is written to makes it again. -/
theorem ofFile_given (c : Config) (hc : c.Fits) (path : String) :
    (∀ (S : Selection) (v : Value) (text : String), Given c S v → Written text.toList v →
      ofFile path (some text.toUTF8) = .ok (c.select S)) ∧
    ofFile path (some c.toText.toUTF8) = .ok c := by
  refine ⟨fun S v text hv htext => ofFile_written path htext (ofJson?_given hc hv), ?_⟩
  have hall := ofJson?_given hc (given_toJson c)
  rw [select_everything] at hall
  refine ofFile_written path ?_ hall
  rw [toText, Value.toText, String.toList_ofList]
  exact written_toJson c

/-- A file with a section in front of another, a slash in hexadecimal digits, blanks and a setting that is not known. -/
theorem ofFile_given_of_one_pipe :
    let c : Config := ⟨⟨8, 8, 8, false⟩, ⟨"/a", "/b"⟩, ⟨1, 1⟩⟩
    let text := "\x7b\"pipes\":\x7b\"image_fifo\": \"\\u002fa\",\"x\":[1e3]\x7d,\"display\":\x7b\x7d\x7d"
    c.Fits ∧ ofFile "c.json" (some text.toUTF8) = .ok ⟨.default, ⟨"/a", PipeSettings.default.commandPipe⟩, .default⟩ ∧
      ofFile "c.json" (some c.toText.toUTF8) = .ok c := by
  intro c text
  have hc : c.Fits := ⟨⟨by decide, by decide, by decide⟩, ⟨by decide, by decide⟩⟩
  let S : Selection := ⟨["display", "pipes"], [], ["image_fifo"], []⟩
  let pipes : Value := .record [("image_fifo", .text "/a"), ("x", .array [.number .real])]
  have hgiven : Given c S (.record [("pipes", pipes), ("display", .record [])]) := by
    have hpipes : Chosen c.pipes.fields S.pipes pipes :=
      .mk [("x", .array [.number .real])] (.refl _) (by simp [PipeSettings.fields])
    exact .mk (.mk [] .nil nofun) hpipes (.mk [] .nil nofun) (.mk [] (.swap _ _ _) nofun)
  have hwritten : Written text.toList (.record [("pipes", pipes), ("display", .record [])]) := by
    have hname : ∀ name : String, Name (quote name.toList) (some name) := fun name => .of_quoted (quoted_quote name)
    have hpath : Written ['"', '\\', 'u', '0', '0', '2', 'f', 'a', '"'] (.text "/a") := by
      have hzero : ('0', 0) ∈ hexDigits := by decide
      have hslash : Spelling ['\\', 'u', '0', '0', '2', 'f'] (.unit '/'.toNat) :=
        .unit hzero hzero (by decide : ('2', 2) ∈ hexDigits) (by decide : ('f', 15) ∈ hexDigits)
      have ha : Spelling ['a'] (.char 'a') := .plain (by decide) (by decide) (by decide)
      exact .string (.known (.cons hslash (.cons ha .nil)) (.unit (by decide) (.char 'a' .nil)))
    have hblank : Blanks [' '] := List.forall_mem_singleton.mpr (by decide)
    have hnumber : Written ['1', 'e', '3'] (.number .real) := by
      have hwhole : Whole ['1'] 1 := whole_toDigits 1
      have hthree : Decimal.Numeral ['3'] 3 := Decimal.numeral_toDigits 3
      have hexponent : Exponent (('e' :: []) ++ ['3']) := .given (by decide) (by decide) hthree
      have hnumber : NumberText ([] ++ ['1'] ++ [] ++ ['e', '3']) .real :=
        .real (by decide) hwhole .missing hexponent (by decide)
      exact .number hnumber
    have hpipes : Written _ pipes :=
      .object (.cons (hname "image_fifo") (.blanks hblank hpath .nil) (.last (hname "x") (.array (.last hnumber))))
    have hall := Written.object (.cons (hname "pipes") hpipes (.last (hname "display") (.emptyObject .nil)))
    exact cast (congrArg (Written · _) (by decide +kernel)) hall
  have h := ofFile_given c hc "c.json"
  exact ⟨hc, h.1 S _ text hgiven hwritten, h.2⟩

end Config

end Framecast
