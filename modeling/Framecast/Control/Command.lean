import Framecast.Control.Key
import Framecast.Geometry.Point
import Framecast.Number.Decimal
import Framecast.Text.Blank

/-!
# Control commands

A peer controls the program by lines of text. A line is a word alone or a word, an equals sign and its arguments: a
point `X-Y` or a size `WxH`. Blanks around the line are dropped, and a line that is nothing of this is no command.
-/

namespace Framecast

/-- What a peer can ask for. -/
inductive ControlCommand where
  | resize (width height : Nat)
  | quit
  | press (p : Point)
  | move (p : Point)
  | release (p : Point)
  | key (k : NavKey)
  deriving DecidableEq

namespace ControlCommand

/-- The text before and after the first occurrence of a character. -/
def splitFirst? (c : Char) : List Char → Option (List Char × List Char)
  | [] => none
  | d :: rest =>
    if d = c then some ([], rest) else (splitFirst? c rest).map fun (before, after) => (d :: before, after)

/-- Reads `X-Y`; a minus in front of all is the sign of `X`. -/
def parsePoint : List Char → Option Point
  | [] => none
  | first :: rest => do
    let (before, after) ← splitFirst? '-' rest
    let x ← Decimal.coordinate? (first :: before)
    let y ← Decimal.coordinate? after
    return ⟨x, y⟩

/-- Reads `WxH`. -/
def parseSize (s : List Char) : Option (Nat × Nat) := do
  let (before, after) ← splitFirst? 'x' s
  let width ← Decimal.unsigned32? before
  let height ← Decimal.unsigned32? after
  return (width, height)

def ofArguments (word arguments : List Char) : Option ControlCommand :=
  match String.ofList word with
  | "resize" => (parseSize arguments).map fun (width, height) => resize width height
  | "press" => (parsePoint arguments).map press
  | "move" => (parsePoint arguments).map move
  | "release" => (parsePoint arguments).map release
  | _ => none

/-- The command of a word alone. -/
def ofWord (word : List Char) : Option ControlCommand :=
  if String.ofList word = "quit" then some quit else (NavKey.ofWord? (String.ofList word)).map key

/-- The command of a line, without its newline. -/
def parse (line : String) : Option ControlCommand :=
  let line := Text.trim line.toList
  match splitFirst? '=' line with
  | some (word, arguments) => ofArguments word arguments
  | none => ofWord line

theorem eq_append_of_splitFirst? {c : Char} {s before after : List Char}
    (h : splitFirst? c s = some (before, after)) : s = before ++ c :: after ∧ c ∉ before := by
  induction s generalizing before with
  | nil => simp [splitFirst?] at h
  | cons d rest ih =>
    simp only [splitFirst?] at h
    split at h
    · rename_i hd
      simp only [Option.some.injEq, Prod.mk.injEq] at h
      obtain ⟨rfl, rfl⟩ := h
      simp [hd]
    · rename_i hd
      simp only [Option.map_eq_some_iff, Prod.mk.injEq, Prod.exists] at h
      obtain ⟨b, a, hs, rfl, rfl⟩ := h
      obtain ⟨hrest, hmem⟩ := ih hs
      exact ⟨by simp [hrest], by simpa [hmem] using Ne.symm hd⟩

theorem splitFirst?_append {c : Char} {before : List Char} (h : c ∉ before) (after : List Char) :
    splitFirst? c (before ++ c :: after) = some (before, after) := by
  induction before with
  | nil => simp [splitFirst?]
  | cons d rest ih =>
    simp only [List.mem_cons, not_or] at h
    simp [splitFirst?, Ne.symm h.1, ih h.2]

end ControlCommand

end Framecast
