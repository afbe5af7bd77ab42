import Framecast.Text.Utf8

/-!
# Cutting bytes into lines

Bytes arrive in pieces of any length. `LineSplitter.push` gives the lines that a piece completes and keeps the rest,
and `LineSplitter.flush` gives what is left when nothing more will come. Each line is read as UTF-8 on its own.
-/

namespace Framecast

/-- The bytes of a line that is not complete yet. -/
structure LineSplitter where
  pending : List UInt8
  deriving DecidableEq

namespace LineSplitter

/-- Nothing is pending. -/
def empty : LineSplitter := ⟨[]⟩

/-- The byte that ends a line. -/
def newline : UInt8 := 10

def text (bytes : List UInt8) : String := String.ofList (Utf8.decode bytes)

/-- The lines that bytes complete, and what is pending after them. `pending` holds the last byte first. -/
def split : (pending bytes : List UInt8) → List String × List UInt8
  | pending, [] => ([], pending)
  | pending, b :: rest =>
    if b = newline then
      let (lines, pending') := split [] rest
      (text pending.reverse :: lines, pending')
    else split (b :: pending) rest

/-- Takes bytes and gives the lines that they complete. -/
def push (s : LineSplitter) (bytes : List UInt8) : List String × LineSplitter :=
  let (lines, pending) := split s.pending.reverse bytes
  (lines, ⟨pending.reverse⟩)

/-- Gives the incomplete line, if it holds any byte, and forgets it. -/
def flush (s : LineSplitter) : Option String × LineSplitter :=
  (if s.pending = [] then none else some (text s.pending), empty)

theorem split_append (pending xs ys : List UInt8) :
    split pending (xs ++ ys) =
      ((split pending xs).1 ++ (split (split pending xs).2 ys).1, (split (split pending xs).2 ys).2) := by
  induction xs generalizing pending with
  | nil => simp [split]
  | cons b rest ih =>
    simp only [List.cons_append, split]
    split
    · simp [ih]
    · rw [ih]

/-- Pushing one piece after another gives the same lines as pushing both at once. -/
theorem push_append (s : LineSplitter) (xs ys : List UInt8) :
    s.push (xs ++ ys) = ((s.push xs).1 ++ ((s.push xs).2.push ys).1, ((s.push xs).2.push ys).2) := by
  simp [push, split_append]

end LineSplitter

end Framecast
