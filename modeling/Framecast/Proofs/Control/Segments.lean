import Framecast.Proofs.Pipe.Connections
import Framecast.Proofs.Text.Utf8

/-!
# Lines and the text that they make

Cutting bytes into lines does not depend on the pieces that the bytes come in: the lines are the segments between the
newlines, but for an empty one at the end. A newline leaves the reader of UTF-8 between characters, whatever stands
before it, so that the segments can be read one by one and joined afterwards.
-/

namespace Framecast.LineSplitter

/-! ## Segments -/

/-- The segments of bytes between newlines that make lines: all of them, but for an empty one at the end. -/
def lineSegments (bytes : List UInt8) : List (List UInt8) :=
  let segments := bytes.splitOn newline
  if segments.getLast? = some [] then segments.dropLast else segments

theorem split_eq (pending bytes : List UInt8) :
    split pending bytes =
      let segments := bytes.splitOnPPrepend (· == newline) pending
      (segments.dropLast.map text, (segments.getLast?.getD []).reverse) := by
  induction bytes generalizing pending with
  | nil => simp [split]
  | cons b rest ih =>
      simp only [split, List.splitOnPPrepend_cons_eq_if, beq_iff_eq]
      split
      · have hrest : rest.splitOnP (· == newline) ≠ [] := List.splitOnP_ne_nil _ rest
        rw [ih, List.splitOnPPrepend_nil_right, List.dropLast_cons_of_ne_nil hrest, List.getLast?_cons_of_ne_nil hrest]
        rfl
      · exact ih (b :: pending)

/-- The segments of pushed bytes are complete lines, but for the last one. -/
theorem push_empty (bytes : List UInt8) :
    empty.push bytes =
      ((bytes.splitOn newline).dropLast.map text, ⟨(bytes.splitOn newline).getLast?.getD []⟩) := by
  simp only [push, empty, List.reverse_nil, split_eq, List.splitOnPPrepend_nil_right, List.reverse_reverse,
    List.splitOn_eq_splitOnP]

/-- What is pushed and flushed is cut into the lines of its segments, and nothing is pending. -/
theorem flush_push_empty (bytes : List UInt8) :
    (empty.push bytes).1 ++ (empty.push bytes).2.flush.1.toList = (lineSegments bytes).map text := by
  obtain ⟨segments, last, hsegments⟩ : ∃ segments last, bytes.splitOn newline = segments ++ [last] :=
    ⟨_, _, (List.dropLast_concat_getLast (List.splitOn_ne_nil newline bytes)).symm⟩
  rw [push_empty, lineSegments, hsegments]
  by_cases hlast : last = []
  · simp [flush, hlast]
  · simp [flush, hlast]

theorem receiveAll_bytes (s : LineSplitter) (pieces : List (List UInt8)) :
    s.receiveAll (pieces.map .bytes) = s.push pieces.flatten := by
  induction pieces generalizing s with
  | nil => simp [receiveAll, push, split]
  | cons piece later ih => rw [List.map_cons, receiveAll, receive, ih, List.flatten_cons, push_append]

/-! ## Texts -/

theorem toList_text (bytes : List UInt8) : (text bytes).toList = Utf8.decode bytes := String.toList_ofList

theorem text_intercalate (bytes : List UInt8) :
    "\n".intercalate ((bytes.splitOn newline).map text) = text bytes := by
  have hjoined := Utf8.decode_intercalate (b := newline) (by decide) (bytes.splitOn newline)
  rw [List.intercalate_splitOn] at hjoined
  rw [← String.toList_inj, String.toList_intercalate, List.map_map, toList_text, hjoined]
  exact congrArg _ (List.map_congr_left fun segment _ => toList_text segment)

/-- However bytes are cut into pieces, the lines that the pieces complete and the one that is left at their end are the
segments between the newlines, without an empty one at the end, and each is read by itself. What is given after the end
is cut into lines as if nothing had been given before. The texts of all segments joined by newlines are the text of the
bytes, where a text is what the rule for broken UTF-8 makes of its bytes. -/
theorem lines_of_pieces (pieces : List (List UInt8)) (later : List ReadOutcome) :
    let bytes := pieces.flatten
    empty.receiveAll (pieces.map .bytes ++ .endOfFile :: later) =
        ((lineSegments bytes).map text ++ (empty.receiveAll later).1, (empty.receiveAll later).2) ∧
      "\n".intercalate ((bytes.splitOn newline).map text) = text bytes ∧
      ∀ part chars, Utf8.Reads part chars ↔ chars = (text part).toList := by
  intro bytes
  refine ⟨?_, text_intercalate _, fun part chars => toList_text part ▸ Utf8.reads_iff⟩
  have hlines := flush_push_empty pieces.flatten
  rw [receiveAll_append, receiveAll_bytes, receiveAll, receive, ← List.append_assoc, hlines]
  rfl

end Framecast.LineSplitter
