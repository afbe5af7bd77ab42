import Framecast.Canvas.Transfer
import Framecast.Frame.Wire

/-!
# The mailbox

A frame goes from the one who draws to the one who sends through a mailbox with room for one. A frame is staged, taken
and handed back, and until it is handed back no other can be staged: at most one frame is under way. Its buffer is used
again for the next frame. A closed mailbox takes and gives nothing.
-/

namespace Framecast

/-- The room for one frame. -/
structure Mailbox where
  /-- A frame was staged and not handed back yet. -/
  ready : Bool
  /-- The frame until it is taken. -/
  staged : Option Frame
  /-- The buffer of the last frame that was handed back. -/
  spare : ByteArray
  closed : Bool
  /-- The number of frames staged so far. -/
  published : Nat

namespace Mailbox

/-- Nothing staged yet. -/
def empty : Mailbox := ⟨false, none, ByteArray.empty, false, 0⟩

/-- Whoever stages a frame, or waits for the last one to be handed back, has to wait now. -/
def blocked (m : Mailbox) : Bool := m.ready && !m.closed

theorem blocked_iff {m : Mailbox} : m.blocked = true ↔ m.ready = true ∧ m.closed = false := by
  simp [blocked]

theorem ready_of_free {m : Mailbox} (hopen : m.closed = false) (hfree : m.blocked = false) : m.ready = false := by
  simpa [blocked, hopen] using hfree

/-- Stages a copy of a canvas, in a mailbox that is not blocked; refused by a closed one. -/
def publish (m : Mailbox) (c : Canvas) : Bool × Mailbox :=
  if m.closed then (false, m)
  else
    (true, { m with
      ready := true
      staged := some ⟨c.width, c.height, c.exportInto m.spare⟩
      spare := ByteArray.empty
      published := m.published + 1 })

/-- Takes the staged frame, if there is one. -/
def take (m : Mailbox) : Option Frame × Mailbox :=
  if m.closed then (none, m) else (m.staged, { m with staged := none })

/-- Hands a frame back. -/
def finish (m : Mailbox) (f : Frame) : Mailbox := { m with spare := f.pixels, ready := false }

/-- Closes the mailbox and drops what is staged. -/
def close (m : Mailbox) : Mailbox := { m with closed := true, staged := none, ready := false }

end Mailbox

end Framecast
