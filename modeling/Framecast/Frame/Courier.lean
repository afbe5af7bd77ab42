import Framecast.Frame.Mailbox

/-!
# The courier

The courier carries frames from the mailbox to a sink: it looks at the stop flag, takes a frame, sends it and hands it
back, again and again. `Courier.step` is one step of this loop, so that any order in which its steps and those of the
one who draws follow each other can be written down. `Courier.settle` runs the loop while a frame is under way, which
is what everyone who waits for the mailbox sees.
-/

namespace Framecast

/-- Where the courier stands in its loop. -/
inductive Station where
  /-- About to look at the stop flag. -/
  | checking
  /-- About to take a frame. -/
  | taking
  /-- About to look whether the mailbox is closed, having found no frame in it. -/
  | missed
  /-- About to send a frame. -/
  | sending (f : Frame)
  /-- About to hand back a frame that was sent. -/
  | returning (f : Frame)
  /-- Out of the loop. -/
  | gone

/-- The mailbox, the courier's loop and the frames that it gave to the sink. -/
structure Courier where
  mailbox : Mailbox
  stop : Bool
  station : Station
  delivered : List Frame

namespace Courier

/-- A courier at the start of its loop, with an empty mailbox. -/
def start : Courier := ⟨.empty, false, .checking, []⟩

/-- The courier is in its loop. -/
def running (c : Courier) : Bool :=
  match c.station with
  | .gone => false
  | _ => true

/-- One step of the loop. -/
def step (c : Courier) : Courier :=
  match c.station with
  | .checking => { c with station := if c.stop then .gone else .taking }
  | .taking =>
    match c.mailbox.take with
    | (none, m) => { c with mailbox := m, station := .missed }
    | (some f, m) => { c with mailbox := m, station := .sending f }
  | .missed => { c with station := if c.mailbox.closed then .gone else .checking }
  | .sending f => { c with station := .returning f, delivered := c.delivered ++ [f] }
  | .returning f => { c with mailbox := c.mailbox.finish f, station := .checking }
  | .gone => c

/-- Steps while a frame is under way, at most so many times. -/
def settleWithin : Nat → Courier → Courier
  | 0, c => c
  | bound + 1, c => if c.mailbox.blocked then settleWithin bound c.step else c

/-- Steps until no frame is under way. A staged frame is handed back within five steps. -/
def settle (c : Courier) : Courier := settleWithin 5 c

/-- Steps until the courier is out of its loop, at most so many times. -/
def joinWithin : Nat → Courier → Courier
  | 0, c => c
  | bound + 1, c => if c.running then joinWithin bound c.step else c

/-- Raises the stop flag. -/
def raiseStop (c : Courier) : Courier := { c with stop := true }

def closeMailbox (c : Courier) : Courier := { c with mailbox := c.mailbox.close }

/-- Raises the stop flag, closes the mailbox and waits for the courier to leave its loop. -/
def shutdown (c : Courier) : Courier := joinWithin 3 c.raiseStop.closeMailbox

/-- Waits for the mailbox and stages a copy of a canvas. -/
def publish (c : Courier) (canvas : Canvas) : Bool × Courier :=
  let c := c.settle
  let (done, m) := c.mailbox.publish canvas
  (done, { c with mailbox := m })

/-- A courier that was told to stop leaves its loop. -/
theorem running_shutdown (c : Courier) : c.shutdown.running = false := by
  obtain ⟨m, stop, station, delivered⟩ := c
  cases station <;> simp [shutdown, raiseStop, closeMailbox, joinWithin, running, step, Mailbox.take,
    Mailbox.close, Mailbox.finish]

end Courier

end Framecast
