import Framecast.Frame.Wire
import Framecast.Pipe.Place

/-!
# Sending frames through a pipe

Frames leave by a pipe at a path. Before a frame is sent, the open pipe has to be the one at the path, or a fresh one
takes its place. A pipe is opened as soon as someone reads it. When the header cannot be written, the pipe is renewed
and the header written again; when the picture cannot, the frame is given up.

What others do is given to `FramePipe.send`: whether a reader has come by each attempt to open the pipe, and how each
write goes.
-/

namespace Framecast

/-- How a write goes. -/
inductive WriteOutcome where
  | complete
  /-- Only some bytes are written, because the reader has gone or for another reason. -/
  | cut (count : Nat) (readerGone : Bool)
  deriving DecidableEq

/-- A path that frames are sent through, and the channel that is open for writing. -/
structure FramePipe where
  place : Place
  connection : Option Nat

namespace FramePipe

def create (path : String) (place : Place) : Except PipeError FramePipe :=
  match place.renew with
  | (true, place) => .ok ⟨place, none⟩
  | (false, _) => .error (.notRemoved path)

/-- A channel is open. -/
def connected (p : FramePipe) : Bool := p.connection.isSome

/-- Closes the open channel. -/
def disconnect (p : FramePipe) : FramePipe :=
  match p.connection with
  | none => p
  | some i => ⟨p.place.closeWriter i, none⟩

/-- Puts a fresh pipe at the path if possible, and closes the open channel. -/
def renew (p : FramePipe) : FramePipe := { p with place := p.place.renew.2 }.disconnect

/-- No channel is open, or the open one is a pipe and at the path. -/
def intact (p : FramePipe) : Bool :=
  match p.connection with
  | none => true
  | some i => (p.place.channels[i]?.any fun c => c.kind == .pipe) && p.place.node == some i

/-- The next outcome of a write of bytes to a channel, and the outcomes after it. No bytes are written without fail, and
nothing else can be written to a pipe without readers; without a further outcome a write is complete. -/
def nextOutcome (place : Place) (i : Nat) (b : ByteArray) (outcomes : List WriteOutcome) :
    WriteOutcome × List WriteOutcome :=
  if b.size = 0 then (.complete, outcomes)
  else if place.broken i then (.cut 0 true, outcomes.tail)
  else (outcomes.headD .complete, outcomes.tail)

/-- Writes as many of the bytes as the outcome says. -/
def writeSome (p : FramePipe) (i : Nat) (b : ByteArray) : WriteOutcome → FramePipe
  | .complete => { p with place := p.place.write i b }
  | .cut count _ => { p with place := p.place.write i (b.extract 0 count) }

/-- Writes a header to the open channel and says whether it is all there. After a failure the pipe is renewed. -/
def writeHeader (p : FramePipe) (i : Nat) (header : ByteArray) (outcomes : List WriteOutcome) :
    Bool × FramePipe × List WriteOutcome :=
  let (outcome, rest) := nextOutcome p.place i header outcomes
  let p := p.writeSome i header outcome
  match outcome with
  | .complete => (true, p, rest)
  | .cut .. => (false, p.renew, rest)

/-- Attempts to open the channel at the path and to write a header to it, until the header is written or the attempts
end. A reader comes before each attempt for which `arrivals` says so. A path that cannot be opened is renewed. -/
def connectAndWrite (header : ByteArray) :
    (arrivals : List Bool) → List WriteOutcome → FramePipe → Bool × FramePipe × List WriteOutcome
  | [], outcomes, p => (false, p, outcomes)
  | arrived :: later, outcomes, p =>
    let place := if arrived then p.place.openReader.2 else p.place
    match place.openWriter with
    | (.noReader, place) => connectAndWrite header later outcomes { p with place }
    | (.failed, place) => connectAndWrite header later outcomes (FramePipe.renew { p with place })
    | (.opened i, place) =>
      match writeHeader ⟨place, some i⟩ i header outcomes with
      | (true, p, rest) => (true, p, rest)
      | (false, p, rest) => connectAndWrite header later rest p

/-- Writes a header to the open channel or, if none is open or the write fails, to one that is opened. -/
def sendHeader (p : FramePipe) (header : ByteArray) (arrivals : List Bool) (outcomes : List WriteOutcome) :
    Bool × FramePipe × List WriteOutcome :=
  match p.connection with
  | none => connectAndWrite header arrivals outcomes p
  | some i =>
    match p.writeHeader i header outcomes with
    | (true, p, rest) => (true, p, rest)
    | (false, p, rest) => connectAndWrite header arrivals rest p

/-- Writes a picture to the open channel. If the reader has gone the pipe is renewed, and after another failure the
channel is closed. -/
def sendPicture (p : FramePipe) (pixels : ByteArray) (outcomes : List WriteOutcome) : FramePipe :=
  match p.connection with
  | none => p
  | some i =>
    let outcome := (nextOutcome p.place i pixels outcomes).1
    let p := p.writeSome i pixels outcome
    match outcome with
    | .complete => p
    | .cut _ true => p.renew
    | .cut _ false => p.disconnect

/-- Sends a frame. `arrivals` has an element for each attempt to open the pipe before the sender is told to stop. -/
def send (p : FramePipe) (f : Frame) (arrivals : List Bool) (outcomes : List WriteOutcome) : FramePipe :=
  let p := if p.intact then p else p.renew
  match p.sendHeader f.header.toBytes arrivals outcomes with
  | (false, p, _) => p
  | (true, p, rest) => p.sendPicture f.pixels rest

/-- Closes the open channel and removes what is at the path. -/
def drop (p : FramePipe) : Place := p.disconnect.place.remove.2

end FramePipe

end Framecast
