import Framecast.Bytes.Buffer

/-!
# A path and its pipes

What programs that meet at one path of a file system see: what is at the path, and what was there before and is still
open. A pipe never forgets what was written to it, so a statement about where bytes went is a statement about channels.
A pipe keeps its unread bytes while either end is open. A file is written from its beginning by whoever opens it, over
what it holds.
-/

namespace Framecast

inductive ChannelKind where
  | pipe
  | file
  /-- It can be opened for reading, and nothing is ever written to it. -/
  | directory
  deriving DecidableEq

/-- What stands at a path, or stood there and is still open: its bytes and who has it open. -/
structure Channel where
  kind : ChannelKind
  /-- All bytes ever written to a pipe, and what a file holds. -/
  written : ByteArray
  /-- The place in a file where the next bytes are written. -/
  position : Nat
  /-- How many bytes are gone: read, or lost when the last end was closed. -/
  taken : Nat
  readers : Nat
  writers : Nat

/-- A path and all channels that were ever there. -/
structure Place where
  channels : Array Channel
  /-- The index of the channel that is at the path now. -/
  node : Option Nat

inductive PipeError where
  | notRemoved (path : String)
  deriving DecidableEq

namespace PipeError

/-- The text shown for the error. -/
def message : PipeError → String
  | notRemoved path => s!"failed to unlink {path}"

end PipeError

/-- What came of opening a channel for writing without waiting. -/
inductive Opening where
  | opened (i : Nat)
  /-- There is a pipe, and nobody has it open for reading. -/
  | noReader
  | failed
  deriving DecidableEq

namespace Channel

/-- A channel that nothing was written to. -/
def fresh (kind : ChannelKind) : Channel := ⟨kind, ByteArray.empty, 0, 0, 0, 0⟩

def file (content : ByteArray) : Channel := { fresh .file with written := content }

/-- The bytes that can be read. -/
def unread (c : Channel) : ByteArray := c.written.extract c.taken c.written.size

/-- The channel opened for reading. A pipe is read from where it stands, and anything else from its beginning. -/
def openedToRead (c : Channel) : Channel :=
  { c with readers := c.readers + 1, taken := if c.kind = .pipe then c.taken else 0 }

/-- The channel opened for writing. A file is written from its beginning. -/
def openedToWrite (c : Channel) : Channel := { c with writers := c.writers + 1, position := 0 }

/-- The channel after bytes were written to it: a pipe has them at the end, a file in place of what it held there. -/
def afterWriting (c : Channel) (b : ByteArray) : Channel :=
  if c.kind = .file then
    { c with
      written := c.written.extract 0 c.position ++ b ++ c.written.extract (c.position + b.size) c.written.size
      position := c.position + b.size }
  else { c with written := c.written ++ b }

/-- The channel after an end was closed. A pipe loses its unread bytes with its last end. -/
def afterClosing (c : Channel) : Channel :=
  if c.kind = .pipe ∧ c.readers = 0 ∧ c.writers = 0 then { c with taken := c.written.size } else c

end Channel

namespace Place

/-- A path with nothing at it. -/
def empty : Place := ⟨#[], none⟩

def current? (p : Place) : Option Channel := p.node.bind fun i => p.channels[i]?

def isDirectory (p : Place) : Bool := p.current?.any fun c => c.kind == .directory

def modify (p : Place) (i : Nat) (f : Channel → Channel) : Place := { p with channels := p.channels.modify i f }

/-! ## The path -/

/-- Removes what is at the path, unless it is a directory, and says whether nothing is there now. -/
def remove (p : Place) : Bool × Place := if p.isDirectory then (false, p) else (true, { p with node := none })

def put (p : Place) (c : Channel) : Place := ⟨p.channels.push c, some p.channels.size⟩

/-- Puts a fresh pipe at the path in place of what is there, unless that is a directory, and says whether it did. -/
def renew (p : Place) : Bool × Place :=
  match p.remove with
  | (true, p) => (true, p.put (.fresh .pipe))
  | (false, p) => (false, p)

/-! ## Opening and closing -/

/-- Opens what is at the path for reading. -/
def openReader (p : Place) : Option Nat × Place :=
  match p.node with
  | none => (none, p)
  | some i => (some i, p.modify i Channel.openedToRead)

/-- Opens what is at the path for writing, without waiting for a reader. -/
def openWriter (p : Place) : Opening × Place :=
  match p.node, p.current? with
  | some i, some c =>
    if c.kind = .directory then (.failed, p)
    else if c.kind = .pipe ∧ c.readers = 0 then (.noReader, p)
    else (.opened i, p.modify i Channel.openedToWrite)
  | _, _ => (.failed, p)

/-- Closes an end for reading. -/
def closeReader (p : Place) (i : Nat) : Place :=
  p.modify i fun c => { c with readers := c.readers - 1 }.afterClosing

/-- Closes an end for writing. -/
def closeWriter (p : Place) (i : Nat) : Place :=
  p.modify i fun c => { c with writers := c.writers - 1 }.afterClosing

/-! ## Bytes -/

def write (p : Place) (i : Nat) (b : ByteArray) : Place := p.modify i fun c => c.afterWriting b

/-- Nobody will ever read what is written to a channel now. -/
def broken (p : Place) (i : Nat) : Bool := p.channels[i]?.any fun c => c.kind == .pipe && c.readers == 0

/-- Writes bytes to a channel, if any are given and the channel is not broken, and says whether they are all there. -/
def attemptWrite (p : Place) (i : Nat) (b : ByteArray) : Bool × Place :=
  if b.size = 0 then (true, p) else if p.broken i then (false, p) else (true, p.write i b)

/-- Nobody has a channel open for writing. -/
def unwritten (p : Place) (i : Nat) : Bool := p.channels[i]?.all fun c => c.writers == 0

def readAll (p : Place) (i : Nat) : ByteArray × Place :=
  (((p.channels[i]?).map Channel.unread).getD ByteArray.empty,
    p.modify i fun c => { c with taken := c.written.size })

end Place

end Framecast
