import Framecast.Control.Lines
import Framecast.Pipe.Place

/-!
# Receiving control lines through a pipe

Control lines come in by a pipe at a path. It is put there when the lines are asked for the first time. Bytes are read
in pieces until no more are there; at the end of the file a line without its newline is complete too. After a failure
the pipe is closed, and the next call puts a fresh one in its place.

`LineReader` is the part that does not know of paths: what each read brings is given to it.
-/

namespace Framecast

/-- What a read brings. -/
inductive ReadOutcome where
  | bytes (b : List UInt8)
  | endOfFile
  /-- No bytes are there now. -/
  | wouldBlock
  | interrupted
  | failed
  deriving DecidableEq

/-- Whether a pipe is open, and the bytes of an incomplete line. -/
structure LineReader where
  attached : Bool
  lines : LineSplitter

namespace LineReader

/-- No pipe is open and nothing was read. -/
def start : LineReader := ⟨false, .empty⟩

/-- The lines that reads bring, one read after another. -/
def readLines (r : LineReader) : List ReadOutcome → List String × LineReader
  | [] => ([], r)
  | .bytes b :: rest =>
    let (found, lines) := r.lines.push b
    let (more, r) := readLines { r with lines } rest
    (found ++ more, r)
  | .endOfFile :: _ =>
    let (tail, lines) := r.lines.flush
    (tail.toList, { r with lines })
  | .wouldBlock :: _ => ([], r)
  | .interrupted :: rest => r.readLines rest
  | .failed :: _ => ([], { r with attached := false })

/-- The lines that are there now. A pipe is opened first if none is open. -/
def poll (r : LineReader) (outcomes : List ReadOutcome) : List String × LineReader :=
  readLines { r with attached := true } outcomes

end LineReader

/-- A path that control lines come in by, the channel that is open for reading and the bytes of an incomplete line. -/
structure CommandPipe where
  place : Place
  connection : Option Nat
  lines : LineSplitter

namespace CommandPipe

/-- Nothing is open yet. -/
def start (place : Place) : CommandPipe := ⟨place, none, .empty⟩

def isOpen (p : CommandPipe) : Bool := p.connection.isSome

/-- The number of bytes that one read asks for. -/
def pieceSize : Nat := 128

/-- Bytes cut into pieces of the size of a read. -/
def pieces : (fuel : Nat) → List UInt8 → List ReadOutcome
  | 0, _ => []
  | fuel + 1, b => if b = [] then [] else .bytes (b.take pieceSize) :: pieces fuel (b.drop pieceSize)

/-- What reads bring of bytes that are there. At their end comes the end of the file if no one is there to write, and
otherwise nothing for now. -/
def outcomes (b : List UInt8) (ended : Bool) : List ReadOutcome :=
  pieces b.length b ++ [if ended then .endOfFile else .wouldBlock]

/-- Puts a pipe at the path and opens it, if possible. -/
def attach (p : CommandPipe) : CommandPipe :=
  match p.place.renew with
  | (false, place) => { p with place }
  | (true, place) =>
    let (connection, place) := place.openReader
    { p with place, connection }

/-- The lines that are there now. -/
def poll (p : CommandPipe) : List String × CommandPipe :=
  let p := if p.isOpen then p else p.attach
  match p.connection with
  | none => ([], p)
  | some i =>
    let ended := p.place.unwritten i
    let (b, place) := p.place.readAll i
    let (found, r) := LineReader.readLines ⟨true, p.lines⟩ (outcomes (Buffer.toList b) ended)
    (found, { p with place, lines := r.lines })

/-- Closes the open channel and removes what is at the path. If none is open nothing is removed. -/
def drop (p : CommandPipe) : Place :=
  match p.connection with
  | none => p.place
  | some i => (p.place.closeReader i).remove.2

end CommandPipe

end Framecast
