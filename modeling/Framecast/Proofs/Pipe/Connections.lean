import Framecast.Pipe.CommandPipe

/-!
# Lines and connections

Which bytes a control line is made of. The lines of any number of calls are those of all their reads, one after another:
what is pending stays when a read fails and the pipe is opened anew. So a line holds bytes of one connection only if
nothing is pending whenever the pipe is opened; otherwise the first line of a connection begins with what the one before
it left.
-/

namespace Framecast

namespace LineSplitter

/-- The lines that one read completes. Only bytes and the end of the file matter. -/
def receive (s : LineSplitter) : ReadOutcome → List String × LineSplitter
  | .bytes b => s.push b
  | .endOfFile => (s.flush.1.toList, s.flush.2)
  | .wouldBlock | .interrupted | .failed => ([], s)

/-- The lines that reads complete one after another. -/
def receiveAll (s : LineSplitter) : List ReadOutcome → List String × LineSplitter
  | [] => ([], s)
  | o :: rest => ((s.receive o).1 ++ ((s.receive o).2.receiveAll rest).1, ((s.receive o).2.receiveAll rest).2)

theorem receiveAll_append (s : LineSplitter) (reads later : List ReadOutcome) :
    s.receiveAll (reads ++ later) = ((s.receiveAll reads).1 ++ ((s.receiveAll reads).2.receiveAll later).1,
      ((s.receiveAll reads).2.receiveAll later).2) := by
  induction reads generalizing s with
  | nil => rfl
  | cons o reads ih => simp only [List.cons_append, receiveAll, ih, List.append_assoc]

end LineSplitter

namespace LineReader

open LineSplitter

variable {r : LineReader} {script : List (List ReadOutcome)}

/-- The reads that a call makes: the first one that brings neither bytes nor an interruption is the last. -/
def readsMade : List ReadOutcome → List ReadOutcome
  | [] => []
  | .bytes b :: rest => .bytes b :: readsMade rest
  | .interrupted :: rest => .interrupted :: readsMade rest
  | .endOfFile :: _ => [.endOfFile]
  | .wouldBlock :: _ => [.wouldBlock]
  | .failed :: _ => [.failed]

/-- Calls one after another, each with the outcomes of its reads. -/
def polls (r : LineReader) : List (List ReadOutcome) → List String × LineReader
  | [] => ([], r)
  | outcomes :: later =>
    ((r.poll outcomes).1 ++ ((r.poll outcomes).2.polls later).1, ((r.poll outcomes).2.polls later).2)

/-- The reads of each connection, those of the present one first. A call that finds no pipe open begins a new one. -/
def connections (r : LineReader) (reads : List ReadOutcome) : List (List ReadOutcome) → List (List ReadOutcome)
  | [] => [reads]
  | outcomes :: later =>
    if r.attached then (r.poll outcomes).2.connections (reads ++ readsMade outcomes) later
    else reads :: (r.poll outcomes).2.connections (readsMade outcomes) later

theorem readLines_eq (r : LineReader) (outcomes : List ReadOutcome) :
    (r.readLines outcomes).1 = (r.lines.receiveAll (readsMade outcomes)).1 ∧
      (r.readLines outcomes).2.lines = (r.lines.receiveAll (readsMade outcomes)).2 := by
  induction outcomes generalizing r with
  | nil => exact ⟨rfl, rfl⟩
  | cons o rest ih =>
      cases o with
      | bytes b =>
          obtain ⟨hlines, hsplitter⟩ := ih { r with lines := (r.lines.push b).2 }
          exact ⟨congrArg ((r.lines.push b).1 ++ ·) hlines, hsplitter⟩
      | interrupted => exact ih r
      | endOfFile => simp [readLines, readsMade, receiveAll, receive]
      | wouldBlock => simp [readLines, readsMade, receiveAll, receive]
      | failed => simp [readLines, readsMade, receiveAll, receive]

theorem poll_eq (r : LineReader) (outcomes : List ReadOutcome) :
    (r.poll outcomes).1 = (r.lines.receiveAll (readsMade outcomes)).1 ∧
      (r.poll outcomes).2.lines = (r.lines.receiveAll (readsMade outcomes)).2 :=
  readLines_eq { r with attached := true } outcomes

/-- The lines of calls are the lines of all their reads. -/
theorem polls_eq (r : LineReader) (script : List (List ReadOutcome)) :
    (r.polls script).1 = (r.lines.receiveAll (script.flatMap readsMade)).1 ∧
      (r.polls script).2.lines = (r.lines.receiveAll (script.flatMap readsMade)).2 := by
  induction script generalizing r with
  | nil => exact ⟨rfl, rfl⟩
  | cons outcomes later ih =>
      obtain ⟨hfound, hlines⟩ := r.poll_eq outcomes
      obtain ⟨hmore, hrest⟩ := ih (r.poll outcomes).2
      rw [hlines] at hmore hrest
      simp only [polls, List.flatMap_cons, receiveAll_append, hfound, hmore, hrest, and_self]

/-- Whenever the pipe is opened no line is incomplete. -/
def OpensClean (r : LineReader) : List (List ReadOutcome) → Prop
  | [] => True
  | outcomes :: later => (r.attached = false → r.lines = .empty) ∧ (r.poll outcomes).2.OpensClean later

theorem polls_of_opensClean {reads : List ReadOutcome} (h : r.OpensClean script)
    (hreads : (LineSplitter.empty.receiveAll reads).2 = r.lines) :
    (LineSplitter.empty.receiveAll reads).1 ++ (r.polls script).1 =
      (r.connections reads script).flatMap fun c => (LineSplitter.empty.receiveAll c).1 := by
  -- `reads` are those of the present connection so far: `hreads` ties them to the line that is pending.
  induction script generalizing r reads with
  | nil => simp [polls, connections]
  | cons outcomes later ih =>
      obtain ⟨hclean, hlater⟩ := h
      obtain ⟨hfound, hlines⟩ := r.poll_eq outcomes
      simp only [polls, connections]
      split
      · have hboth := receiveAll_append .empty reads (readsMade outcomes)
        rw [hreads] at hboth
        rw [← ih hlater (by rw [hboth, hlines]), hboth, hfound, List.append_assoc]
      · rename_i hclosed
        rw [hclean (by simpa using hclosed)] at hfound hlines
        rw [List.flatMap_cons, ← ih hlater hlines.symm, hfound]

/-- What is pending when a read fails stands before what is read next. Only if nothing is, whenever the pipe is opened,
are the lines of all calls those of each connection by itself. -/
theorem lines_of_polls (script : List (List ReadOutcome)) :
    (start.polls script).1 = (LineSplitter.empty.receiveAll (script.flatMap readsMade)).1 ∧
      (∀ earlier later, script.flatMap readsMade = earlier ++ .failed :: later →
        (start.polls script).1 = (LineSplitter.empty.receiveAll earlier).1 ++
          ((LineSplitter.empty.receiveAll earlier).2.receiveAll later).1) ∧
      (start.OpensClean script → (start.polls script).1 =
        (start.connections [] script).flatMap fun c => (LineSplitter.empty.receiveAll c).1) := by
  obtain ⟨hlines, -⟩ := start.polls_eq script
  have hnothing : (LineSplitter.empty.receiveAll []).2 = start.lines := rfl
  refine ⟨hlines, fun earlier later hreads => ?_, fun hclean => polls_of_opensClean hclean hnothing⟩
  rw [hlines, hreads, start, receiveAll_append]
  rfl

/-- A failed read behind a whole line keeps two connections apart, and one inside a line joins them. -/
theorem lines_of_polls_after_failure :
    let clean : List (List ReadOutcome) := [[.bytes [117, 112, 10], .failed], [.bytes [113, 117, 105, 116], .endOfFile]]
    let torn : List (List ReadOutcome) := [[.bytes [113, 117], .failed], [.bytes [105, 116, 10], .wouldBlock]]
    (start.OpensClean clean ∧ (start.polls clean).1 =
      (start.connections [] clean).flatMap fun c => (LineSplitter.empty.receiveAll c).1) ∧
      (start.polls torn).1 = ["quit"] ∧
        ((start.connections [] torn).flatMap fun c => (LineSplitter.empty.receiveAll c).1) = ["it"] := by
  intro clean torn
  have hclean : start.OpensClean clean := ⟨fun _ => rfl, fun _ => rfl, trivial⟩
  have htorn := (lines_of_polls torn).1
  exact ⟨⟨hclean, (lines_of_polls clean).2.2 hclean⟩, htorn.trans (by decide), by decide⟩

end LineReader

end Framecast
