import Framecast.Proofs.Frame.Reading
import Framecast.Proofs.Pipe.Recipients

/-!
# What a pipe holds

The bytes of each pipe are pieces of frames in the order of sending. A frame whose header is cut is the last one of its
pipe, and so is one whose picture is cut because the reader has gone. A frame whose picture is cut for another reason is
torn: the pipe stays at the path, and the next frame stands behind what was written of the torn one.
-/

namespace Framecast

/-! ## Pieces of frames -/

/-- The first bytes of a frame. -/
structure Piece where
  frame : Frame
  count : Nat

namespace Piece

variable {sent sent' : List Frame} {torn torn' : List Piece} {b : ByteArray} {x : Piece}

def bytes (x : Piece) : ByteArray := x.frame.encode.extract 0 x.count

def Whole (x : Piece) : Prop := x.frame.encode.size ≤ x.count

/-- Pieces one behind the other. -/
def joined (pieces : List Piece) : ByteArray := pieces.foldr (fun x b => x.bytes ++ b) .empty

/-- The bytes are pieces of frames in the order of sending, each of them whole or torn. -/
def Aligned (sent : List Frame) (torn : List Piece) (b : ByteArray) : Prop :=
  ∃ pieces : List Piece, (pieces.map frame).Sublist sent ∧ b = joined pieces ∧ ∀ x ∈ pieces, x.Whole ∨ x ∈ torn

/-- The bytes are such pieces, perhaps with a piece of a later frame behind them. -/
def Cut (sent : List Frame) (torn : List Piece) (b : ByteArray) : Prop :=
  Aligned sent torn b ∨ ∃ (earlier : List Frame) (before : ByteArray) (x : Piece),
    (earlier ++ [x.frame]).Sublist sent ∧ Aligned earlier torn before ∧ b = before ++ x.bytes

theorem joined_concat (pieces : List Piece) (x : Piece) : joined (pieces ++ [x]) = joined pieces ++ x.bytes := by
  induction pieces with
  | nil => simp [joined]
  | cons y pieces ih =>
      simp only [joined, List.cons_append, List.foldr_cons] at ih ⊢
      rw [ih, ByteArray.append_assoc]

theorem extract_of_size_le {b : ByteArray} {n : Nat} (h : b.size ≤ n) : b.extract 0 n = b :=
  ByteArray.ext (by rw [ByteArray.data_extract]; exact Array.extract_eq_self_of_le h)

theorem bytes_of_whole (hx : x.Whole) : x.bytes = x.frame.encode := extract_of_size_le hx

/-- The first bytes of a header are the first bytes of its frame. -/
theorem header_extract (f : Frame) (n : Nat) :
    f.header.toBytes.extract 0 n = bytes ⟨f, min n FrameHeader.length⟩ := by
  have hsize := f.header.size_toBytes
  have hbehind : f.pixels.extract (0 - f.header.toBytes.size) (min n FrameHeader.length - f.header.toBytes.size) =
      .empty := ByteArray.extract_eq_empty_iff.mpr (by omega)
  simp only [bytes, Frame.encode, ByteArray.extract_append, hbehind, ByteArray.append_empty]
  rcases Nat.le_total n FrameHeader.length with hn | hn
  · rw [Nat.min_eq_left hn]
  · rw [Nat.min_eq_right hn, extract_of_size_le (by omega), extract_of_size_le (by omega)]

/-- A header and the first bytes of its picture are the first bytes of the frame. -/
theorem header_append_extract (f : Frame) (n : Nat) :
    f.header.toBytes ++ f.pixels.extract 0 n = bytes ⟨f, FrameHeader.length + n⟩ := by
  have hsize := f.header.size_toBytes
  simp only [bytes, Frame.encode, ByteArray.extract_append, hsize, Nat.zero_sub, Nat.add_sub_cancel_left]
  rw [extract_of_size_le (b := f.header.toBytes) (by omega)]

/-- Whole pieces are written frames. -/
theorem joined_of_whole {pieces : List Piece} (h : ∀ x ∈ pieces, x.Whole) (rest : ByteArray) :
    joined pieces ++ rest = Frame.encodeAll (pieces.map frame) rest := by
  induction pieces with
  | nil => simp [joined, Frame.encodeAll]
  | cons x pieces ih =>
      obtain ⟨hx, hpieces⟩ := List.forall_mem_cons.mp h
      have hrest := ih hpieces
      simp only [joined, Frame.encodeAll, List.foldr_cons, List.map_cons] at hrest ⊢
      rw [bytes_of_whole hx, ByteArray.append_assoc, hrest]

theorem aligned_empty (sent : List Frame) (torn : List Piece) : Aligned sent torn .empty :=
  ⟨[], List.nil_sublist _, rfl, by simp⟩

theorem Aligned.mono (h : Aligned sent torn b) (hsent : sent.Sublist sent') (htorn : torn ⊆ torn') :
    Aligned sent' torn' b := by
  obtain ⟨pieces, horder, hbytes, hpieces⟩ := h
  exact ⟨pieces, horder.trans hsent, hbytes, fun x hx => (hpieces x hx).imp_right (htorn ·)⟩

theorem Cut.mono (h : Cut sent torn b) (hsent : sent.Sublist sent') (htorn : torn ⊆ torn') : Cut sent' torn' b := by
  rcases h with h | ⟨earlier, before, x, horder, hbefore, hbytes⟩
  · exact .inl (h.mono hsent htorn)
  · exact .inr ⟨earlier, before, x, horder.trans hsent, hbefore.mono (List.Sublist.refl _) htorn, hbytes⟩

theorem Aligned.concat (h : Aligned sent torn b) {f : Frame} {n : Nat} (hx : Whole ⟨f, n⟩ ∨ ⟨f, n⟩ ∈ torn) :
    Aligned (sent ++ [f]) torn (b ++ bytes ⟨f, n⟩) := by
  obtain ⟨pieces, horder, rfl, hpieces⟩ := h
  refine ⟨pieces ++ [⟨f, n⟩], ?_, (joined_concat pieces _).symm, ?_⟩
  · rw [List.map_append]
    exact horder.append (List.Sublist.refl _)
  · exact List.forall_mem_append.mpr ⟨hpieces, List.forall_mem_singleton.mpr hx⟩

/-- Behind whole and torn pieces any piece can be the last one. -/
theorem Aligned.cut (h : Aligned sent torn b) (f : Frame) (n : Nat) : Cut (sent ++ [f]) torn (b ++ bytes ⟨f, n⟩) :=
  .inr ⟨sent, b, ⟨f, n⟩, List.Sublist.refl _, h, rfl⟩

/-- Without torn frames the pieces are whole frames. -/
theorem Aligned.exists_frames (h : Aligned sent [] b) :
    ∃ frames : List Frame, frames.Sublist sent ∧ ∀ rest, b ++ rest = Frame.encodeAll frames rest := by
  obtain ⟨pieces, horder, rfl, hpieces⟩ := h
  exact ⟨pieces.map frame, horder, joined_of_whole fun x hx => (hpieces x hx).resolve_right List.not_mem_nil⟩

/-- Without torn frames the pieces are whole frames and a cut one at most. -/
theorem Cut.exists_frames (h : Cut sent [] b) :
    (∃ frames : List Frame, frames.Sublist sent ∧ b = Frame.encodeAll frames .empty) ∨
      ∃ (frames : List Frame) (f : Frame) (n : Nat), (frames ++ [f]).Sublist sent ∧ n < f.encode.size ∧
        b = Frame.encodeAll frames (f.encode.extract 0 n) := by
  rcases h with h | ⟨earlier, before, x, horder, hbefore, rfl⟩
  · obtain ⟨frames, hframes, hbytes⟩ := h.exists_frames
    exact .inl ⟨frames, hframes, by rw [← hbytes, ByteArray.append_empty]⟩
  obtain ⟨frames, hframes, hbytes⟩ := hbefore.exists_frames
  have hboth : (frames ++ [x.frame]).Sublist sent := (hframes.append (List.Sublist.refl _)).trans horder
  by_cases hx : x.Whole
  · refine .inl ⟨frames ++ [x.frame], hboth, ?_⟩
    rw [bytes_of_whole hx, hbytes, Frame.encodeAll, Frame.encodeAll, List.foldr_append, List.foldr_cons,
      List.foldr_nil, ByteArray.append_empty]
  · exact .inr ⟨frames, x.frame, x.count, hboth, Nat.not_le.mp hx, hbytes _⟩

end Piece

namespace Place

open Piece

variable {p : Place} {old i : Nat} {sent sent' all all' : List Frame} {torn torn' : List Piece} {tail : ByteArray}
  {f : Channel → Channel}

/-- The bytes that were written to a channel. -/
def writtenTo (p : Place) (i : Nat) : Option ByteArray := p.channels[i]?.map Channel.written

/-- The pipe at the path holds whole and torn pieces of the frames sent so far and some bytes behind them; every other
pipe since the first one is cut at its end at most. -/
structure Framed (old : Nat) (sent all : List Frame) (torn : List Piece) (i : Nat) (tail : ByteArray) (p : Place) :
    Prop where
  node : p.node = some i
  le : old ≤ i
  live : ∃ c b, p.channels[i]? = some c ∧ c.written = b ++ tail ∧ Aligned sent torn b
  pipes : ∀ (j : Nat) (c : Channel), old ≤ j → p.channels[j]? = some c →
    c.kind = .pipe ∧ (j ≠ i → Cut all torn c.written)

theorem Framed.mono (h : p.Framed old sent all torn i tail) (hsent : sent.Sublist sent') (hall : all.Sublist all')
    (htorn : torn ⊆ torn') : p.Framed old sent' all' torn' i tail where
  node := h.node
  le := h.le
  live := by
    obtain ⟨c, b, hc, hwritten, hb⟩ := h.live
    exact ⟨c, b, hc, hwritten, hb.mono hsent htorn⟩
  pipes j c hj hc := ⟨(h.pipes j c hj hc).1, fun hne => ((h.pipes j c hj hc).2 hne).mono hall htorn⟩

theorem Framed.kindAt_eq (h : p.Framed old sent all torn i tail) : p.kindAt i = some .pipe := by
  obtain ⟨c, -, hc, -⟩ := h.live
  rw [kindAt, hc, Option.map_some, (h.pipes i c h.le hc).1]

theorem Framed.modify (h : p.Framed old sent all torn i tail)
    (hf : ∀ c, (f c).kind = c.kind ∧ (f c).written = c.written) (j : Nat) :
    (p.modify j f).Framed old sent all torn i tail where
  node := h.node
  le := h.le
  live := by
    obtain ⟨c, b, hc, hwritten, hb⟩ := h.live
    rw [getElem?_modify, hc]
    split
    · exact ⟨f c, b, rfl, (hf c).2.trans hwritten, hb⟩
    · exact ⟨c, b, rfl, hwritten, hb⟩
  pipes k c hk hc := by
    rw [getElem?_modify] at hc
    split at hc
    · obtain ⟨d, hd, rfl⟩ := Option.map_eq_some_iff.mp hc
      rw [(hf d).1, (hf d).2]
      exact h.pipes k d hk hd
    · exact h.pipes k c hk hc

theorem Framed.openReader (h : p.Framed old sent all torn i tail) :
    p.openReader.2.Framed old sent all torn i tail := by
  unfold Place.openReader
  split
  · exact h
  · exact h.modify (f := Channel.openedToRead) (fun _ => ⟨rfl, rfl⟩) _

theorem Framed.closeWriter (h : p.Framed old sent all torn i tail) (j : Nat) :
    (p.closeWriter j).Framed old sent all torn i tail :=
  h.modify (by simp) j

theorem Framed.closeReader (h : p.Framed old sent all torn i tail) (j : Nat) :
    (p.closeReader j).Framed old sent all torn i tail :=
  h.modify (by simp) j

theorem Framed.write (h : p.Framed old sent all torn i tail) (b : ByteArray) :
    (p.write i b).Framed old sent all torn i (tail ++ b) where
  node := h.node
  le := h.le
  live := by
    obtain ⟨c, before, hc, hwritten, hbefore⟩ := h.live
    refine ⟨c.afterWriting b, before, ?_, ?_, hbefore⟩
    · rw [Place.write, getElem?_modify, if_pos rfl, hc, Option.map_some]
    · rw [Channel.afterWriting, if_neg (by simp [(h.pipes i c h.le hc).1]), ← ByteArray.append_assoc, ← hwritten]
  pipes k c hk hc := by
    rw [Place.write, getElem?_modify] at hc
    split at hc
    · rename_i hik
      obtain ⟨d, hd, rfl⟩ := Option.map_eq_some_iff.mp hc
      exact ⟨(d.kind_afterWriting b).trans (h.pipes k d hk hd).1, fun hne => absurd hik.symm hne⟩
    · exact h.pipes k c hk hc

/-- The last bytes become part of the pieces. -/
theorem Framed.advance (h : p.Framed old sent all torn i tail) (hall : all.Sublist all') (htorn : torn ⊆ torn')
    (htail : ∀ b, Aligned sent torn b → Aligned sent' torn' (b ++ tail)) : p.Framed old sent' all' torn' i .empty where
  node := h.node
  le := h.le
  live := by
    obtain ⟨c, b, hc, hwritten, hb⟩ := h.live
    exact ⟨c, b ++ tail, hc, by rw [hwritten, ByteArray.append_empty], htail b hb⟩
  pipes j c hj hc := ⟨(h.pipes j c hj hc).1, fun hne => ((h.pipes j c hj hc).2 hne).mono hall htorn⟩

/-- A fresh pipe takes the place of the one at the path, which is left as it is. -/
theorem Framed.renew (h : p.Framed old sent all torn i tail)
    (htail : ∀ b, Aligned sent torn b → Cut all torn (b ++ tail)) :
    p.renew.2.Framed old sent all torn p.channels.size .empty := by
  obtain ⟨c, b, hc, hwritten, hb⟩ := h.live
  have hkind : c.kind = .pipe := (h.pipes i c h.le hc).1
  have hdirectory : p.isDirectory = false := by simp [isDirectory, current?, h.node, hc, hkind]
  have hi : i < p.channels.size := (Array.getElem?_eq_some_iff.mp hc).1
  rw [renew_eq, hdirectory]
  have hfresh : ({ p with node := none }.put (.fresh .pipe)).channels[p.channels.size]? = some (.fresh .pipe) := by
    simp [put]
  refine ⟨rfl, Nat.le_trans h.le (Nat.le_of_lt hi), ⟨_, .empty, hfresh, rfl, aligned_empty sent torn⟩, ?_⟩
  intro j d hj hd
  simp only [put, Bool.false_eq_true, ↓reduceIte, Array.getElem?_push] at hd
  split at hd
  · cases hd
    exact ⟨rfl, fun hne => absurd ‹_› hne⟩
  · refine ⟨(h.pipes j d hj hd).1, fun _ => ?_⟩
    by_cases hji : j = i
    · subst hji
      obtain rfl : c = d := Option.some.inj (hc.symm.trans hd)
      rw [hwritten]
      exact htail b hb
    · exact (h.pipes j d hj hd).2 hji

end Place

namespace FramePipe

open Piece Place

variable {p : FramePipe} {old i : Nat} {sent all : List Frame} {torn : List Piece} {tail : ByteArray} {f : Frame}

/-! ## Sending a frame -/

theorem framed_disconnect (h : p.place.Framed old sent all torn i tail) :
    p.disconnect.place.Framed old sent all torn i tail := by
  unfold disconnect
  split
  · exact h
  · exact h.closeWriter _

/-- After a failure the next bytes go to a fresh pipe. -/
theorem framed_renew (h : p.place.Framed old sent all torn i tail)
    (htail : ∀ b, Aligned sent torn b → Cut all torn (b ++ tail)) :
    p.renew.place.Framed old sent all torn p.place.channels.size .empty :=
  framed_disconnect (p := { p with place := p.place.renew.2 }) (h.renew htail)

theorem framed_cut (h : p.place.Framed old sent all torn i tail) (b : ByteArray) (count : Nat) (gone : Bool) :
    (p.writeSome i b (.cut count gone)).place.Framed old sent all torn i (tail ++ b.extract 0 count) :=
  h.write _

/-- What comes of writing the header of a frame. -/
inductive Headed (old : Nat) (sent : List Frame) (torn : List Piece) (f : Frame) :
    Bool × FramePipe × List WriteOutcome → Prop
  /-- The header stands behind the pieces in the open pipe. -/
  | written {p : FramePipe} {i : Nat} {rest : List WriteOutcome} (hp : p.connection = some i)
      (h : p.place.Framed old sent (sent ++ [f]) torn i f.header.toBytes) : Headed old sent torn f (true, p, rest)
  /-- No channel is open, and the pipe at the path has nothing of the header. -/
  | unwritten {p : FramePipe} {i : Nat} {rest : List WriteOutcome} (hp : p.connection = none)
      (h : p.place.Framed old sent (sent ++ [f]) torn i .empty) : Headed old sent torn f (false, p, rest)

theorem headed_writeHeader (hp : p.connection = some i) (h : p.place.Framed old sent (sent ++ [f]) torn i .empty)
    (outcomes : List WriteOutcome) : Headed old sent torn f (p.writeHeader i f.header.toBytes outcomes) := by
  rcases p.writeHeader_cases i f.header.toBytes outcomes with ⟨rest, hheader⟩ | ⟨count, gone, rest, hheader⟩ <;>
    rw [hheader]
  · have hwritten := h.write f.header.toBytes
    rw [ByteArray.empty_append] at hwritten
    exact .written hp hwritten
  · refine .unwritten (connection_renew _) (framed_renew (framed_cut h f.header.toBytes count gone) fun b hb => ?_)
    rw [ByteArray.empty_append, header_extract]
    exact hb.cut f _

theorem headed_connectAndWrite (hp : p.connection = none) (h : p.place.Framed old sent (sent ++ [f]) torn i .empty)
    (arrivals : List Bool) (outcomes : List WriteOutcome) :
    Headed old sent torn f (connectAndWrite f.header.toBytes arrivals outcomes p) := by
  -- Each attempt either leaves the pipe at the path alone or cuts a header in it and puts another one there.
  induction arrivals generalizing outcomes p i with
  | nil => exact .unwritten hp h
  | cons arrived later ih =>
      obtain ⟨place, hplace, hframed⟩ : ∃ place, (if arrived then p.place.openReader.2 else p.place) = place ∧
          place.Framed old sent (sent ++ [f]) torn i .empty := by
        cases arrived with
        | true => exact ⟨_, rfl, h.openReader⟩
        | false => exact ⟨_, rfl, h⟩
      rw [connectAndWrite, hplace]
      rcases openWriter_cases place with hopening | hopening | ⟨j, ⟨hnode, -⟩, hopening⟩ <;> simp only [hopening]
      · exact ih (p := ⟨place, p.connection⟩) hp hframed outcomes
      · refine ih (connection_renew _) (framed_renew hframed fun b hb => ?_) outcomes
        rw [ByteArray.append_empty]
        exact .inl (hb.mono (List.sublist_append_left _ _) (List.Subset.refl _))
      · obtain rfl : i = j := Option.some.inj (hframed.node.symm.trans hnode)
        have hheaded := headed_writeHeader (p := ⟨place.modify i Channel.openedToWrite, some i⟩) rfl
          (hframed.modify (f := Channel.openedToWrite) (fun _ => ⟨rfl, rfl⟩) i) outcomes
        revert hheaded
        generalize writeHeader ⟨place.modify i Channel.openedToWrite, some i⟩ i f.header.toBytes outcomes = result
        rintro (⟨hp, h⟩ | ⟨hp, h⟩)
        · exact .written hp h
        · exact ih hp h _

theorem headed_sendHeader (hp : p.connection = none ∨ p.connection = some i)
    (h : p.place.Framed old sent (sent ++ [f]) torn i .empty) (arrivals : List Bool) (outcomes : List WriteOutcome) :
    Headed old sent torn f (p.sendHeader f.header.toBytes arrivals outcomes) := by
  unfold sendHeader
  rcases hp with hp | hp <;> simp only [hp]
  · exact headed_connectAndWrite hp h arrivals outcomes
  · have hheaded := headed_writeHeader hp h outcomes
    revert hheaded
    generalize p.writeHeader i f.header.toBytes outcomes = result
    rintro (⟨hp, h⟩ | ⟨hp, h⟩)
    · exact .written hp h
    · exact headed_connectAndWrite hp h arrivals _

/-- The piece of a frame that is torn when its picture is written: what was written before a failure for which the
reader is not to blame. -/
def tornPicture (p : FramePipe) (f : Frame) (outcomes : List WriteOutcome) : List Piece :=
  match p.connection.map fun i => (nextOutcome p.place i f.pixels outcomes).1 with
  | some (.cut count false) => [⟨f, FrameHeader.length + count⟩]
  | _ => []

/-- The piece of a frame that is torn when the frame is sent. -/
def tornFrame (p : FramePipe) (f : Frame) (arrivals : List Bool) (outcomes : List WriteOutcome) : List Piece :=
  match (if p.intact then p else p.renew).sendHeader f.header.toBytes arrivals outcomes with
  | (false, _, _) => []
  | (true, q, rest) => q.tornPicture f rest

theorem frame_of_mem_tornFrame {x : Piece} {arrivals : List Bool} {outcomes : List WriteOutcome}
    (h : x ∈ p.tornFrame f arrivals outcomes) : x.frame = f := by
  simp only [tornFrame, tornPicture] at h
  split at h
  · cases h
  · split at h
    · rw [List.mem_singleton.mp h]
    · cases h

/-- Between two frames the pipe at the path holds whole and torn pieces, and no other channel is open. -/
def Steady (old : Nat) (sent : List Frame) (torn : List Piece) (p : FramePipe) : Prop :=
  ∃ i, p.place.Framed old sent sent torn i .empty ∧ (p.connection = none ∨ p.connection = some i)

theorem steady_sendPicture (hp : p.connection = some i)
    (h : p.place.Framed old sent (sent ++ [f]) torn i f.header.toBytes) (outcomes : List WriteOutcome) :
    Steady old (sent ++ [f]) (torn ++ p.tornPicture f outcomes) (p.sendPicture f.pixels outcomes) := by
  rw [sendPicture_cases hp, tornPicture, hp, Option.map_some]
  cases (nextOutcome p.place i f.pixels outcomes).1 with
  | complete =>
      refine ⟨i, (h.write f.pixels).advance (List.Sublist.refl _) (List.subset_append_left _ _) fun b hb => ?_, .inr hp⟩
      have hwhole : (⟨f, f.encode.size⟩ : Piece).Whole := by simp only [Whole, Nat.le_refl]
      rw [← Frame.encode, ← bytes_of_whole hwhole]
      exact (hb.mono (List.Sublist.refl _) (List.subset_append_left _ _)).concat (.inl hwhole)
  | cut count gone =>
      have hwritten := framed_cut h f.pixels count gone
      rw [header_append_extract] at hwritten
      -- If the reader has gone the piece is the last one of a pipe that nobody finds any more; otherwise it is torn.
      cases gone with
      | true =>
          have hrenewed := framed_renew hwritten fun b hb => hb.cut f _
          exact ⟨_, hrenewed.mono (List.sublist_append_left _ _) (List.Sublist.refl _) (List.subset_append_left _ _),
            .inl (connection_renew _)⟩
      | false =>
          refine ⟨i, framed_disconnect (hwritten.advance (List.Sublist.refl _) (List.subset_append_left _ _)
            fun b hb => ?_), .inl (connection_disconnect _)⟩
          exact (hb.mono (List.Sublist.refl _) (List.subset_append_left _ _)).concat (.inr (by simp))

theorem Steady.intact (h : Steady old sent torn p) : p.intact = true := by
  obtain ⟨i, hi, hp⟩ := h
  refine intact_eq_true_iff.mpr fun j hj => ?_
  obtain rfl : i = j := by
    rcases hp with hp | hp <;> rw [hp] at hj <;> cases hj
    rfl
  exact ⟨hi.node, hi.kindAt_eq⟩

theorem Steady.headed (h : Steady old sent torn p) (f : Frame) (arrivals : List Bool) (outcomes : List WriteOutcome) :
    Headed old sent torn f (p.sendHeader f.header.toBytes arrivals outcomes) := by
  obtain ⟨i, hi, hp⟩ := h
  exact headed_sendHeader hp (hi.mono (List.Sublist.refl _) (List.sublist_append_left _ [f]) (List.Subset.refl _))
    arrivals outcomes

theorem steady_send (h : Steady old sent torn p) (f : Frame) (arrivals : List Bool) (outcomes : List WriteOutcome) :
    Steady old (sent ++ [f]) (torn ++ p.tornFrame f arrivals outcomes) (p.send f arrivals outcomes) := by
  have hheaded := h.headed f arrivals outcomes
  rw [send, tornFrame, if_pos h.intact]
  revert hheaded
  generalize p.sendHeader f.header.toBytes arrivals outcomes = result
  rintro (⟨hq, hj⟩ | ⟨hq, hj⟩)
  · exact steady_sendPicture hq hj _
  · exact ⟨_, hj.mono (List.sublist_append_left _ _) (List.Sublist.refl _) (List.subset_append_left _ _), .inl hq⟩

/-- If no channel is open and nothing fails, the next frame stands behind what the pipe at the path holds. -/
theorem send_behind (hp : p.connection = none) (h : p.place.Framed old sent all torn i tail) :
    ∃ b, ∀ (g : Frame) (later : List Bool),
      (p.send g (true :: later) []).place.writtenTo i = some (b ++ tail ++ g.encode) := by
  obtain ⟨c, b, hc, hwritten, -⟩ := h.live
  have hkind : c.kind = .pipe := (h.pipes i c h.le hc).1
  refine ⟨b, fun g later => ?_⟩
  obtain ⟨d, hdkind, hdwritten, -, hsent⟩ := send_unhindered hp h.node hc (.inr ⟨hkind, rfl⟩) g later
  have hpipe : d.kind ≠ .file := by simp [hdkind, hkind]
  rw [writtenTo, hsent]
  simp only [Option.map_some, Channel.afterWriting, if_neg hpipe, hdwritten, hwritten, Frame.encode,
    ByteArray.append_assoc]

/-- A torn frame leaves its pipe at the path and nothing open, so that the next frame stands behind it. -/
theorem send_behind_torn (h : Steady old sent torn p) {arrivals : List Bool} {outcomes : List WriteOutcome} {x : Piece}
    (hx : x ∈ p.tornFrame f arrivals outcomes) :
    ∃ i b, ∀ (g : Frame) (later : List Bool),
      ((p.send f arrivals outcomes).send g (true :: later) []).place.writtenTo i =
        some (b ++ x.bytes ++ g.encode) := by
  have hheaded := h.headed f arrivals outcomes
  rw [tornFrame, if_pos h.intact] at hx
  rw [send, if_pos h.intact]
  revert hheaded hx
  generalize p.sendHeader f.header.toBytes arrivals outcomes = result
  rintro hx (⟨hq, hj⟩ | ⟨hq, hj⟩)
  · simp only [tornPicture, hq, Option.map_some] at hx
    simp only [sendPicture_cases hq]
    split at hx
    · rename_i count houtcome
      obtain rfl := List.mem_singleton.mp hx
      have hwritten := framed_cut hj f.pixels count false
      rw [header_append_extract] at hwritten
      simp only [Option.some.inj houtcome]
      exact ⟨_, send_behind (connection_disconnect _) (framed_disconnect hwritten)⟩
    · cases hx
  · cases hx

/-! ## A run -/

/-- What happens to the pipes when nobody else touches their path: frames are sent, and readers come, read and go. -/
inductive PipeEvent where
  | send (f : Frame) (arrivals : List Bool) (outcomes : List WriteOutcome)
  | openReader
  | closeReader (i : Nat)
  | read (i : Nat)

def PipeEvent.frames : PipeEvent → List Frame
  | .send f _ _ => [f]
  | .openReader | .closeReader _ | .read _ => []

def take (p : FramePipe) : PipeEvent → FramePipe
  | .send f arrivals outcomes => p.send f arrivals outcomes
  | .openReader => { p with place := p.place.openReader.2 }
  | .closeReader i => { p with place := p.place.closeReader i }
  | .read i => { p with place := (p.place.readAll i).2 }

def after (p : FramePipe) (events : List PipeEvent) : FramePipe := events.foldl take p

/-- The pieces that are torn by an event. -/
def tornBy (p : FramePipe) : PipeEvent → List Piece
  | .send f arrivals outcomes => p.tornFrame f arrivals outcomes
  | .openReader | .closeReader _ | .read _ => []

/-- The pieces that are torn in a run. -/
def tornIn (p : FramePipe) : List PipeEvent → List Piece
  | [] => []
  | e :: later => p.tornBy e ++ (p.take e).tornIn later

theorem steady_take (h : Steady old sent torn p) (e : PipeEvent) :
    Steady old (sent ++ e.frames) (torn ++ p.tornBy e) (p.take e) := by
  cases e with
  | send f arrivals outcomes => exact steady_send h f arrivals outcomes
  | openReader =>
      obtain ⟨i, hi, hp⟩ := h
      simp only [PipeEvent.frames, tornBy, List.append_nil]
      exact ⟨i, hi.openReader, hp⟩
  | closeReader j =>
      obtain ⟨i, hi, hp⟩ := h
      simp only [PipeEvent.frames, tornBy, List.append_nil]
      exact ⟨i, hi.closeReader j, hp⟩
  | read j =>
      obtain ⟨i, hi, hp⟩ := h
      simp only [PipeEvent.frames, tornBy, List.append_nil]
      exact ⟨i, hi.modify (f := fun c => { c with taken := c.written.size }) (fun _ => ⟨rfl, rfl⟩) j, hp⟩

theorem steady_after (h : Steady old sent torn p) (events : List PipeEvent) :
    Steady old (sent ++ events.flatMap PipeEvent.frames) (torn ++ p.tornIn events) (p.after events) := by
  induction events generalizing p sent torn with
  | nil => simpa [after, tornIn] using h
  | cons e later ih =>
      have hlater := ih (steady_take h e)
      rwa [List.append_assoc, List.append_assoc] at hlater

theorem writesOnly_take (p : FramePipe) (e : PipeEvent) : p.place.WritesOnly p.Recipient (p.take e).place := by
  cases e with
  | send f arrivals outcomes => exact p.writesOnly_send f arrivals outcomes
  | openReader => exact writesOnly_openReader _ _
  | closeReader i => exact writesOnly_closeReader _ _ i
  | read i => exact writesOnly_readAll _ _ i

/-- A channel that is not at the path is never written to again. -/
theorem writtenTo_after {b : ByteArray} (hi : p.place.node ≠ some i) (hb : p.place.writtenTo i = some b)
    (events : List PipeEvent) : (p.after events).place.writtenTo i = some b := by
  induction events generalizing p with
  | nil => exact hb
  | cons e later ih =>
      have hwrites := p.writesOnly_take e
      obtain ⟨c, hc, rfl⟩ := Option.map_eq_some_iff.mp hb
      obtain ⟨d, hd, -, hsame⟩ := hwrites.known i c hc
      obtain ⟨hwritten, -⟩ := hsame.resolve_left fun hrecipient => hi hrecipient.1
      refine ih (fun hnode => ?_) (by rw [writtenTo, hd, Option.map_some, hwritten])
      -- Only a fresh pipe comes to the path, and this channel is not fresh.
      rcases hwrites.node i hnode with hnode | hnone
      · exact hi hnode
      · cases hc.symm.trans hnone

theorem place_of_create {path : String} {place : Place} (h : create path place = .ok p) :
    p.connection = none ∧ p.place = { place with node := none }.put (.fresh .pipe) := by
  rw [create, renew_eq] at h
  split at h
  · rename_i hrenew
    split at hrenew
    · cases hrenew
    · cases hrenew
      cases h
      exact ⟨rfl, rfl⟩
  · cases h

/-- The path begins with a pipe that nothing was written to. -/
theorem steady_create {path : String} {place : Place} (h : create path place = .ok p) :
    Steady place.channels.size [] [] p := by
  obtain ⟨hp, hplace⟩ := place_of_create h
  refine ⟨place.channels.size, ⟨?_, Nat.le_refl _, ⟨.fresh .pipe, .empty, ?_, rfl, aligned_empty _ _⟩, ?_⟩, .inl hp⟩
  · rw [hplace, put]
  · rw [hplace, put, Array.getElem?_push, if_pos rfl]
  · intro j c hj hc
    rw [hplace, put, Array.getElem?_push] at hc
    split at hc
    · cases hc
      exact ⟨rfl, fun hne => absurd ‹_› hne⟩
    · have hnone : place.channels[j]? = none := Array.getElem?_eq_none hj
      cases hnone.symm.trans hc

/-- What was at the path before is left as it was. -/
theorem writtenTo_of_create {path : String} {place : Place} {b : ByteArray} (h : create path place = .ok p)
    (hb : place.writtenTo i = some b) (events : List PipeEvent) : (p.after events).place.writtenTo i = some b := by
  obtain ⟨-, hplace⟩ := place_of_create h
  obtain ⟨c, hc, rfl⟩ := Option.map_eq_some_iff.mp hb
  have hi : place.channels.size ≠ i := fun hi => by simp [← hi] at hc
  refine writtenTo_after ?_ ?_ events
  · rw [hplace, put]
    exact fun hnode => hi (Option.some.inj hnode)
  · rw [writtenTo, hplace, put, Array.getElem?_push, if_neg hi.symm, hc, Option.map_some]

/-- The pipe at the path holds whole and torn pieces. Every other one that frames were sent through is cut at its end at
most, and nothing more is written to it. -/
theorem Steady.pieces (h : Steady old sent torn p) {b : ByteArray} (hi : old ≤ i)
    (hb : p.place.writtenTo i = some b) :
    p.place.kindAt i = some .pipe ∧ (Aligned sent torn b ∨
      Cut sent torn b ∧ ∀ later, (p.after later).place.writtenTo i = some b) := by
  obtain ⟨k, hk, -⟩ := h
  obtain ⟨c, hc, rfl⟩ := Option.map_eq_some_iff.mp hb
  obtain ⟨hkind, hcut⟩ := hk.pipes i c hi hc
  refine ⟨by rw [kindAt, hc, Option.map_some, hkind], ?_⟩
  by_cases hik : i = k
  · subst hik
    obtain ⟨d, b, hd, hwritten, hb⟩ := hk.live
    obtain rfl : c = d := Option.some.inj (hc.symm.trans hd)
    rw [hwritten, ByteArray.append_empty]
    exact .inl hb
  · refine .inr ⟨hcut hik, writtenTo_after (fun hnode => hik ?_) hb⟩
    exact Option.some.inj (hnode.symm.trans hk.node)

/-- Every pipe gets pieces of frames in the order of sending: whole frames, torn ones and at its end perhaps a cut one,
after which nothing more is written to it. If no frame is torn these are whole frames and a cut one at most; but behind
a torn one stands the next frame. -/
theorem pieces_of_pipes {path : String} {place : Place} (h : create path place = .ok p) (events : List PipeEvent) :
    let q := p.after events
    let sent := events.flatMap PipeEvent.frames
    (∀ i b, place.writtenTo i = some b → q.place.writtenTo i = some b) ∧
    (∀ i b, place.channels.size ≤ i → q.place.writtenTo i = some b → q.place.kindAt i = some .pipe ∧
      (Aligned sent (p.tornIn events) b ∨
        Cut sent (p.tornIn events) b ∧ ∀ later, (q.after later).place.writtenTo i = some b)) ∧
    (p.tornIn events = [] → ∀ i b, place.channels.size ≤ i → q.place.writtenTo i = some b →
      (∃ frames, frames.Sublist sent ∧ b = Frame.encodeAll frames .empty) ∨
        (∃ frames f n, (frames ++ [f]).Sublist sent ∧ n < f.encode.size ∧
          b = Frame.encodeAll frames (f.encode.extract 0 n)) ∧
        ∀ later, (q.after later).place.writtenTo i = some b) ∧
    ∀ f arrivals outcomes, ∀ x ∈ q.tornFrame f arrivals outcomes, ∃ i b, ∀ (g : Frame) (later : List Bool),
      ((q.send f arrivals outcomes).send g (true :: later) []).place.writtenTo i =
        some (b ++ x.bytes ++ g.encode) := by
  intro q sent
  have hsteady : Steady place.channels.size sent (p.tornIn events) q := steady_after (steady_create h) events
  refine ⟨?_, fun i b hi hb => hsteady.pieces hi hb, ?_, fun f arrivals outcomes x hx => send_behind_torn hsteady hx⟩
  · exact fun i b hb => writtenTo_of_create h hb events
  · intro htorn i b hi hb
    rw [htorn] at hsteady
    obtain ⟨-, halign | ⟨hcut, hfinal⟩⟩ := hsteady.pieces hi hb
    · obtain ⟨frames, hframes, hbytes⟩ := halign.exists_frames
      exact .inl ⟨frames, hframes, by rw [← hbytes, ByteArray.append_empty]⟩
    · exact hcut.exists_frames.imp_right fun hframes => ⟨hframes, hfinal⟩

/-- A frame of which one byte of the picture is written is the last one of its pipe if the reader has gone, but
otherwise the next frame stands behind it. -/
theorem pieces_of_pipes_of_cut_picture :
    let f : Frame := ⟨1, 1, Buffer.ofList [4, 5, 6, 7]⟩
    let p : FramePipe := ⟨⟨#[.fresh .pipe], some 0⟩, none⟩
    let events : List PipeEvent := [.send f [true] [.complete, .cut 1 true], .send f [true] []]
    create "frames" .empty = .ok p ∧
      (p.tornIn events = [] ∧ (p.after events).place.writtenTo 0 = some (bytes ⟨f, 17⟩) ∧
        ((∃ frames, frames.Sublist [f, f] ∧ bytes ⟨f, 17⟩ = Frame.encodeAll frames .empty) ∨
          (∃ frames g n, (frames ++ [g]).Sublist [f, f] ∧ n < g.encode.size ∧
            bytes ⟨f, 17⟩ = Frame.encodeAll frames (g.encode.extract 0 n)) ∧
          ∀ later, ((p.after events).after later).place.writtenTo 0 = some (bytes ⟨f, 17⟩))) ∧
      ∃ i b, ((p.send f [true] [.complete, .cut 1 false]).send f [true] []).place.writtenTo i =
        some (b ++ bytes ⟨f, 17⟩ ++ f.encode) := by
  intro f p events
  have hcreate : create "frames" .empty = .ok p := rfl
  have hnothing : p.tornIn events = [] := by decide +kernel
  have hwritten : (p.after events).place.writtenTo 0 = some (bytes ⟨f, 17⟩) := by decide +kernel
  have htorn : 17 ∈ ((p.after []).tornFrame f [true] [.complete, .cut 1 false]).map Piece.count := by decide +kernel
  obtain ⟨⟨g, n⟩, hmem, rfl⟩ := List.mem_map.mp htorn
  obtain rfl : g = f := frame_of_mem_tornFrame hmem
  obtain ⟨i, b, hnext⟩ := (pieces_of_pipes hcreate []).2.2.2 f [true] [.complete, .cut 1 false] ⟨f, 17⟩ hmem
  exact ⟨hcreate, ⟨hnothing, hwritten, (pieces_of_pipes hcreate events).2.2.1 hnothing 0 _ (Nat.le_refl 0) hwritten⟩,
    i, b, hnext f []⟩

end FramePipe

end Framecast
