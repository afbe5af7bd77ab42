import Framecast.Pipe.FramePipe

/-!
# Where frames go

Which channels a frame is written to. `Place.WritesOnly` says of two states of a place that bytes were written to the
channels of a set and to fresh pipes at most; every step of sending a frame keeps to it.
-/

namespace Framecast

namespace Channel

variable (c : Channel)

@[simp] theorem kind_afterClosing : c.afterClosing.kind = c.kind := by
  unfold afterClosing
  split <;> rfl

@[simp] theorem written_afterClosing : c.afterClosing.written = c.written := by
  unfold afterClosing
  split <;> rfl

@[simp] theorem position_afterClosing : c.afterClosing.position = c.position := by
  unfold afterClosing
  split <;> rfl

@[simp] theorem kind_afterWriting (b : ByteArray) : (c.afterWriting b).kind = c.kind := by
  unfold afterWriting
  split <;> rfl

@[simp] theorem readers_afterWriting (b : ByteArray) : (c.afterWriting b).readers = c.readers := by
  unfold afterWriting
  split <;> rfl

end Channel

namespace Place

variable {p q r : Place} {S T : Nat → Prop} {i : Nat} {f : Channel → Channel}

theorem getElem?_modify (p : Place) (i : Nat) (f : Channel → Channel) (j : Nat) :
    (p.modify i f).channels[j]? = if i = j then p.channels[j]?.map f else p.channels[j]? := by
  simp only [modify, Array.getElem?_modify]

/-- The kind of a channel. -/
def kindAt (p : Place) (i : Nat) : Option ChannelKind := p.channels[i]?.map Channel.kind

/-- What kind of channel is at the path. -/
def holds (p : Place) : Option ChannelKind := p.node.bind p.kindAt

theorem kindAt_modify (hkind : ∀ c, (f c).kind = c.kind) (p : Place) (i j : Nat) :
    (p.modify i f).kindAt j = p.kindAt j := by
  rw [kindAt, getElem?_modify]
  split
  · cases h : p.channels[j]? <;> simp [kindAt, h, hkind]
  · rfl

theorem broken_modify (hf : ∀ c, (f c).kind = c.kind ∧ (f c).readers = c.readers) (p : Place) (i j : Nat) :
    (p.modify i f).broken j = p.broken j := by
  rw [broken, getElem?_modify]
  split
  · cases h : p.channels[j]? <;> simp [broken, h, hf]
  · rfl

/-! ## What was written from one state to a later one -/

/-- A channel is the same from one state of a place to a later one, as far as bytes written to it are concerned. -/
def Untouched (p q : Place) (i : Nat) : Prop :=
  ∃ c d : Channel, p.channels[i]? = some c ∧ q.channels[i]? = some d ∧ d.kind = c.kind ∧ d.written = c.written ∧
    d.position = c.position

/-- From one state of a place to a later one bytes were written to the channels of a set and to fresh pipes at most, and
nothing but a fresh pipe came to the path. -/
structure WritesOnly (S : Nat → Prop) (p q : Place) : Prop where
  known : ∀ (i : Nat) (c : Channel), p.channels[i]? = some c →
    ∃ d, q.channels[i]? = some d ∧ d.kind = c.kind ∧ (S i ∨ d.written = c.written ∧ d.position = c.position)
  fresh : ∀ (i : Nat) (d : Channel), p.channels[i]? = none → q.channels[i]? = some d → d.kind = .pipe
  node : ∀ i, q.node = some i → p.node = some i ∨ p.channels[i]? = none

theorem WritesOnly.of_channels_eq (S : Nat → Prop) (h : q.channels = p.channels)
    (hnode : ∀ i, q.node = some i → p.node = some i) : p.WritesOnly S q where
  known i c hc := ⟨c, h ▸ hc, rfl, .inr ⟨rfl, rfl⟩⟩
  fresh i d hnone hd := by
    rw [h, hnone] at hd
    cases hd
  node i hi := .inl (hnode i hi)

theorem WritesOnly.refl (S : Nat → Prop) (p : Place) : p.WritesOnly S p := .of_channels_eq S rfl fun _ hi => hi

theorem WritesOnly.getElem?_eq_none (h : p.WritesOnly S q) (hnone : q.channels[i]? = none) : p.channels[i]? = none := by
  cases hc : p.channels[i]? with
  | none => rfl
  | some c =>
      obtain ⟨d, hd, -⟩ := h.known i c hc
      cases hnone.symm.trans hd

theorem WritesOnly.trans (h : p.WritesOnly S q) (h' : q.WritesOnly T r)
    (hT : ∀ i, T i → S i ∨ p.channels[i]? = none) : p.WritesOnly S r where
  known i c hc := by
    obtain ⟨d, hd, hkind, hsame⟩ := h.known i c hc
    obtain ⟨e, he, hkind', hsame'⟩ := h'.known i d hd
    refine ⟨e, he, hkind'.trans hkind, ?_⟩
    rcases hsame' with hi | ⟨hwritten', hposition'⟩
    · exact .inl ((hT i hi).resolve_right (by simp [hc]))
    · exact hsame.imp_right fun ⟨hwritten, hposition⟩ => ⟨hwritten'.trans hwritten, hposition'.trans hposition⟩
  fresh i e hnone he := by
    cases hd : q.channels[i]? with
    | none => exact h'.fresh i e hd he
    | some d =>
        obtain ⟨e', he', hkind, -⟩ := h'.known i d hd
        obtain rfl : e' = e := Option.some.inj (he'.symm.trans he)
        exact hkind.trans (h.fresh i d hnone hd)
  node i hi := (h'.node i hi).elim (h.node i) fun hnone => .inr (h.getElem?_eq_none hnone)

theorem writesOnly_modify (hkind : ∀ c, (f c).kind = c.kind)
    (hsame : S i ∨ ∀ c, (f c).written = c.written ∧ (f c).position = c.position) : p.WritesOnly S (p.modify i f) where
  known j c hc := by
    rw [getElem?_modify, hc]
    split
    · rename_i hij
      subst hij
      exact ⟨f c, rfl, hkind c, hsame.imp_right fun h => h c⟩
    · exact ⟨c, rfl, rfl, .inr ⟨rfl, rfl⟩⟩
  fresh j d hnone hd := by
    rw [getElem?_modify, hnone] at hd
    split at hd <;> cases hd
  node j hj := .inl hj

theorem writesOnly_openReader (S : Nat → Prop) (p : Place) : p.WritesOnly S p.openReader.2 := by
  unfold openReader
  split
  · exact .refl S p
  · exact writesOnly_modify (fun _ => rfl) (.inr fun _ => ⟨rfl, rfl⟩)

theorem writesOnly_closeWriter (S : Nat → Prop) (p : Place) (i : Nat) : p.WritesOnly S (p.closeWriter i) :=
  writesOnly_modify (by simp) (.inr (by simp))

theorem writesOnly_closeReader (S : Nat → Prop) (p : Place) (i : Nat) : p.WritesOnly S (p.closeReader i) :=
  writesOnly_modify (by simp) (.inr (by simp))

theorem writesOnly_readAll (S : Nat → Prop) (p : Place) (i : Nat) : p.WritesOnly S (p.readAll i).2 :=
  writesOnly_modify (f := fun c => { c with taken := c.written.size }) (fun _ => rfl) (.inr fun _ => ⟨rfl, rfl⟩)

theorem writesOnly_write (hi : S i) (b : ByteArray) : p.WritesOnly S (p.write i b) :=
  writesOnly_modify (by simp) (.inl hi)

theorem writesOnly_put (S : Nat → Prop) (p : Place) : p.WritesOnly S (p.put (.fresh .pipe)) where
  known i c hc := by
    have hi : i ≠ p.channels.size := fun h => by simp [h] at hc
    exact ⟨c, by rw [put, Array.getElem?_push, if_neg hi, hc], rfl, .inr ⟨rfl, rfl⟩⟩
  fresh i d hnone hd := by
    rw [put, Array.getElem?_push, hnone] at hd
    split at hd <;> cases hd
    rfl
  node i hi := by
    cases hi
    simp

theorem renew_eq (p : Place) : p.renew =
    if p.isDirectory then (false, p) else (true, { p with node := none }.put (.fresh .pipe)) := by
  cases h : p.isDirectory <;> simp [renew, remove, h]

theorem writesOnly_renew (S : Nat → Prop) (p : Place) : p.WritesOnly S p.renew.2 := by
  rw [renew_eq]
  split
  · exact .refl S p
  · exact (WritesOnly.of_channels_eq S rfl (by simp)).trans (writesOnly_put S _) fun i hi => .inl hi

/-! ## What can be written to at the path -/

/-- The channel is at the path and can be opened for writing. -/
def Writable (p : Place) (i : Nat) : Prop := p.node = some i ∧ (p.kindAt i = some .pipe ∨ p.kindAt i = some .file)

theorem node_openReader (p : Place) : p.openReader.2.node = p.node := by
  unfold openReader
  split <;> rfl

theorem kindAt_openReader (p : Place) (i : Nat) : p.openReader.2.kindAt i = p.kindAt i := by
  unfold openReader
  split
  · rfl
  · exact kindAt_modify (f := Channel.openedToRead) (fun _ => rfl) p _ i

/-- After a renewal nothing that was there before can be written to at the path. -/
theorem getElem?_of_writable_renew (h : p.renew.2.Writable i) : p.channels[i]? = none := by
  obtain ⟨hnode, hkind⟩ := h
  by_cases hdirectory : p.isDirectory = true
  · simp only [renew_eq, if_pos hdirectory, kindAt] at hnode hkind
    rcases hkind with hkind | hkind <;> obtain ⟨c, hc, hkind⟩ := Option.map_eq_some_iff.mp hkind <;>
      simp [isDirectory, current?, hnode, hc, hkind] at hdirectory
  · simp only [renew_eq, if_neg hdirectory] at hnode
    cases hnode
    simp

/-- What is opened for writing can be written to at the path. -/
theorem openWriter_cases (p : Place) :
    p.openWriter = (.noReader, p) ∨ p.openWriter = (.failed, p) ∨
      ∃ i, p.Writable i ∧ p.openWriter = (.opened i, p.modify i Channel.openedToWrite) := by
  unfold openWriter
  split
  · rename_i i c hnode hcurrent
    have hc : p.channels[i]? = some c := by simpa [current?, hnode] using hcurrent
    split
    · exact .inr (.inl rfl)
    rename_i hdirectory
    split
    · exact .inl rfl
    · refine .inr (.inr ⟨i, ⟨hnode, ?_⟩, rfl⟩)
      cases hkind : c.kind with
      | pipe => exact .inl (by simp [kindAt, hc, hkind])
      | file => exact .inr (by simp [kindAt, hc, hkind])
      | directory => exact absurd hkind hdirectory
  · exact .inr (.inl rfl)

end Place

namespace FramePipe

open Place

variable {o : Place} {p q : FramePipe} {S T : Nat → Prop} {i : Nat}

/-- From an earlier state of the place on, bytes were written to the channels of a set and to fresh pipes at most, and
the open channel is one of these. -/
structure KeepsTo (S : Nat → Prop) (o : Place) (p : FramePipe) : Prop where
  writes : o.WritesOnly S p.place
  connection : ∀ i, p.connection = some i → S i ∨ o.channels[i]? = none

theorem KeepsTo.after (h : KeepsTo T q.place p) (hwrites : o.WritesOnly S q.place)
    (hT : ∀ i, T i → S i ∨ o.channels[i]? = none) : KeepsTo S o p where
  writes := hwrites.trans h.writes hT
  connection i hi := (h.connection i hi).elim (hT i) fun hnone => .inr (hwrites.getElem?_eq_none hnone)

theorem connection_disconnect (p : FramePipe) : p.disconnect.connection = none := by
  unfold disconnect
  split
  · assumption
  · rfl

theorem writesOnly_renew (S : Nat → Prop) (p : FramePipe) : p.place.WritesOnly S p.renew.place := by
  unfold renew disconnect
  split
  · exact p.place.writesOnly_renew S
  · exact (p.place.writesOnly_renew S).trans (writesOnly_closeWriter S _ _) fun i hi => .inl hi

theorem connection_renew (p : FramePipe) : p.renew.connection = none := connection_disconnect _

theorem writable_renew (p : FramePipe) : p.renew.place.Writable i ↔ p.place.renew.2.Writable i := by
  unfold renew disconnect
  split
  · rfl
  · have hkind (c : Channel) : ({ c with writers := c.writers - 1 } : Channel).afterClosing.kind = c.kind := by simp
    simp only [Writable, closeWriter, kindAt_modify hkind]
    rfl

theorem writesOnly_writeSome (p : FramePipe) (hi : S i) (b : ByteArray) (outcome : WriteOutcome) :
    p.place.WritesOnly S (p.writeSome i b outcome).place := by
  cases outcome <;> exact writesOnly_write hi _

theorem writeHeader_cases (p : FramePipe) (i : Nat) (header : ByteArray) (outcomes : List WriteOutcome) :
    (∃ rest, p.writeHeader i header outcomes = (true, p.writeSome i header .complete, rest)) ∨ ∃ count gone rest,
      p.writeHeader i header outcomes = (false, (p.writeSome i header (.cut count gone)).renew, rest) := by
  simp only [writeHeader]
  split
  · rename_i houtcome
    exact .inl ⟨_, by rw [houtcome]⟩
  · rename_i count gone houtcome
    exact .inr ⟨count, gone, _, by rw [houtcome]⟩

theorem sendPicture_cases (hp : p.connection = some i) (pixels : ByteArray) (outcomes : List WriteOutcome) :
    p.sendPicture pixels outcomes = match (nextOutcome p.place i pixels outcomes).1 with
      | .complete => p.writeSome i pixels .complete
      | .cut count true => (p.writeSome i pixels (.cut count true)).renew
      | .cut count false => (p.writeSome i pixels (.cut count false)).disconnect := by
  simp only [sendPicture, hp]
  cases houtcome : (nextOutcome p.place i pixels outcomes).1 with
  | complete => rfl
  | cut count gone => cases gone <;> rfl

/-- After a renewal a frame goes on to fresh pipes only. -/
theorem KeepsTo.retry (h : KeepsTo q.renew.place.Writable q.renew.place p) (hwrites : o.WritesOnly S q.place) :
    KeepsTo S o p :=
  h.after (hwrites.trans (writesOnly_renew S q) fun _ hi => .inl hi) fun _ hi =>
    .inr (hwrites.getElem?_eq_none (getElem?_of_writable_renew ((writable_renew q).mp hi)))

theorem keepsTo_connectAndWrite (hp : p.connection = none) (header : ByteArray) (arrivals : List Bool)
    (outcomes : List WriteOutcome) :
    KeepsTo p.place.Writable p.place (connectAndWrite header arrivals outcomes p).2.1 := by
  -- The bound is what is at the path now. After a renewal only the fresh pipe is, so later attempts add nothing to it.
  induction arrivals generalizing outcomes p with
  | nil => exact ⟨.refl _ _, fun i hi => by cases hp.symm.trans hi⟩
  | cons arrived later ih =>
      obtain ⟨place, hplace, hwrites, hwritable⟩ : ∃ place,
          (if arrived then p.place.openReader.2 else p.place) = place ∧ p.place.WritesOnly p.place.Writable place ∧
            ∀ i, place.Writable i ↔ p.place.Writable i := by
        cases arrived with
        | true =>
            refine ⟨p.place.openReader.2, rfl, writesOnly_openReader _ _, fun i => ?_⟩
            rw [Writable, node_openReader, kindAt_openReader, Writable]
        | false => exact ⟨_, rfl, .refl _ _, fun i => Iff.rfl⟩
      rw [connectAndWrite, hplace]
      rcases openWriter_cases place with hopening | hopening | ⟨i, hi, hopening⟩ <;> simp only [hopening]
      · exact (ih (p := ⟨place, p.connection⟩) hp outcomes).after hwrites fun i hi => .inl ((hwritable i).mp hi)
      · exact (ih (connection_renew _) outcomes).retry (q := ⟨place, p.connection⟩) hwrites
      · have hi := (hwritable i).mp hi
        have hopened : p.place.WritesOnly p.place.Writable (place.modify i Channel.openedToWrite) :=
          hwrites.trans (writesOnly_modify (fun _ => rfl) (.inl hi)) fun i hi => .inl hi
        have hwritten (outcome : WriteOutcome) : p.place.WritesOnly p.place.Writable
            (writeSome ⟨place.modify i Channel.openedToWrite, some i⟩ i header outcome).place :=
          hopened.trans (writesOnly_writeSome ⟨place.modify i Channel.openedToWrite, some i⟩ hi header outcome)
            fun i hi => .inl hi
        rcases writeHeader_cases ⟨place.modify i Channel.openedToWrite, some i⟩ i header outcomes with
          ⟨rest, hheader⟩ | ⟨count, gone, rest, hheader⟩ <;> simp only [hheader]
        · exact ⟨hwritten _, fun j hj => by cases hj; exact .inl hi⟩
        · exact (ih (connection_renew _) rest).retry (hwritten _)

theorem keepsTo_sendHeader (hS : ∀ i, p.connection = some i ∨ p.connection = none ∧ p.place.Writable i → S i)
    (header : ByteArray) (arrivals : List Bool) (outcomes : List WriteOutcome) :
    KeepsTo S p.place (p.sendHeader header arrivals outcomes).2.1 := by
  unfold sendHeader
  split
  · rename_i hp
    exact (keepsTo_connectAndWrite hp header arrivals outcomes).after (.refl _ _) fun i hi =>
      .inl (hS i (.inr ⟨hp, hi⟩))
  · rename_i i hp
    have hi : S i := hS i (.inl hp)
    rcases p.writeHeader_cases i header outcomes with ⟨rest, hheader⟩ | ⟨count, gone, rest, hheader⟩ <;>
      simp only [hheader]
    · refine ⟨writesOnly_writeSome p hi header _, fun j hj => .inl (hS j (.inl ?_))⟩
      exact hj
    · exact (keepsTo_connectAndWrite (connection_renew _) header arrivals rest).retry
        (writesOnly_writeSome p hi header _)

theorem writesOnly_disconnect (S : Nat → Prop) (p : FramePipe) : p.place.WritesOnly S p.disconnect.place := by
  unfold disconnect
  split
  · exact .refl S _
  · exact writesOnly_closeWriter S _ _

theorem writesOnly_sendPicture (h : KeepsTo S o p) (pixels : ByteArray) (outcomes : List WriteOutcome) :
    o.WritesOnly S (p.sendPicture pixels outcomes).place := by
  cases hp : p.connection with
  | none =>
      simp only [sendPicture, hp]
      exact h.writes
  | some i =>
      have hwritten (outcome : WriteOutcome) : o.WritesOnly S (p.writeSome i pixels outcome).place :=
        h.writes.trans (writesOnly_writeSome (S := (· = i)) p rfl pixels outcome) fun j hj => hj ▸ h.connection i hp
      rw [sendPicture_cases hp]
      split
      · exact hwritten _
      · exact (hwritten _).trans (writesOnly_renew S _) fun i hi => .inl hi
      · exact (hwritten _).trans (writesOnly_disconnect S _) fun i hi => .inl hi

/-- The channels that a frame can be written to: what is at the path, if no channel is open or this one is open and a
pipe. -/
def Recipient (p : FramePipe) (i : Nat) : Prop :=
  p.place.node = some i ∧ (p.connection = some i ∧ p.place.kindAt i = some .pipe ∨
    p.connection = none ∧ (p.place.kindAt i = some .pipe ∨ p.place.kindAt i = some .file))

theorem intact_eq_true_iff : p.intact = true ↔
    ∀ i, p.connection = some i → p.place.node = some i ∧ p.place.kindAt i = some .pipe := by
  unfold intact
  split
  · rename_i hp
    simp [hp]
  · rename_i i hp
    simp only [hp, Option.some.injEq, forall_eq', Bool.and_eq_true, Option.any_eq_true, beq_iff_eq, kindAt,
      Option.map_eq_some_iff]
    exact And.comm

/-- A frame is written to its recipient and to fresh pipes only. -/
theorem writesOnly_send (p : FramePipe) (f : Frame) (arrivals : List Bool) (outcomes : List WriteOutcome) :
    p.place.WritesOnly p.Recipient (p.send f arrivals outcomes).place := by
  have hsend (q : FramePipe) (hq : (if p.intact then p else p.renew) = q)
      (h : KeepsTo p.Recipient p.place (q.sendHeader f.header.toBytes arrivals outcomes).2.1) :
      p.place.WritesOnly p.Recipient (p.send f arrivals outcomes).place := by
    simp only [send, hq]
    split
    · rename_i hheader
      rw [hheader] at h
      exact h.writes
    · rename_i hheader
      rw [hheader] at h
      exact writesOnly_sendPicture h _ _
  by_cases hintact : p.intact
  · refine hsend p (if_pos hintact) (keepsTo_sendHeader ?_ _ _ _)
    rintro i (hp | ⟨hp, hnode, hkind⟩)
    · obtain ⟨hnode, hkind⟩ := intact_eq_true_iff.mp hintact i hp
      exact ⟨hnode, .inl ⟨hp, hkind⟩⟩
    · exact ⟨hnode, .inr ⟨hp, hkind⟩⟩
  · refine hsend p.renew (if_neg hintact) (KeepsTo.retry (q := p) (keepsTo_sendHeader ?_ _ _ _) (.refl _ _))
    rintro i (hi | ⟨-, hi⟩)
    · cases (connection_renew p).symm.trans hi
    · exact hi

/-! ## A frame of which every write is complete -/

theorem nextOutcome_of_not_broken {place : Place} (h : place.broken i = false) (b : ByteArray) :
    nextOutcome place i b [] = (.complete, []) := by
  simp [nextOutcome, h]

/-- If no channel is open and nothing fails, the channel at the path gets the header and the picture. A pipe has to be
read for that. -/
theorem send_unhindered {c : Channel} {arrived : Bool} (hp : p.connection = none) (hnode : p.place.node = some i)
    (hc : p.place.channels[i]? = some c) (hkind : c.kind = .file ∨ c.kind = .pipe ∧ arrived = true) (f : Frame)
    (later : List Bool) :
    ∃ d : Channel, d.kind = c.kind ∧ d.written = c.written ∧ d.position = 0 ∧
      (p.send f (arrived :: later) []).place.channels[i]? =
        some ((d.afterWriting f.header.toBytes).afterWriting f.pixels) := by
  have hintact : p.intact = true := intact_eq_true_iff.mpr fun i hi => by cases hp.symm.trans hi
  obtain ⟨place, d, hplace, hnode, hd, hdkind, hwritten, hreaders⟩ : ∃ place d,
      (if arrived then p.place.openReader.2 else p.place) = place ∧ place.node = some i ∧
        place.channels[i]? = some d ∧ d.kind = c.kind ∧ d.written = c.written ∧ (c.kind = .file ∨ d.readers ≠ 0) := by
    cases arrived with
    | true =>
        refine ⟨_, c.openedToRead, rfl, (node_openReader _).trans hnode, ?_, rfl, rfl, .inr (Nat.succ_ne_zero _)⟩
        simp only [openReader, hnode, getElem?_modify, hc, ↓reduceIte, Option.map_some]
    | false => exact ⟨_, c, rfl, hnode, hc, rfl, rfl, .inl (hkind.resolve_right (by simp))⟩
  have hdirectory : d.kind ≠ .directory := by
    rcases hkind with hkind | ⟨hkind, -⟩ <;> simp [hdkind, hkind]
  have hread : ¬ (d.kind = .pipe ∧ d.readers = 0) := by
    rintro ⟨hpipe, hnone⟩
    rcases hreaders with hfile | hreaders
    · cases hfile.symm.trans (hdkind.symm.trans hpipe)
    · exact hreaders hnone
  have hopening : place.openWriter = (.opened i, place.modify i Channel.openedToWrite) := by
    simp only [openWriter, current?, hnode, Option.bind_some, hd, if_neg hdirectory, if_neg hread]
  have hopened : (place.modify i Channel.openedToWrite).broken i = false := by
    simpa [broken, getElem?_modify, hd, Channel.openedToWrite] using hread
  have hheader : ((place.modify i Channel.openedToWrite).write i f.header.toBytes).broken i = false := by
    rw [write, broken_modify (by simp), hopened]
  refine ⟨d.openedToWrite, hdkind, hwritten, rfl, ?_⟩
  rw [send, if_pos hintact]
  simp only [sendHeader, hp, connectAndWrite, hplace, hopening, writeHeader, nextOutcome_of_not_broken hopened,
    writeSome, sendPicture, nextOutcome_of_not_broken hheader]
  simp only [write, getElem?_modify, hd, ↓reduceIte, Option.map_some]

/-! ## A file at the path -/

/-- A file that begins with some bytes and is written behind them. -/
structure Begins (c : Channel) (b : ByteArray) : Prop where
  kind_eq : c.kind = .file
  position_eq : c.position = b.size
  written_eq : ∃ rest, c.written = b ++ rest

theorem Begins.afterWriting {c : Channel} {b : ByteArray} (h : Begins c b) (next : ByteArray) :
    Begins (c.afterWriting next) (b ++ next) := by
  obtain ⟨hkind, hposition, rest, hwritten⟩ := h
  rw [Channel.afterWriting, if_pos hkind]
  refine ⟨hkind, ?_, (b ++ rest).extract (b.size + next.size) (b ++ rest).size, ?_⟩
  · simp only [hposition, ByteArray.size_append]
  · simp only [hposition, hwritten, ByteArray.extract_append_eq_left rfl]

/-- A file at the path gets a whole frame, if no channel is open. -/
theorem send_file (hp : p.connection = none) (hnode : p.place.node = some i) (hfile : p.place.kindAt i = some .file)
    (f : Frame) (arrived : Bool) (later : List Bool) :
    ∃ c, (p.send f (arrived :: later) []).place.channels[i]? = some c ∧ Begins c f.encode := by
  obtain ⟨c, hc, hkind⟩ := Option.map_eq_some_iff.mp hfile
  obtain ⟨d, hdkind, -, hposition, hsent⟩ := send_unhindered hp hnode hc (.inl hkind) f later
  have hbegins : Begins d .empty := ⟨hdkind.trans hkind, hposition, d.written, ByteArray.empty_append.symm⟩
  have hwritten := (hbegins.afterWriting f.header.toBytes).afterWriting f.pixels
  rw [ByteArray.empty_append] at hwritten
  exact ⟨_, hsent, hwritten⟩

/-- A frame is written to pipes, and to those that were put at the path for it if no pipe was there; but if no channel
is open and a file is at the path, the frame is written over the file. -/
theorem send_reaches_pipes (p : FramePipe) (f : Frame) (arrivals : List Bool) (outcomes : List WriteOutcome) :
    let q := p.send f arrivals outcomes
    (∀ i, i < q.place.channels.size → q.place.kindAt i = some .pipe ∨ p.place.Untouched q.place i ∨
      p.connection = none ∧ p.place.node = some i ∧ p.place.kindAt i = some .file) ∧
    (p.place.holds ≠ some .pipe → ¬ (p.connection = none ∧ p.place.holds = some .file) →
      ∀ i, i < p.place.channels.size → p.place.Untouched q.place i) ∧
    (∀ i, p.connection = none → p.place.node = some i → p.place.kindAt i = some .file → arrivals ≠ [] →
      outcomes = [] → ∃ c, q.place.channels[i]? = some c ∧ Begins c f.encode) := by
  intro q
  have hwrites := p.writesOnly_send f arrivals outcomes
  refine ⟨?_, ?_, ?_⟩
  · intro i hi
    cases hc : p.place.channels[i]? with
    | none => exact .inl (by simp [kindAt, hi, hwrites.fresh i _ hc (Array.getElem?_eq_getElem hi)])
    | some c =>
        obtain ⟨d, hd, hkind, hsame⟩ := hwrites.known i c hc
        have hkindAt : q.place.kindAt i = p.place.kindAt i := by
          rw [kindAt, kindAt, hc, hd, Option.map_some, Option.map_some, hkind]
        rcases hsame with ⟨hnode, ⟨-, hpipe⟩ | ⟨hp, hpipe | hfile⟩⟩ | hsame
        · exact .inl (hkindAt.trans hpipe)
        · exact .inl (hkindAt.trans hpipe)
        · exact .inr (.inr ⟨hp, hnode, hfile⟩)
        · exact .inr (.inl ⟨c, d, hc, hd, hkind, hsame⟩)
  · intro hpipe hfile i hi
    obtain ⟨d, hd, hkind, hsame⟩ := hwrites.known i _ (Array.getElem?_eq_getElem hi)
    refine ⟨_, d, Array.getElem?_eq_getElem hi, hd, hkind, hsame.resolve_left ?_⟩
    rintro ⟨hnode, ⟨-, hkind⟩ | ⟨hp, hkind | hkind⟩⟩
    · exact hpipe (by simp [holds, hnode, hkind])
    · exact hpipe (by simp [holds, hnode, hkind])
    · exact hfile ⟨hp, by simp [holds, hnode, hkind]⟩
  · rintro i hp hnode hfile harrivals rfl
    obtain ⟨arrived, later, rfl⟩ := List.exists_cons_of_ne_nil harrivals
    exact send_file hp hnode hfile f arrived later

/-- A file that took the place of the pipe is left alone by one who has the pipe open, and overwritten by one who has
nothing open. -/
theorem send_reaches_pipes_of_replaced_pipe :
    let place : Place := ⟨#[.fresh .pipe, .file (Buffer.ofList [1, 2, 3])], some 1⟩
    let f : Frame := ⟨1, 1, Buffer.ofList [4, 5, 6, 7]⟩
    (place.holds ≠ some .pipe ∧ place.Untouched (send ⟨place, some 0⟩ f [true, true] []).place 1) ∧
      ∃ c, (send ⟨place, none⟩ f [true, true] []).place.channels[1]? = some c ∧ Begins c f.encode := by
  intro place f
  have hholds : place.holds ≠ some .pipe := by decide
  refine ⟨⟨hholds, ?_⟩, ?_⟩
  · exact (send_reaches_pipes ⟨place, some 0⟩ f [true, true] []).2.1 hholds (by simp) 1 (by decide)
  · exact (send_reaches_pipes ⟨place, none⟩ f [true, true] []).2.2 1 rfl rfl rfl (by simp) rfl

end FramePipe

end Framecast
