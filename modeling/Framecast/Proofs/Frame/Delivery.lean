import Framecast.Frame.Courier
import Framecast.Proofs.Canvas.Export

/-!
# What becomes of a frame

A frame that was handed over stands in the mailbox, then in the hands of the courier, then with the sink.
`Courier.Carries` says how the three make up the list of all frames handed over so far, and that there is room for one
frame only. The courier keeps it with every step, and so does everyone else who touches the mailbox. Whoever waits for
the courier waits for the sink: the steps that are waited for can be made if the sink returns.
-/

namespace Framecast

namespace Courier

variable {c : Courier} {handed : List Frame}

/-- The frame in the hands of the courier. -/
def held (c : Courier) : Option Frame :=
  match c.station with
  | .sending f => some f
  | .returning f => some f
  | _ => none

/-- The frame that the courier is about to send. -/
def outgoing (c : Courier) : Option Frame :=
  match c.station with
  | .sending f => some f
  | _ => none

/-- The next step of the courier is to hand a frame back. -/
def handsBack (c : Courier) : Bool :=
  match c.station with
  | .returning _ => true
  | _ => false

/-- The frames that were handed over and did not get to the sink yet. -/
def unsent (c : Courier) : List Frame := c.outgoing.toList ++ c.mailbox.staged.toList

/-- The frames that were handed over and not handed back yet. -/
def unfinished (c : Courier) : List Frame := c.held.toList ++ c.mailbox.staged.toList

/-- How the frames handed over so far are on their way. -/
structure Carries (c : Courier) (handed : List Frame) : Prop where
  sent : c.delivered ++ c.unsent <+: handed
  complete : c.mailbox.closed = false → c.delivered ++ c.unsent = handed
  published : c.mailbox.published = handed.length
  single : c.unfinished.length ≤ 1
  ready : c.mailbox.closed = false → (c.mailbox.ready = true ↔ c.unfinished ≠ [])
  closed : c.mailbox.closed = true → c.mailbox.staged = none

theorem closed_step (c : Courier) : c.step.mailbox.closed = c.mailbox.closed := by
  obtain ⟨⟨ready, staged, spare, closed, published⟩, stop, station, delivered⟩ := c
  cases station with
  | taking =>
      cases closed with
      | true => rfl
      | false => cases staged <;> rfl
  | _ => rfl

theorem stop_step (c : Courier) : c.step.stop = c.stop := by
  obtain ⟨⟨ready, staged, spare, closed, published⟩, stop, station, delivered⟩ := c
  cases station with
  | taking =>
      cases closed with
      | true => rfl
      | false => cases staged <;> rfl
  | _ => rfl

/-- Only a frame that is handed back makes the mailbox free. -/
theorem blocked_step (hkeeps : c.handsBack = false) : c.step.mailbox.blocked = c.mailbox.blocked := by
  obtain ⟨⟨ready, staged, spare, closed, published⟩, stop, station, delivered⟩ := c
  cases station with
  | taking =>
      cases closed with
      | true => rfl
      | false => cases staged <;> rfl
  | returning f => cases hkeeps
  | _ => rfl

theorem step_of_not_running (hgone : c.running = false) : c.step = c := by
  obtain ⟨mailbox, stop, station, delivered⟩ := c
  cases station with
  | gone => rfl
  | _ => cases hgone

theorem delivered_step (c : Courier) : c.delivered <+: c.step.delivered := by
  obtain ⟨⟨ready, staged, spare, closed, published⟩, stop, station, delivered⟩ := c
  cases station with
  | sending f => exact List.prefix_append _ _
  | taking =>
      cases closed with
      | true => exact List.prefix_refl _
      | false => cases staged <;> exact List.prefix_refl _
  | _ => exact List.prefix_refl _

/-- A courier without a frame on its way gets none by itself. -/
theorem unfinished_step (hnone : c.unfinished = []) : c.step.unfinished = [] := by
  obtain ⟨⟨ready, staged, spare, closed, published⟩, stop, station, delivered⟩ := c
  cases staged with
  | some f => exact absurd hnone (by simp [unfinished])
  | none =>
      cases station with
      | checking => cases stop <;> rfl
      | taking => cases closed <;> rfl
      | missed => cases closed <;> rfl
      | sending f => cases hnone
      | returning f => cases hnone
      | gone => rfl

theorem unsent_of_unfinished (hnone : c.unfinished = []) : c.unsent = [] := by
  obtain ⟨hheld, hstaged⟩ := List.append_eq_nil_iff.mp hnone
  obtain ⟨mailbox, stop, station, delivered⟩ := c
  cases station with
  | sending f => cases hheld
  | _ => exact hstaged

namespace Carries

theorem start : Courier.start.Carries [] where
  sent := List.prefix_refl _
  complete := fun _ => rfl
  published := rfl
  single := Nat.zero_le _
  ready := by simp [Courier.start, Mailbox.empty, unfinished, held]
  closed := fun _ => rfl

/-- Every step of the courier moves a frame one place further at most. -/
theorem step (hc : c.Carries handed) : c.step.Carries handed := by
  obtain ⟨⟨ready, staged, spare, closed, published⟩, stop, station, delivered⟩ := c
  obtain ⟨hsent, hcomplete, hpublished, hsingle, hready, hclosed⟩ := hc
  cases station with
  | checking => cases stop <;> exact ⟨hsent, hcomplete, hpublished, hsingle, hready, hclosed⟩
  | taking =>
      cases closed with
      | true => exact ⟨hsent, hcomplete, hpublished, hsingle, hready, hclosed⟩
      | false => cases staged <;> exact ⟨hsent, hcomplete, hpublished, hsingle, hready, fun _ => rfl⟩
  | missed => cases closed <;> exact ⟨hsent, hcomplete, hpublished, hsingle, hready, hclosed⟩
  | sending f =>
      have hmove : (delivered ++ [f]) ++ staged.toList = delivered ++ ([f] ++ staged.toList) := List.append_assoc ..
      exact ⟨hmove ▸ hsent, fun hopen => hmove.trans (hcomplete hopen), hpublished, hsingle, hready, hclosed⟩
  | returning f =>
      cases staged with
      | none =>
          exact ⟨hsent, hcomplete, hpublished, Nat.zero_le _, by simp [step, Mailbox.finish, unfinished, held], hclosed⟩
      | some g => exact absurd hsingle (by simp [unfinished, held])
  | gone => exact ⟨hsent, hcomplete, hpublished, hsingle, hready, hclosed⟩

/-- Whoever found the mailbox free finds no frame on its way. -/
theorem unfinished_of_free (hc : c.Carries handed) (hopen : c.mailbox.closed = false)
    (hfree : c.mailbox.blocked = false) : c.unfinished = [] := by
  refine Decidable.byContradiction fun hne => ?_
  have hready := (hc.ready hopen).mpr hne
  rw [Mailbox.ready_of_free hopen hfree] at hready
  cases hready

/-- Whoever finds the mailbox blocked finds it open, with a frame on its way. -/
theorem unfinished_of_blocked (hc : c.Carries handed) (hblocked : c.mailbox.blocked = true) :
    c.mailbox.closed = false ∧ c.unfinished ≠ [] := by
  obtain ⟨hready, hopen⟩ := Mailbox.blocked_iff.mp hblocked
  exact ⟨hopen, (hc.ready hopen).mp hready⟩

/-- Every frame was delivered when none is on its way. -/
theorem delivered_eq (hc : c.Carries handed) (hopen : c.mailbox.closed = false) (hnone : c.unfinished = []) :
    c.delivered = handed := by
  have hcomplete := hc.complete hopen
  rwa [unsent_of_unfinished hnone, List.append_nil] at hcomplete

/-- A canvas goes into an open mailbox while no frame is on its way. -/
theorem publish (hc : c.Carries handed) (hopen : c.mailbox.closed = false) (hnone : c.unfinished = [])
    (canvas : Canvas) : { c with mailbox := (c.mailbox.publish canvas).2 }.Carries (handed ++ [canvas.frame]) := by
  have hheld := (List.append_eq_nil_iff.mp hnone).1
  have houtgoing := (List.append_eq_nil_iff.mp (unsent_of_unfinished hnone)).1
  have hpublish : (c.mailbox.publish canvas).2 = { c.mailbox with
      ready := true, staged := some canvas.frame, spare := ByteArray.empty, published := c.mailbox.published + 1 } := by
    rw [Mailbox.publish_of_open hopen]
  have hunsent : Courier.unsent { c with mailbox := (c.mailbox.publish canvas).2 } = [canvas.frame] := by
    rw [hpublish]
    exact congrArg (· ++ [canvas.frame]) houtgoing
  have hunfinished : Courier.unfinished { c with mailbox := (c.mailbox.publish canvas).2 } = [canvas.frame] := by
    rw [hpublish]
    exact congrArg (· ++ [canvas.frame]) hheld
  have hall : c.delivered ++ Courier.unsent { c with mailbox := (c.mailbox.publish canvas).2 } =
      handed ++ [canvas.frame] := by
    rw [hunsent, hc.delivered_eq hopen hnone]
  constructor
  case sent => exact hall ▸ List.prefix_refl _
  case complete => exact fun _ => hall
  case published => simp [hpublish, hc.published]
  case single => simp [hunfinished]
  case ready =>
    intro _
    rw [hunfinished]
    simp [hpublish]
  case closed => simp [hpublish, hopen]

/-- A courier that is out of its loop after the mailbox was closed has no frame. -/
theorem unfinished_of_closed (hc : c.Carries handed) (hclosed : c.mailbox.closed = true)
    (hgone : c.running = false) : c.unfinished = [] := by
  obtain ⟨mailbox, stop, station, delivered⟩ := c
  have hstaged : mailbox.staged = none := hc.closed hclosed
  cases station with
  | gone => simp [unfinished, held, hstaged]
  | _ => cases hgone

/-- A closed mailbox refuses a canvas. -/
theorem publish_of_closed (hclosed : c.mailbox.closed = true) (canvas : Canvas) :
    (c.mailbox.publish canvas).2 = c.mailbox := by
  simp only [Mailbox.publish, hclosed, ↓reduceIte]

theorem raiseStop (hc : c.Carries handed) : c.raiseStop.Carries handed :=
  ⟨hc.sent, hc.complete, hc.published, hc.single, hc.ready, hc.closed⟩

/-- A frame that stands in the mailbox when it is closed is dropped. -/
theorem closeMailbox (hc : c.Carries handed) : c.closeMailbox.Carries handed where
  sent := by
    refine List.IsPrefix.trans ?_ hc.sent
    exact ⟨c.mailbox.staged.toList, by simp [Courier.closeMailbox, Mailbox.close, unsent, outgoing]⟩
  complete := fun hopen => nomatch hopen
  published := hc.published
  single := by
    refine Nat.le_trans ?_ hc.single
    simp [Courier.closeMailbox, Mailbox.close, unfinished, held]
  ready := fun hopen => nomatch hopen
  closed := fun _ => rfl

theorem joinWithin (hc : c.Carries handed) (bound : Nat) : (c.joinWithin bound).Carries handed := by
  induction bound generalizing c with
  | zero => exact hc
  | succ bound ih =>
      rw [Courier.joinWithin]
      split
      · exact ih hc.step
      · exact hc

/-- Nothing is handed over while the courier is shut down. -/
theorem shutdown (hc : c.Carries handed) : c.shutdown.Carries handed := hc.raiseStop.closeMailbox.joinWithin 3

end Carries

/-! ## Waiting -/

end Courier

/-- Whether a sink returns from a frame, after it got other frames before. -/
def Sink : Type := (before : List Frame) → (f : Frame) → Prop

namespace Sink

/-- The sink returns from every frame, whatever it got before. -/
def Returns (sink : Sink) : Prop := ∀ before f, sink before f

/-- The sink lets the courier make its next step: it returns from the frame, if the step is to send one. -/
def Lets (sink : Sink) (c : Courier) : Prop := ∀ f, c.station = .sending f → sink c.delivered f

theorem Returns.lets {sink : Sink} (hsink : sink.Returns) (c : Courier) : sink.Lets c := fun f _ => hsink c.delivered f

end Sink

namespace Courier

variable {c : Courier} {handed : List Frame}

theorem settleWithin_of_free (hfree : c.mailbox.blocked = false) (bound : Nat) : settleWithin bound c = c := by
  cases bound with
  | zero => rfl
  | succ bound => simp only [settleWithin, hfree, Bool.false_eq_true, ↓reduceIte]

/-- A courier in its loop that was not told to stop stays in it while the mailbox is open. -/
theorem running_step (hstop : c.stop = false) (hopen : c.mailbox.closed = false) (hrunning : c.running = true) :
    c.step.running = true := by
  obtain ⟨⟨ready, staged, spare, closed, published⟩, stop, station, delivered⟩ := c
  simp only at hstop hopen
  subst hstop hopen
  cases station with
  | taking => cases staged <;> rfl
  | gone => cases hrunning
  | _ => rfl

/-- A courier at work hands back what is under way within the steps that everybody waits. -/
theorem blocked_settle (hc : c.Carries handed) (hstop : c.stop = false) (hrunning : c.running = true) :
    c.settle.mailbox.blocked = false := by
  cases hblocked : c.mailbox.blocked with
  | false => rw [settle, settleWithin_of_free hblocked, hblocked]
  | true =>
      obtain ⟨hready, hopen⟩ := Mailbox.blocked_iff.mp hblocked
      obtain ⟨-, hsome⟩ := hc.unfinished_of_blocked hblocked
      obtain ⟨⟨ready, staged, spare, closed, published⟩, stop, station, delivered⟩ := c
      simp only at hready hopen hstop
      subst hready hopen hstop
      cases station with
      | sending f => rfl
      | returning f => rfl
      | gone => cases hrunning
      | checking =>
          cases staged with
          | none => exact absurd rfl hsome
          | some f => rfl
      | taking =>
          cases staged with
          | none => exact absurd rfl hsome
          | some f => rfl
      | missed =>
          cases staged with
          | none => exact absurd rfl hsome
          | some f => rfl

/-! ## At work -/

/-- All frames that were handed over, as long as the mailbox is open. -/
def frames (c : Courier) : List Frame := c.delivered ++ c.unsent

/-- The courier is in its loop and carries every frame that is handed over. -/
structure AtWork (c : Courier) : Prop where
  carries : c.Carries c.frames
  isOpen : c.mailbox.closed = false
  unstopped : c.stop = false
  running : c.running = true

/-- From one moment to another these frames were handed over, and the courier stayed at work. -/
structure Accepts (c : Courier) (more : List Frame) (c' : Courier) : Prop where
  atWork : c'.AtWork
  frames_eq : c'.frames = c.frames ++ more

theorem Accepts.trans {c' c'' : Courier} {more more' : List Frame} (h : c.Accepts more c') (h' : c'.Accepts more' c'') :
    c.Accepts (more ++ more') c'' :=
  ⟨h'.atWork, by rw [h'.frames_eq, h.frames_eq, List.append_assoc]⟩

namespace AtWork

theorem start : Courier.start.AtWork := ⟨.start, rfl, rfl, rfl⟩

theorem accepts_nil (h : c.AtWork) : c.Accepts [] c := ⟨h, (List.append_nil _).symm⟩

theorem accepts_step (h : c.AtWork) : c.Accepts [] c.step := by
  have hopen : c.step.mailbox.closed = false := c.closed_step.trans h.isOpen
  have hcarries := h.carries.step
  have hframes : c.step.frames = c.frames := hcarries.complete hopen
  refine ⟨⟨?_, hopen, c.stop_step.trans h.unstopped, running_step h.unstopped h.isOpen h.running⟩, ?_⟩
  · rwa [hframes]
  · rw [hframes, List.append_nil]

theorem accepts_settleWithin (h : c.AtWork) (bound : Nat) : c.Accepts [] (c.settleWithin bound) := by
  induction bound generalizing c with
  | zero => exact h.accepts_nil
  | succ bound ih =>
      rw [settleWithin]
      split
      · have hstep := h.accepts_step
        exact hstep.trans (ih hstep.atWork)
      · exact h.accepts_nil

theorem accepts_settle (h : c.AtWork) : c.Accepts [] c.settle := h.accepts_settleWithin 5

theorem blocked_settle (h : c.AtWork) : c.settle.mailbox.blocked = false :=
  Courier.blocked_settle h.carries h.unstopped h.running

/-- A canvas is handed over once the courier is done with the last frame. -/
theorem accepts_publish (h : c.AtWork) (canvas : Canvas) : c.Accepts [canvas.frame] (c.publish canvas).2 := by
  have hsettle := h.accepts_settle
  have hfree := h.blocked_settle
  have hnone := hsettle.atWork.carries.unfinished_of_free hsettle.atWork.isOpen hfree
  have hcarries := hsettle.atWork.carries.publish hsettle.atWork.isOpen hnone canvas
  have hopen : (c.publish canvas).2.mailbox.closed = false := by
    change (c.settle.mailbox.publish canvas).2.closed = false
    rw [Mailbox.publish_of_open hsettle.atWork.isOpen]
    exact hsettle.atWork.isOpen
  have hframes : (c.publish canvas).2.frames = c.settle.frames ++ [canvas.frame] := hcarries.complete hopen
  refine ⟨⟨?_, hopen, hsettle.atWork.unstopped, hsettle.atWork.running⟩, ?_⟩
  · rw [hframes]
    exact hcarries
  · rw [hframes]
    exact congrArg (· ++ [canvas.frame]) (hsettle.frames_eq.trans (List.append_nil _))

end AtWork

end Courier

end Framecast
