import Framecast.Proofs.Frame.Delivery
import Mathlib.Logic.Relation

/-!
# Shutting the courier down

Someone draws: stages canvases and waits for the mailbox. The courier walks its loop. At any moment someone begins to
shut the courier down, which is two moments: the stop flag is raised first and the mailbox is closed later. Whoever has
to wait sleeps until the courier hands a frame back or the mailbox is closed, and may wake up without a reason.
`Relay.Step` is what can happen next, and `Relay.Sound` is the invariant of every run.
-/

namespace Framecast

namespace Relay

inductive Task where
  | publish (c : Canvas)
  | wait

inductive Producer where
  | resting
  /-- About to look whether it has to wait. -/
  | awake (task : Task)
  /-- Waiting to be roused. -/
  | asleep (task : Task)

def Producer.rouse : Producer → Producer
  | asleep task => awake task
  | p => p

inductive Shutdown where
  | ahead
  /-- The stop flag is raised and the mailbox is still to be closed. -/
  | flagged
  | closed

def Shutdown.begun : Shutdown → Bool
  | ahead => false
  | _ => true

def Shutdown.ended : Shutdown → Bool
  | closed => true
  | _ => false

end Relay

structure Relay where
  courier : Courier
  producer : Relay.Producer
  shutdown : Relay.Shutdown
  /-- The canvases of which a copy was staged. -/
  accepted : List Canvas

namespace Relay

def start : Relay := ⟨.start, .resting, .ahead, []⟩

def turn (s : Relay) (p : Producer) : Relay := { s with producer := p }

/-- Stages a copy of a canvas, or is refused. -/
def publish (s : Relay) (c : Canvas) : Relay where
  courier := { s.courier with mailbox := (s.courier.mailbox.publish c).2 }
  producer := .resting
  shutdown := s.shutdown
  accepted := if (s.courier.mailbox.publish c).1 then s.accepted ++ [c] else s.accepted

/-- The courier goes one step further. It rouses who waits when it hands a frame back. -/
def carry (s : Relay) : Relay where
  courier := s.courier.step
  producer := if s.courier.handsBack then s.producer.rouse else s.producer
  shutdown := s.shutdown
  accepted := s.accepted

def raiseStop (s : Relay) : Relay := { s with courier := s.courier.raiseStop, shutdown := .flagged }

def closeMailbox (s : Relay) : Relay :=
  { s with courier := s.courier.closeMailbox, producer := s.producer.rouse, shutdown := .closed }

inductive Step : Relay → Relay → Prop
  | ask {s : Relay} {t : Task} (hresting : s.producer = .resting) : Step s (s.turn (.awake t))
  | sleep {s : Relay} {t : Task} (hawake : s.producer = .awake t)
      (hblocked : s.courier.mailbox.blocked = true) : Step s (s.turn (.asleep t))
  | wake {s : Relay} {t : Task} (hasleep : s.producer = .asleep t) : Step s (s.turn (.awake t))
  | publish {s : Relay} {c : Canvas} (hawake : s.producer = .awake (.publish c))
      (hfree : s.courier.mailbox.blocked = false) : Step s (s.publish c)
  | waited {s : Relay} (hawake : s.producer = .awake .wait) (hfree : s.courier.mailbox.blocked = false) :
      Step s (s.turn .resting)
  | carry (s : Relay) : Step s s.carry
  | stop {s : Relay} (hahead : s.shutdown = .ahead) : Step s s.raiseStop
  | close {s : Relay} (hflagged : s.shutdown = .flagged) : Step s s.closeMailbox

def Steps : Relay → Relay → Prop := Relation.ReflTransGen Step

def Blocked (s : Relay) : Prop :=
  ∃ task, s.producer = .asleep task ∨ s.producer = .awake task ∧ s.courier.mailbox.blocked = true

end Relay

/-! ## The next take -/

namespace Courier

/-- The frame that the courier finds when it looks into the mailbox next, if nobody else does anything before. -/
inductive TakesNext (f : Frame) : Courier → Prop
  | now {c : Courier} (htaking : c.station = .taking) (hfound : c.mailbox.take.1 = some f) : TakesNext f c
  | later {c : Courier} (hother : c.station ≠ .taking) (hnext : TakesNext f c.step) : TakesNext f c

variable {c : Courier} {handed : List Frame} {f : Frame}

theorem takesNext_of_staged (hopen : c.mailbox.closed = false) (hstop : c.stop = false) (hrunning : c.running = true)
    (hnone : c.held = none) (hstaged : c.mailbox.staged = some f) : c.TakesNext f := by
  obtain ⟨⟨ready, staged, spare, closed, published⟩, stop, station, delivered⟩ := c
  simp only at hopen hstop hstaged
  subst hopen hstop hstaged
  cases station with
  | checking => exact .later (by simp) (.now rfl rfl)
  | taking => exact .now rfl rfl
  | missed => exact .later (by simp) (.later (by simp [step]) (.now rfl rfl))
  | sending g => cases hnone
  | returning g => cases hnone
  | gone => cases hrunning

/-- A courier at work has the frame under way in its hands, or takes it next. -/
theorem Carries.held_or_takesNext (hc : c.Carries handed) (hblocked : c.mailbox.blocked = true)
    (hstop : c.stop = false) (hrunning : c.running = true) :
    ∃ f, c.held = some f ∨ c.mailbox.staged = some f ∧ c.TakesNext f := by
  obtain ⟨hopen, hsome⟩ := hc.unfinished_of_blocked hblocked
  cases hheld : c.held with
  | some f => exact ⟨f, .inl rfl⟩
  | none =>
      cases hstaged : c.mailbox.staged with
      | none => exact absurd (by rw [unfinished, hheld, hstaged]; rfl) hsome
      | some f => exact ⟨f, .inr ⟨rfl, takesNext_of_staged hopen hstop hrunning hheld hstaged⟩⟩

end Courier

/-! ## Runs -/

namespace Relay

variable {s s' : Relay}

structure Sound (s : Relay) : Prop where
  carries : s.courier.Carries (s.accepted.map Canvas.frame)
  nearly : s.accepted.length ≤ s.courier.delivered.length + 1
  stop_eq : s.courier.stop = s.shutdown.begun
  closed_eq : s.courier.mailbox.closed = s.shutdown.ended
  running : s.shutdown = .ahead → s.courier.running = true
  /-- Whoever sleeps was not forgotten. -/
  blocked : ∀ task, s.producer = .asleep task → s.courier.mailbox.blocked = true

theorem rouse_ne_asleep (p : Producer) (task : Task) : p.rouse ≠ .asleep task := by
  cases p <;> nofun

namespace Sound

theorem start : Relay.start.Sound where
  carries := .start
  nearly := Nat.zero_le _
  stop_eq := rfl
  closed_eq := rfl
  running := fun _ => rfl
  blocked := nofun

/-- Whoever draws may turn to something else, and sleep if it has to wait. -/
theorem turn (h : s.Sound) {p : Producer} (hp : ∀ task, p = .asleep task → s.courier.mailbox.blocked = true) :
    (s.turn p).Sound :=
  ⟨h.carries, h.nearly, h.stop_eq, h.closed_eq, h.running, hp⟩

theorem publish (h : s.Sound) (hfree : s.courier.mailbox.blocked = false) (c : Canvas) : (s.publish c).Sound := by
  cases hclosed : s.courier.mailbox.closed with
  | true =>
      have hrefused : s.publish c = s.turn .resting := by
        simp only [Relay.publish, Relay.turn, Mailbox.publish, hclosed, ↓reduceIte, Bool.false_eq_true]
      rw [hrefused]
      exact h.turn (by simp)
  | false =>
      have hnone := h.carries.unfinished_of_free hclosed hfree
      have haccepted : (s.publish c).accepted = s.accepted ++ [c] :=
        if_pos (congrArg Prod.fst (Mailbox.publish_of_open hclosed c))
      have hdelivered := congrArg List.length (h.carries.delivered_eq hclosed hnone)
      rw [List.length_map] at hdelivered
      constructor
      case carries =>
        rw [haccepted, List.map_append]
        exact h.carries.publish hclosed hnone c
      case nearly =>
        rw [haccepted, List.length_append, ← hdelivered]
        exact Nat.le_refl _
      case stop_eq => exact h.stop_eq
      case closed_eq =>
        refine Eq.trans ?_ h.closed_eq
        exact congrArg (fun r : Bool × Mailbox => r.2.closed) (Mailbox.publish_of_open hclosed c)
      case running => exact h.running
      case blocked => simp [Relay.publish]

theorem carry (h : s.Sound) : s.carry.Sound where
  carries := h.carries.step
  nearly := Nat.le_trans h.nearly (Nat.succ_le_succ s.courier.delivered_step.length_le)
  stop_eq := s.courier.stop_step.trans h.stop_eq
  closed_eq := s.courier.closed_step.trans h.closed_eq
  running := fun hahead => by
    refine Courier.running_step ?_ ?_ (h.running hahead)
    · exact h.stop_eq.trans (congrArg Shutdown.begun hahead)
    · exact h.closed_eq.trans (congrArg Shutdown.ended hahead)
  blocked := by
    intro task hasleep
    cases hback : s.courier.handsBack with
    | true =>
        simp only [Relay.carry, hback, ↓reduceIte] at hasleep
        exact absurd hasleep (rouse_ne_asleep s.producer task)
    | false =>
        simp only [Relay.carry, hback, Bool.false_eq_true, ↓reduceIte] at hasleep
        exact (Courier.blocked_step hback).trans (h.blocked task hasleep)

theorem raiseStop (h : s.Sound) (hahead : s.shutdown = .ahead) : s.raiseStop.Sound where
  carries := h.carries.raiseStop
  nearly := h.nearly
  stop_eq := rfl
  closed_eq := by
    have hopen := h.closed_eq
    rw [hahead] at hopen
    exact hopen
  running := nofun
  blocked := h.blocked

theorem closeMailbox (h : s.Sound) (hflagged : s.shutdown = .flagged) : s.closeMailbox.Sound where
  carries := h.carries.closeMailbox
  nearly := h.nearly
  stop_eq := by
    have hstop := h.stop_eq
    rw [hflagged] at hstop
    exact hstop
  closed_eq := rfl
  running := nofun
  blocked := fun task hasleep => absurd hasleep (rouse_ne_asleep s.producer task)

theorem step (h : s.Sound) (hstep : Step s s') : s'.Sound := by
  cases hstep with
  | ask => exact h.turn (by nofun)
  | sleep _ hblocked => exact h.turn fun _ _ => hblocked
  | wake => exact h.turn (by nofun)
  | publish _ hfree => exact h.publish hfree _
  | waited => exact h.turn (by nofun)
  | carry => exact h.carry
  | stop hahead => exact h.raiseStop hahead
  | close hflagged => exact h.closeMailbox hflagged

theorem steps (h : s.Sound) (hsteps : Steps s s') : s'.Sound := by
  induction hsteps with
  | refl => exact h
  | tail _ hstep ih => exact ih.step hstep

end Sound

structure Dependable (s : Relay) : Prop where
  leaves : s.courier.running = false → s.shutdown ≠ .ahead
  /-- Whoever has to wait waits for a courier that has the frame under way or finds it, or for a mailbox that is about to
  be closed. -/
  waits : s.Blocked →
    (s.courier.running = true ∧
      ∃ f, s.courier.held = some f ∨ s.courier.mailbox.staged = some f ∧ s.courier.TakesNext f) ∨
    s.shutdown = .flagged
  roused : ∀ task, s.producer = .asleep task → s.courier.mailbox.blocked = true
  published_eq : s.courier.mailbox.published = s.accepted.length
  count : s.courier.delivered.length = s.courier.mailbox.published ∨
    s.courier.delivered.length + 1 = s.courier.mailbox.published
  shows : ∀ (k : Nat) (f : Frame), s.courier.delivered[k]? = some f →
    ∃ c : Canvas, s.accepted[k]? = some c ∧ f = c.frame ∧ (c.Valid → f.Shows c)

theorem Sound.dependable (h : s.Sound) : s.Dependable := by
  have hpublished : s.courier.mailbox.published = s.accepted.length :=
    h.carries.published.trans (List.length_map ..)
  have hprefix : s.courier.delivered <+: s.accepted.map Canvas.frame :=
    (List.prefix_append _ _).trans h.carries.sent
  constructor
  case leaves =>
    intro hgone hahead
    exact Bool.false_ne_true (hgone.symm.trans (h.running hahead))
  case waits =>
    rintro ⟨task, hwaits⟩
    have hblocked : s.courier.mailbox.blocked = true := by
      rcases hwaits with hasleep | ⟨-, hblocked⟩
      · exact h.blocked task hasleep
      · exact hblocked
    cases hshutdown : s.shutdown with
    | ahead =>
        have hrunning := h.running hshutdown
        have hstop := h.stop_eq
        rw [hshutdown] at hstop
        exact .inl ⟨hrunning, h.carries.held_or_takesNext hblocked hstop hrunning⟩
    | flagged => exact .inr rfl
    | closed =>
        have hclosed := h.closed_eq
        rw [hshutdown, (h.carries.unfinished_of_blocked hblocked).1] at hclosed
        cases hclosed
  case roused => exact h.blocked
  case published_eq => exact hpublished
  case count =>
    have hle := hprefix.length_le
    rw [List.length_map] at hle
    have hnearly := h.nearly
    omega
  case shows => exact fun _ _ => Canvas.shown_of_isPrefix hprefix

/-- However the steps of the three follow each other. -/
theorem dependable_of_steps (hsteps : Steps start s) : s.Dependable :=
  (Sound.start.steps hsteps).dependable

/-- A frame that is staged after the courier has left its loop and before the mailbox is closed. -/
theorem dependable_of_late_frame : ∃ s : Relay, Steps start s ∧ s.courier.running = false ∧ s.shutdown = .closed ∧
    s.courier.delivered.length = 1 ∧ s.courier.mailbox.published = 2 ∧ s.Dependable := by
  let c : Canvas := ⟨1, 1, .rgba8888, false, ⟨#[1, 2, 3, 4]⟩⟩
  have hstaged : Steps start _ := .tail (.tail .refl (.ask (t := .publish c) rfl)) (.publish rfl rfl)
  have hreturned := hstaged.tail (.carry _) |>.tail (.carry _) |>.tail (.carry _) |>.tail (.carry _)
  have hleft := hreturned.tail (.stop rfl) |>.tail (.carry _)
  have hlate := hleft.tail (.ask (t := .publish c) rfl) |>.tail (.publish rfl rfl)
  have hclosed := hlate.tail (.close rfl)
  exact ⟨_, hclosed, rfl, rfl, rfl, rfl, dependable_of_steps hclosed⟩

end Relay

end Framecast
