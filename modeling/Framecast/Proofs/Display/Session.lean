import Framecast.Proofs.Display.Calls
import Framecast.Proofs.Frame.Delivery

/-!
# Sessions

`Display.perform` makes a call in one go, with the steps that the courier makes while the caller waits. Here a call that
talks to the courier is taken apart into the moments at which the mailbox or the screen is touched, and the courier may
make any number of steps between them. `Session.Step` is one such moment, in any order that the waiting allows.
-/

namespace Framecast

/-- The call ends a root frame. -/
def Call.endsFrame {Font : Type} : Call Font → Bool
  | .setMode .root .ended => true
  | .disableOverlay _ _ => true
  | _ => false

theorem Call.endsFrame_of_not_waits {Font : Type} {call : Call Font} (h : call.waits = false) :
    call.endsFrame = false := by
  cases call with
  | setMode surface mode =>
      cases surface with
      | root => cases h
      | overlay => rfl
  | disableOverlay => cases h
  | _ => rfl

def Call.isTeardown {Font : Type} : Call Font → Bool
  | .teardown => true
  | _ => false

def Answer.isOk {Font : Type} : Answer Font → Bool
  | .done (.ok ()) => true
  | _ => false

/-- Where the caller stands. -/
inductive Phase (Font : Type) where
  /-- Between two calls. -/
  | resting
  /-- About to wait until no frame is under way. -/
  | awaiting (call : Call Font) (mode : DrawMode)
  /-- Done waiting, and about to set the mode of the root. -/
  | advancing (call : Call Font) (mode : DrawMode)
  /-- About to hand the root to the courier. -/
  | publishing (call : Call Font)
  /-- In a teardown, about to raise the stop flag. -/
  | stopping
  /-- About to close the mailbox. -/
  | closing
  /-- About to wait for the courier to leave its loop. -/
  | joining

/-- A display at work, with what happened so far. -/
structure Session (Font : Type) where
  display : Display
  phase : Phase Font
  /-- The calls that returned, with their answers. -/
  returned : List (Call Font × Answer Font)
  /-- The root as it stood right after compositing, for every root frame that was ended. -/
  roots : List Canvas

namespace Session

variable {Font Code : Type}

/-- A display that no call was made on. -/
def start (d : Display) : Session Font := ⟨d, .resting, [], []⟩

/-- A call returns. -/
def finish (s : Session Font) (call : Call Font) (answer : Answer Font) (d : Display) : Session Font :=
  { s with display := d, phase := .resting, returned := s.returned ++ [(call, answer)] }

/-- How many root frames were ended by calls that were accepted. -/
def ends (s : Session Font) : Nat := s.returned.countP fun r => r.1.endsFrame && r.2.isOk

/-- A teardown is over. -/
def tornDown (s : Session Font) : Bool := s.returned.any fun r => r.1.isTeardown

/-- What can happen next. -/
inductive Step (t : Typesetter Font Code) : Session Font → Session Font → Prop
  /-- The courier makes a step. -/
  | carry (s : Session Font) : Step t s { s with display.courier := s.display.courier.step }
  /-- A call that does not talk to the courier. -/
  | call {s : Session Font} {call : Call Font} (hphase : s.phase = .resting) (hcall : call.waits = false) :
      Step t s (s.finish call (s.display.perform t call).1 (s.display.perform t call).2)
  | setMode {s : Session Font} (hphase : s.phase = .resting) (mode : DrawMode) :
      Step t s { s with phase := .awaiting (.setMode .root mode) mode }
  | refuse {s : Session Font} {surface : Surface} {disable : Bool} {e : SurfaceError} {d : Display}
      (hphase : s.phase = .resting) (hrefused : s.display.setOverlayEnabled surface (!disable) = (.error e, d)) :
      Step t s (s.finish (.disableOverlay surface disable) (.done (.error e)) d)
  | disable {s : Session Font} {surface : Surface} {disable : Bool} {d : Display} (hphase : s.phase = .resting)
      (haccepted : s.display.setOverlayEnabled surface (!disable) = (.ok (), d)) :
      Step t s { s with display := d, phase := .awaiting (.disableOverlay surface disable) .ended }
  /-- No frame is under way any more. -/
  | consumed {s : Session Font} {call : Call Font} {mode : DrawMode} (hphase : s.phase = .awaiting call mode)
      (hfree : s.display.courier.mailbox.blocked = false) : Step t s { s with phase := .advancing call mode }
  | advance {s : Session Font} {call : Call Font} {mode : DrawMode} (hphase : s.phase = .advancing call mode)
      (hmode : mode ≠ .ended) :
      Step t s (s.finish call (.done (.ok ())) { s.display with screen := (s.display.screen.setMode .root mode).2 })
  /-- The root is composited. -/
  | compose {s : Session Font} {call : Call Font} (hphase : s.phase = .advancing call .ended) :
      Step t s { s with
        display.screen := (s.display.screen.setMode .root .ended).2
        phase := .publishing call
        roots := s.roots ++ [(s.display.screen.setMode .root .ended).2.root] }
  | publish {s : Session Font} {call : Call Font} (hphase : s.phase = .publishing call)
      (hfree : s.display.courier.mailbox.blocked = false) :
      Step t s (s.finish call (.done (.ok ())) { s.display with
        courier.mailbox := (s.display.courier.mailbox.publish s.display.screen.root).2 })
  | teardown {s : Session Font} (hphase : s.phase = .resting) (hlistening : s.display.listening = true) :
      Step t s { s with display.screen := s.display.screen.destroyAll.2, phase := .stopping }
  | teardownAgain {s : Session Font} (hphase : s.phase = .resting) (hlistening : s.display.listening = false) :
      Step t s (s.finish .teardown .nothing s.display)
  | stop {s : Session Font} (hphase : s.phase = .stopping) :
      Step t s { s with display.courier := s.display.courier.raiseStop, phase := .closing }
  | close {s : Session Font} (hphase : s.phase = .closing) :
      Step t s { s with display.courier := s.display.courier.closeMailbox, phase := .joining }
  /-- The courier has left its loop. -/
  | join {s : Session Font} (hphase : s.phase = .joining) (hgone : s.display.courier.running = false) :
      Step t s (s.finish .teardown .nothing { s.display with listening := false })

/-- Any number of steps. -/
inductive Steps (t : Typesetter Font Code) : Session Font → Session Font → Prop
  | refl (s : Session Font) : Steps t s s
  | step {s s' s'' : Session Font} (h : Steps t s s') (h' : Step t s' s'') : Steps t s s''

end Session

end Framecast
