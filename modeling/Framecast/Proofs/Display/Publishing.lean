import Framecast.Proofs.Display.Refusals
import Framecast.Proofs.Display.Input
import Framecast.Proofs.Display.Session
import Framecast.Proofs.Screen.Composition
import Framecast.Text.BoxFont

/-!
# Which frames are handed over

While a display is in use its courier is at work, and every call that ends a root frame hands over one frame: the root as
the call leaves it. Switching a surface ends a root frame too, but the overlays are copied onto the root only if a frame
was begun before. `Display.disableOverlay_frames` compares the frame that is handed over then with the one of a switch
that is followed by a whole root frame.
-/

namespace Framecast

variable {Font Code : Type}

/-- The call of a turn. -/
def Turn.call? : Turn Font → Option (Call Font)
  | .call c => some c
  | .courier => none

namespace Screen

variable {s : Screen}

theorem mode_setEnabled (s : Screen) (surface : Surface) (enabled : Bool) :
    (s.setEnabled surface enabled).2.mode = s.mode := by
  cases surface with
  | root => rfl
  | overlay h =>
      simp only [setEnabled, modify]
      split <;> rfl

/-- The root with the overlays above it, as far as these are switched on. -/
def shown (s : Screen) : Canvas := if s.overlaysEnabled then s.composite.root else s.root

theorem root_setMode_ended (s : Screen) :
    (s.setMode .root .ended).2.root = if s.mode = .begun then s.shown else s.root := by
  simp only [setMode, shown, true_and]
  by_cases hbegun : s.mode = .begun
  · simp only [hbegun, true_and, ↓reduceIte]
    split <;> rfl
  · simp only [hbegun, false_and, ↓reduceIte]

theorem root_begun_and_ended (s : Screen) : ((s.setMode .root .begun).2.setMode .root .ended).2.root = s.shown := by
  rw [root_setMode_ended]
  rfl

theorem Sound.valid_shown (hs : s.Sound) : s.shown.Valid := by
  unfold shown
  split
  · exact hs.sameLayout_composite.valid hs.valid
  · exact hs.valid

end Screen

namespace Display

variable {d : Display}

theorem accepts_setMode_root (h : d.courier.AtWork) (mode : DrawMode) :
    d.courier.Accepts (if mode = .ended then [(d.screen.setMode .root mode).2.root.frame] else [])
      (d.setMode .root mode).2.courier := by
  have hsettle := h.accepts_settle
  rw [setMode_root_eq]
  split
  · exact hsettle.trans (hsettle.atWork.accepts_publish _)
  · exact hsettle

theorem setOverlayEnabled_of_live {surface : Surface} (hlive : (d.screen.canvas? surface).isSome) (enabled : Bool) :
    d.setOverlayEnabled surface enabled = (.ok (), { d with screen := (d.screen.setEnabled surface enabled).2 }) :=
  Prod.ext ((d.guards_setOverlayEnabled surface enabled).granted hlive) rfl

theorem disableOverlay_of_live {surface : Surface} (hlive : (d.screen.canvas? surface).isSome) (disable : Bool) :
    d.disableOverlay surface disable =
      setMode { d with screen := (d.screen.setEnabled surface (!disable)).2 } .root .ended := by
  rw [disableOverlay, setOverlayEnabled_of_live hlive]

variable (t : Typesetter Font Code)

/-- The frames that a call hands over. -/
def handedBy (call : Call Font) (r : Answer Font × Display) : List Frame :=
  if call.endsFrame && r.1.isOk then [r.2.screen.root.frame] else []

theorem accepts_perform (h : d.courier.AtWork) {call : Call Font} (hcall : call.isTeardown = false) :
    d.courier.Accepts (handedBy call (d.perform t call)) (d.perform t call).2.courier := by
  have hquiet (hwaits : call.waits = false) :
      d.courier.Accepts (handedBy call (d.perform t call)) (d.perform t call).2.courier := by
    rw [courier_perform t hwaits, handedBy, Call.endsFrame_of_not_waits hwaits]
    exact h.accepts_nil
  cases call with
  | setMode surface mode =>
      cases surface with
      | overlay => exact hquiet rfl
      | root =>
          have haccepts := accepts_setMode_root h mode
          cases mode <;> exact haccepts
  | disableOverlay surface disable =>
      have hguards := d.guards_disableOverlay surface disable
      cases hcanvas : d.screen.canvas? surface with
      | none =>
          have hrefused : d.perform t (.disableOverlay surface disable) = (.done (.error .noSuchSurface), d) := by
            simp only [perform, hguards.refused hcanvas]
            rfl
          rw [hrefused]
          exact h.accepts_nil
      | some canvas =>
          have hlive := Option.isSome_of_eq_some hcanvas
          simp only [perform, disableOverlay_of_live hlive]
          exact accepts_setMode_root (d := { d with screen := (d.screen.setEnabled surface (!disable)).2 }) h .ended
  | teardown => cases hcall
  | _ => exact hquiet rfl

/-! ## Runs -/

theorem atWork_take (h : d.courier.AtWork) {turn : Turn Font} (hturn : turn.tearsDown = false) :
    (d.take t turn).2.courier.AtWork := by
  cases turn with
  | courier => exact h.accepts_step.atWork
  | call call =>
      have hcall : call.isTeardown = false := by
        cases call with
        | teardown => cases hturn
        | _ => rfl
      exact (accepts_perform t h hcall).atWork

theorem atWork_after (h : d.courier.AtWork) {turns : List (Turn Font)}
    (hturns : ∀ turn ∈ turns, turn.tearsDown = false) : (d.after t turns).courier.AtWork :=
  List.foldlRecOn (motive := fun e : Display => e.courier.AtWork) turns _ h fun _ he turn hmem =>
    atWork_take t he (hturns turn hmem)

theorem atWork_of_start {allocator : Allocator} {settings : DisplaySettings} (h : start allocator settings = .ok d) :
    d.courier.AtWork := by
  obtain ⟨root, -, rfl⟩ := eq_of_start h
  exact .start

/-- Turns without a call are steps of the courier. -/
theorem after_of_no_call (h : d.courier.AtWork) {turns : List (Turn Font)}
    (hturns : ∀ turn ∈ turns, turn.call? = none) :
    ∃ c, d.after t turns = { d with courier := c } ∧ d.courier.Accepts [] c := by
  induction turns generalizing d with
  | nil => exact ⟨d.courier, rfl, h.accepts_nil⟩
  | cons turn rest ih =>
      obtain ⟨hturn, hrest⟩ := List.forall_mem_cons.mp hturns
      cases turn with
      | call call => cases hturn
      | courier =>
          obtain ⟨c, hafter, haccepts⟩ := ih (d := { d with courier := d.courier.step }) h.accepts_step.atWork hrest
          exact ⟨c, hafter, h.accepts_step.trans haccepts⟩

/-- Turns with calls are steps of the courier, the first call and the turns with the other calls. -/
theorem after_of_calls_cons (h : d.courier.AtWork) {turns : List (Turn Font)} {call : Call Font}
    {calls : List (Call Font)} (hturns : turns.filterMap Turn.call? = call :: calls) (hcall : call.isTeardown = false) :
    ∃ c rest, d.after t turns = (perform t { d with courier := c } call).2.after t rest ∧
      rest.filterMap Turn.call? = calls ∧
      d.courier.Accepts (handedBy call (perform t { d with courier := c } call))
        (perform t { d with courier := c } call).2.courier := by
  obtain ⟨first, turn, rest, rfl, hfirst, hturn, hrest⟩ := List.filterMap_eq_cons_iff.mp hturns
  obtain ⟨c, hafter, hbefore⟩ := after_of_no_call t h hfirst
  cases turn with
  | courier => cases hturn
  | call call' =>
      cases hturn
      refine ⟨c, rest, ?_, hrest, hbefore.trans (accepts_perform (d := { d with courier := c }) t hbefore.atWork hcall)⟩
      rw [after, List.foldl_append, List.foldl_cons]
      change (take t (d.after t first) (.call call)).2.after t rest = _
      rw [hafter]
      rfl

theorem frames_of_disableOverlay (h : d.courier.AtWork) {surface : Surface}
    (hlive : (d.screen.canvas? surface).isSome) {disable : Bool} {turns : List (Turn Font)}
    (hturns : turns.filterMap Turn.call? = [.disableOverlay surface disable]) :
    (d.after t turns).courier.frames =
      d.courier.frames ++ [((d.screen.setEnabled surface (!disable)).2.setMode .root .ended).2.root.frame] := by
  obtain ⟨c, rest, hafter, hrest, hcall⟩ := after_of_calls_cons t h hturns rfl
  obtain ⟨c', hend, hnone⟩ := after_of_no_call t hcall.atWork (List.filterMap_eq_nil_iff.mp hrest)
  have haccepts := hcall.trans hnone
  simp only [perform, disableOverlay_of_live (d := { d with courier := c }) hlive] at hafter hend haccepts
  rw [hafter, hend]
  exact haccepts.frames_eq

theorem frames_of_begun_and_ended (h : d.courier.AtWork) {surface : Surface} {enabled : Bool}
    {turns : List (Turn Font)}
    (hturns : turns.filterMap Turn.call? =
      [.setOverlayEnabled surface enabled, .setMode .root .begun, .setMode .root .ended]) :
    (d.after t turns).courier.frames = d.courier.frames ++
      [(((d.screen.setEnabled surface enabled).2.setMode .root .begun).2.setMode .root .ended).2.root.frame] := by
  obtain ⟨c, rest, hafter, hrest, hswitch⟩ := after_of_calls_cons t h hturns rfl
  obtain ⟨c', rest', hafter', hrest', hbegin⟩ := after_of_calls_cons t hswitch.atWork hrest rfl
  obtain ⟨c'', rest'', hafter'', hrest'', hcall⟩ := after_of_calls_cons t hbegin.atWork hrest' rfl
  obtain ⟨c₄, hend, hnone⟩ := after_of_no_call t hcall.atWork (List.filterMap_eq_nil_iff.mp hrest'')
  have haccepts := hswitch.trans (hbegin.trans (hcall.trans hnone))
  rw [hafter, hafter', hafter'', hend]
  exact haccepts.frames_eq

/-- In any state of a display in use, with the courier's steps anywhere between the calls: switching a live surface hands
over one frame, and so does the same switch followed by a whole root frame. The latter shows the overlays as they are after
the switch. The former is the same frame if a root frame was begun before, and otherwise it shows the root as it was. -/
theorem disableOverlay_frames {allocator : Allocator} {settings : DisplaySettings} {d₀ : Display}
    (hstart : start allocator settings = .ok d₀) {turns : List (Turn Font)}
    (hturns : ∀ turn ∈ turns, turn.tearsDown = false) {surface : Surface}
    (hlive : ((d₀.after t turns).screen.canvas? surface).isSome) (disable : Bool) :
    let d := d₀.after t turns
    let s := (d.screen.setEnabled surface (!disable)).2
    ∃ f g : Frame,
      (∀ turns' : List (Turn Font), turns'.filterMap Turn.call? = [.disableOverlay surface disable] →
        (d.after t turns').courier.frames = d.courier.frames ++ [f]) ∧
      (∀ turns' : List (Turn Font),
        turns'.filterMap Turn.call? =
          [.setOverlayEnabled surface (!disable), .setMode .root .begun, .setMode .root .ended] →
        (d.after t turns').courier.frames = d.courier.frames ++ [g]) ∧
      (d.screen.mode = .begun → f = g) ∧ (d.screen.mode ≠ .begun → f.Shows d.screen.root) ∧ g.Shows s.shown ∧
      (s.overlaysEnabled = true → s.root.FitsCoordinates → (∀ o ∈ s.overlays, o.canvas.FitsCoordinates) →
        s.Composed s.shown) := by
  intro d s
  obtain ⟨hattentive, -⟩ := attentive_of_start hstart
  have hsound : d.screen.Sound := (hattentive.after hturns).sound
  have hwork : d.courier.AtWork := atWork_after t (atWork_of_start hstart) hturns
  have hswitched : s.Sound := hsound.perform (.setEnabled surface (!disable))
  refine ⟨_, _, fun _ => frames_of_disableOverlay t hwork hlive, fun _ => frames_of_begun_and_ended t hwork,
    fun hbegun => ?_, fun hidle => ?_, ?_, fun hon hroot hoverlays => ?_⟩
  · rw [Screen.root_setMode_ended, Screen.mode_setEnabled, if_pos hbegun, Screen.root_begun_and_ended]
  · rw [Screen.root_setMode_ended, Screen.mode_setEnabled, if_neg hidle, Screen.root_setEnabled]
    exact Canvas.frame_shows hsound.valid
  · rw [Screen.root_begun_and_ended]
    exact Canvas.frame_shows hswitched.valid_shown
  · obtain ⟨l, ht⟩ := hswitched
    rw [Screen.shown, if_pos hon]
    exact ht.composed hroot hoverlays

/-- A white pixel on a hidden overlay, and no frame was begun: switching the overlay on hands over a frame without the
pixel, and the same switch with a whole root frame hands over a frame with it. -/
theorem disableOverlay_frames_of_hidden_pixel :
    ∃ (d₀ : Display) (turns : List (Turn BoxFont)) (h : Handle) (f g : Frame),
      start (.upTo 4) ⟨1, 1, 32, false⟩ = .ok d₀ ∧ (∀ turn ∈ turns, turn.tearsDown = false) ∧
      ((d₀.after BoxFont.typesetter turns).screen.canvas? (.overlay h)).isSome ∧
      ((d₀.after BoxFont.typesetter turns).after BoxFont.typesetter
        [.call (.disableOverlay (.overlay h) false)]).courier.frames =
          (d₀.after BoxFont.typesetter turns).courier.frames ++ [f] ∧
      ((d₀.after BoxFont.typesetter turns).after BoxFont.typesetter
        [.call (.setOverlayEnabled (.overlay h) true), .call (.setMode .root .begun),
          .call (.setMode .root .ended)]).courier.frames =
          (d₀.after BoxFont.typesetter turns).courier.frames ++ [g] ∧
      Buffer.colorAt f.pixels 0 = .transparent ∧ Buffer.colorAt g.pixels 0 = .white := by
  let d₀ : Display := ⟨.ofRoot (.blank 1 1 .rgba8888 false), .upTo 4, .empty, Png.decoder, .start, true, true, .default⟩
  let h : Handle := ⟨⟨0, by decide⟩, 0⟩
  let turns : List (Turn BoxFont) :=
    [.call (.createOverlay .root ⟨0, 0⟩ 1 1),
      .call (.draw (.overlay h) (.rectangle ⟨.white, .transparent, 1⟩ ⟨0, 0⟩ 1 1)),
      .call (.setOverlayEnabled (.overlay h) false)]
  have hstart : start (.upTo 4) ⟨1, 1, 32, false⟩ = .ok d₀ := rfl
  have hturns : ∀ turn ∈ turns, turn.tearsDown = false := by simp [turns, Turn.tearsDown]
  have hlive : ((d₀.after BoxFont.typesetter turns).screen.canvas? (.overlay h)).isSome := by decide +kernel
  obtain ⟨f, g, hf, hg, -, hroot, hshown, -⟩ := disableOverlay_frames BoxFont.typesetter hstart hturns hlive false
  have hplace (c : Canvas) : 4 * c.place ⟨0, 0⟩ = 0 := by simp [Canvas.place]
  have hcolor := (hroot (by decide +kernel)).color_eq ⟨0, 0⟩ (by decide +kernel)
  have hcolor' := hshown.color_eq ⟨0, 0⟩ (by decide +kernel)
  rw [hplace] at hcolor hcolor'
  refine ⟨d₀, turns, h, f, g, hstart, hturns, hlive, hf _ rfl, hg _ rfl, ?_, ?_⟩
  · refine (Option.some.inj (Eq.trans ?_ hcolor)).symm
    decide +kernel
  · refine (Option.some.inj (Eq.trans ?_ hcolor')).symm
    decide +kernel

end Display

end Framecast
