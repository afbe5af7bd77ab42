import Framecast.Proofs.Display.Calls
import Framecast.Proofs.Screen.Agreement
import Framecast.Text.BoxFont

/-!
# Hidden overlays

What stands on a hidden overlay is nobody's business: two displays that differ in the pixels of hidden overlays answer
every call alike, show the same root and hand the same frames to the courier, for as long as these overlays stay hidden
or are destroyed. `Display.Agree` is the relation that every call keeps.
-/

namespace Framecast

namespace Display

/-- None of the overlays shows. -/
def Hides (d : Display) (hidden : Handle → Prop) : Prop := ∀ h, hidden h → d.screen.visible (.overlay h) = false

/-- Two displays differ in the pixels of the hidden overlays at most. -/
structure Agree (hidden : Handle → Prop) (d d' : Display) : Prop where
  screen : d.screen.Agree hidden d'.screen
  allocator_eq : d'.allocator = d.allocator
  scratch_eq : d'.scratch = d.scratch
  images_eq : d'.images = d.images
  courier_eq : d'.courier = d.courier
  sizeUnreported_eq : d'.sizeUnreported = d.sizeUnreported
  listening_eq : d'.listening = d.listening
  window_eq : d'.window = d.window

theorem Hides.not_hidden {d : Display} {hidden : Handle → Prop} {surface : Surface} (hhides : d.Hides hidden)
    (hvisible : d.screen.visible surface = true) : ∀ h, surface = .overlay h → ¬ hidden h := by
  rintro h rfl hh
  rw [hhides h hh] at hvisible
  cases hvisible

/-- Setting a mode shows and hides nothing. -/
theorem visible_setMode (d : Display) (surface : Surface) (mode : DrawMode) :
    (d.setMode surface mode).2.screen.visible = d.screen.visible := by
  rw [screen_setMode]
  cases surface with
  | overlay h => rfl
  | root =>
      simp only [Screen.setMode]
      split <;> rfl

namespace Agree

variable {hidden : Handle → Prop} {d d' : Display}

/-! ## Frames -/

theorem onScreen (ha : d.Agree hidden d') (f : Screen → Reply α Screen)
    (hf : Alike (Screen.Agree hidden) (f d.screen) (f d'.screen)) :
    Alike (Display.Agree hidden) (d.onScreen f) (d'.onScreen f) :=
  ⟨hf.1, { ha with screen := hf.2 }⟩

theorem awaitConsumed (ha : d.Agree hidden d') : d.awaitConsumed.Agree hidden d'.awaitConsumed :=
  { ha with courier_eq := congrArg Courier.settle ha.courier_eq }

theorem publish (ha : d.Agree hidden d') : d.publish.Agree hidden d'.publish :=
  { ha with courier_eq := by simp only [Display.publish, ha.courier_eq, ha.screen.root_eq] }

theorem advanceMode (ha : d.Agree hidden d') (hhides : d.Hides hidden) (surface : Surface) (mode : DrawMode) :
    Alike (Display.Agree hidden) (d.advanceMode surface mode) (d'.advanceMode surface mode) := by
  have hmode := ha.onScreen (fun s => s.setMode surface mode) (ha.screen.setMode hhides surface mode)
  obtain ⟨answer, e, e', he, he', hagree⟩ := hmode.exists_eq
  simp only [Display.advanceMode, he, he']
  rcases answer with error | ready
  · exact ⟨rfl, hagree⟩
  · cases ready with
    | false => exact ⟨rfl, hagree⟩
    | true => exact ⟨rfl, hagree.publish⟩

theorem setMode (ha : d.Agree hidden d') (hhides : d.Hides hidden) (surface : Surface) (mode : DrawMode) :
    Alike (Display.Agree hidden) (d.setMode surface mode) (d'.setMode surface mode) := by
  cases surface with
  | root => exact ha.awaitConsumed.advanceMode hhides .root mode
  | overlay h => exact ha.advanceMode hhides (.overlay h) mode

/-! ## Drawing -/

theorem draw (ha : d.Agree hidden d') (hhides : d.Hides hidden) (surface : Surface) (f : Canvas → Canvas) :
    Alike (Display.Agree hidden) (d.draw surface f) (d'.draw surface f) := by
  simp only [Display.draw, ha.screen.visible, ha.screen.isSome_canvas?]
  split
  · rename_i hvisible
    exact ha.onScreen (fun s => s.draw surface f) (ha.screen.draw (hhides.not_hidden hvisible) f)
  · exact ⟨rfl, ha⟩

variable {Font Code : Type} (t : Typesetter Font Code)

theorem drawText (ha : d.Agree hidden d') (hhides : d.Hides hidden) (surface : Surface) (pen : Pen)
    (background : Option Pen) (font : Font) (text : String) (origin : Point) (directionX directionY : Int) :
    Alike (Display.Agree hidden) (d.drawText t surface pen background font text origin directionX directionY)
      (d'.drawText t surface pen background font text origin directionX directionY) := by
  by_cases hvisible : d.screen.visible surface = true
  · have hseen := hhides.not_hidden hvisible
    simp only [Display.drawText, ha.screen.canvas?_eq hseen, ha.screen.visible, hvisible, ha.scratch_eq, ↓reduceIte]
    split
    · exact ⟨rfl, ha⟩
    · rename_i c _
      have hdraw := ha.onScreen (fun s => s.draw surface fun _ =>
        (t.paintRun (t.shape font text directionX directionY) pen.foreground (background.map Pen.foreground) origin c
          d.scratch).1) (ha.screen.draw hseen _)
      exact ⟨hdraw.1, { hdraw.2 with scratch_eq := rfl }⟩
  · have hsome := ha.screen.isSome_canvas? surface
    simp only [Display.drawText, ha.screen.visible, hvisible]
    cases hc : d.screen.canvas? surface <;> cases hc' : d'.screen.canvas? surface <;> rw [hc, hc'] at hsome
    · exact ⟨rfl, ha⟩
    · cases hsome
    · cases hsome
    · exact ⟨rfl, ha⟩

theorem drawOn (ha : d.Agree hidden d') (hhides : d.Hides hidden) (surface : Surface) (what : Drawing Font) :
    Alike (Display.Agree hidden) (d.drawOn t surface what) (d'.drawOn t surface what) := by
  cases what with
  | rectangle pen corner width height => exact ha.draw hhides surface _
  | disc pen center radius => exact ha.draw hhides surface _
  | polygon pen points => exact ha.draw hhides surface _
  | lines pen points => exact ha.draw hhides surface _
  | image corner image => exact ha.draw hhides surface _
  | text pen background font text origin directionX directionY =>
      exact ha.drawText t hhides surface pen background font text origin directionX directionY

/-! ## Input -/

theorem apply (ha : d.Agree hidden d') (command : ControlCommand) :
    Alike (Display.Agree hidden) (d.apply command) (d'.apply command) := by
  cases command with
  | resize width height =>
      obtain ⟨answer, screen, screen', hs, hs', hagree⟩ := (ha.screen.resizeRoot d.allocator width height).exists_eq
      rw [← ha.allocator_eq] at hs'
      simp only [Display.apply, hs, hs']
      cases answer <;> exact ⟨rfl, { ha with screen := hagree }⟩
  | quit => exact ⟨rfl, ha⟩
  | press p => exact ⟨rfl, ha⟩
  | release p => exact ⟨rfl, ha⟩
  | move p => exact ⟨rfl, ha⟩
  | key k => exact ⟨rfl, ha⟩

theorem applyLines (ha : d.Agree hidden d') (lines : List String) :
    Alike (Display.Agree hidden) (d.applyLines lines) (d'.applyLines lines) := by
  induction lines generalizing d d' with
  | nil => exact ⟨rfl, ha⟩
  | cons line rest ih =>
      simp only [Display.applyLines]
      split
      · exact ih ha
      · rename_i command _
        obtain ⟨event, e, e', he, he', hagree⟩ := (ha.apply command).exists_eq
        have hrest := ih hagree
        simp only [he, he']
        cases event with
        | quit => exact ⟨rfl, hagree⟩
        | _ => exact ⟨congrArg (_ :: ·) hrest.1, hrest.2⟩

theorem pollInput (ha : d.Agree hidden d') (lines : List String) :
    Alike (Display.Agree hidden) (d.pollInput lines) (d'.pollInput lines) := by
  have hreport : Alike (Display.Agree hidden) d.reportSize d'.reportSize := by
    simp only [Display.reportSize, ha.sizeUnreported_eq, ha.screen.root_eq]
    split
    · exact ⟨rfl, { ha with sizeUnreported_eq := rfl }⟩
    · exact ⟨rfl, ha⟩
  obtain ⟨first, e, e', he, he', hagree⟩ := hreport.exists_eq
  have hlines := hagree.applyLines lines
  simp only [Display.pollInput, he, he', hagree.listening_eq]
  split
  · exact ⟨congrArg (_ ++ ·) hlines.1, hlines.2⟩
  · exact ⟨rfl, hagree⟩

/-! ## All calls -/

theorem lookUp (ha : d.Agree hidden d') {q : Query} (hq : ∀ h, hidden h → q ≠ .canvas (.overlay h)) :
    (d'.lookUp q : Answer Font) = d.lookUp q := by
  cases q with
  | canvas surface =>
      refine congrArg Answer.canvas (ha.screen.canvas?_eq fun h hsurface hh => hq h hh ?_)
      rw [hsurface]
  | size surface => exact congrArg Answer.size (ha.screen.size surface)
  | placement h =>
      refine congrArg Answer.placement (ha.screen.map_overlay? h fun o o' hlayout => ?_)
      rw [hlayout.position_eq, hlayout.enabled_eq]
  | corner h => exact congrArg Answer.corner (ha.screen.cornerOf h)
  | visible surface => exact congrArg Answer.flag (ha.screen.visible surface)
  | overlayCount => exact congrArg Answer.count ha.screen.overlayCount
  | overlaysEnabled => exact congrArg Answer.flag ha.screen.overlaysEnabled_eq
  | mode => exact congrArg Answer.mode ha.screen.mode_eq
  | framesPublished => simp only [Display.lookUp, framesPublished, ha.courier_eq]
  | window => exact congrArg Answer.window ha.window_eq

theorem teardown (ha : d.Agree hidden d') : d.teardown.Agree hidden d'.teardown := by
  simp only [Display.teardown, ha.listening_eq]
  split
  · exact { ha with
      screen := ha.screen.destroyAll.2
      courier_eq := congrArg Courier.shutdown ha.courier_eq
      listening_eq := rfl }
  · exact ha

theorem disableOverlay (ha : d.Agree hidden d') (surface : Surface) (disable : Bool)
    (hafter : (d.disableOverlay surface disable).2.Hides hidden) :
    Alike (Display.Agree hidden) (d.disableOverlay surface disable) (d'.disableOverlay surface disable) := by
  have henabled := ha.onScreen (fun s => s.setEnabled surface !disable) (ha.screen.setEnabled surface !disable)
  obtain ⟨answer, e, e', he, he', hagree⟩ := henabled.exists_eq
  simp only [Display.disableOverlay, setOverlayEnabled, he, he'] at hafter ⊢
  cases answer with
  | error error => exact ⟨rfl, hagree⟩
  | ok =>
      -- Ending the frame does not show or hide anything, so the overlays are hidden while it is composited.
      have hhides : e.Hides hidden := by
        intro h hh
        rw [← hafter h hh]
        exact (congrFun (visible_setMode e .root .ended) _).symm
      exact hagree.setMode hhides .root .ended

/-- One call, made on displays that agree, through which no hidden overlay is shown or looked at. -/
theorem perform (ha : d.Agree hidden d') (hhides : d.Hides hidden) (call : Call Font)
    (hcall : ∀ h, hidden h → call ≠ .query (.canvas (.overlay h))) (hafter : (d.perform t call).2.Hides hidden) :
    Alike (Display.Agree hidden) (d.perform t call) (d'.perform t call) := by
  cases call with
  | createOverlay parent position width height =>
      have hcreate := ha.onScreen (fun s => s.create d.allocator parent position width height)
        (ha.screen.create d.allocator parent position width height)
      simp only [Display.perform, Display.createOverlay, ha.allocator_eq]
      exact hcreate.map Answer.created
  | destroyOverlay h => exact (ha.onScreen (fun s => s.destroy h) (ha.screen.destroy h)).map Answer.done
  | setOverlayEnabled surface enabled =>
      exact (ha.onScreen (fun s => s.setEnabled surface enabled) (ha.screen.setEnabled surface enabled)).map Answer.done
  | disableOverlay surface disable => exact (ha.disableOverlay surface disable hafter).map Answer.done
  | drag surface position =>
      cases surface with
      | root => exact ⟨rfl, ha⟩
      | overlay h =>
          exact (ha.onScreen (fun s => s.setPosition h position) (ha.screen.setPosition h position)).map Answer.done
  | setMode surface mode => exact (ha.setMode hhides surface mode).map Answer.done
  | draw surface what => exact (ha.drawOn t hhides surface what).map Answer.done
  | pollInput lines => exact (ha.pollInput lines).map Answer.events
  | setFullscreen fullscreen =>
      exact ⟨by simp only [Display.perform, ha.window_eq], { ha with
        window_eq := congrArg (fun w : Window => (w.setFullscreen fullscreen).2) ha.window_eq }⟩
  | loadFont name size style => exact ⟨rfl, ha⟩
  | measureText font text directionX directionY => exact ⟨rfl, ha⟩
  | setImageDecoder images => exact ⟨rfl, { ha with images_eq := rfl }⟩
  | loadImage path contents => exact ⟨by simp only [Display.perform, Display.loadImage, ha.images_eq], ha⟩
  | query q => exact ⟨ha.lookUp fun h hh heq => hcall h hh (congrArg Call.query heq), ha⟩
  | teardown => exact ⟨rfl, ha.teardown⟩

theorem take (ha : d.Agree hidden d') (hhides : d.Hides hidden) (turn : Turn Font)
    (hturn : ∀ h, hidden h → turn ≠ .call (.query (.canvas (.overlay h)))) (hafter : (d.take t turn).2.Hides hidden) :
    Alike (Display.Agree hidden) (d.take t turn) (d'.take t turn) := by
  cases turn with
  | call call => exact ha.perform t hhides call (fun h hh heq => hturn h hh (congrArg Turn.call heq)) hafter
  | courier => exact ⟨rfl, { ha with courier_eq := congrArg Courier.step ha.courier_eq }⟩

/-- Handles without an overlay hide nothing. -/
theorem narrow (ha : d.Agree hidden d') : d.Agree (fun h => hidden h ∧ (d.screen.overlay? h).isSome) d' :=
  { ha with
    screen := { ha.screen with
      slot := by
        intro i
        have hslot := ha.screen.slot i
        have hlive : ∀ o, (d.screen.slot i).occupant = some o →
            (d.screen.overlay? ⟨i, (d.screen.slot i).generation⟩).isSome := by
          intro o ho
          rw [Screen.overlay?_eq_some_iff.mpr ⟨rfl, ho⟩]
          rfl
        generalize d.screen.slot i = slot at hslot hlive
        generalize d'.screen.slot i = slot' at hslot
        cases hslot with
        | same => exact .same _
        | pixels hhidden hlayout => exact .pixels ⟨hhidden, hlive _ rfl⟩ hlayout } }

end Agree

/-! ## Runs -/

variable {Font Code : Type} (t : Typesetter Font Code)

/-- While the turns are taken, no overlay of the handles shows and nobody asks for the canvas of one. A handle whose
overlay is destroyed is not one of them any more. -/
def StaysHidden : (hidden : Handle → Prop) → Display → List (Turn Font) → Prop
  | _, _, [] => True
  | hidden, d, turn :: turns =>
    (∀ h, hidden h → turn ≠ .call (.query (.canvas (.overlay h)))) ∧ (d.take t turn).2.Hides hidden ∧
      StaysHidden (fun h => hidden h ∧ ((d.take t turn).2.screen.overlay? h).isSome) (d.take t turn).2 turns

/-- What can be seen of a turn from outside: the answer, the root and all that the courier has and had. -/
def outline (r : Answer Font × Display) : Answer Font × Canvas × Courier := (r.1, r.2.screen.root, r.2.courier)

theorem map_outline_trace {hidden : Handle → Prop} {d d' : Display} (ha : d.Agree hidden d') (hhides : d.Hides hidden)
    {turns : List (Turn Font)} (hstays : StaysHidden t hidden d turns) :
    (d'.trace t turns).map outline = (d.trace t turns).map outline := by
  induction turns generalizing hidden d d' with
  | nil => rfl
  | cons turn turns ih =>
      obtain ⟨hturn, hafter, hrest⟩ := hstays
      obtain ⟨hanswer, hagree⟩ := ha.take t hhides turn hturn hafter
      have htail := ih hagree.narrow (fun h hh => hafter h hh.1) hrest
      simp only [trace, List.map_cons, htail, outline, hanswer, hagree.screen.root_eq, hagree.courier_eq]

/-- Drawing on a live overlay that does not show is accepted and does nothing. -/
theorem perform_draw_of_hidden {d : Display} {h : Handle} (hlive : (d.screen.overlay? h).isSome)
    (hoff : d.screen.visible (.overlay h) = false) (what : Drawing Font) :
    d.perform t (.draw (.overlay h) what) = (.done (.ok ()), d) := by
  have hcanvas : (d.screen.canvas? (.overlay h)).isSome := by
    rw [Screen.canvas?, Option.isSome_map]
    exact hlive
  have hdraw (f : Canvas → Canvas) : d.draw (.overlay h) f = (.ok (), d) := by
    simp only [draw, hoff, hcanvas, Bool.false_eq_true, ↓reduceIte]
  cases what with
  | text pen background font text origin directionX directionY =>
      obtain ⟨canvas, hc⟩ := Option.isSome_iff_exists.mp hcanvas
      simp only [perform, drawOn, drawText, hc, hoff, Bool.false_eq_true, ↓reduceIte]
      rfl
  | rectangle => exact congrArg (Prod.map Answer.done id) (hdraw _)
  | disc => exact congrArg (Prod.map Answer.done id) (hdraw _)
  | polygon => exact congrArg (Prod.map Answer.done id) (hdraw _)
  | lines => exact congrArg (Prod.map Answer.done id) (hdraw _)
  | image => exact congrArg (Prod.map Answer.done id) (hdraw _)

/-- Hidden overlays do not interfere. From two displays that differ in their pixels at most, every run that leaves them
hidden looks the same, and nothing that is drawn on one of them while it is hidden leaves a trace. -/
theorem noninterference_of_staysHidden {hidden : Handle → Prop} {d d' : Display} (ha : d.Agree hidden d')
    (hhides : d.Hides hidden) {turns : List (Turn Font)} (hstays : StaysHidden t hidden d turns) :
    (d'.trace t turns).map outline = (d.trace t turns).map outline ∧
      ∀ (e : Display) (h : Handle) (what : Drawing Font), (e.screen.overlay? h).isSome →
        e.screen.visible (.overlay h) = false → e.perform t (.draw (.overlay h) what) = (.done (.ok ()), e) :=
  ⟨map_outline_trace t ha hhides hstays, fun _ _ what hlive hoff => perform_draw_of_hidden t hlive hoff what⟩

/-- A frame and the end of a hidden overlay, without a pixel on it and with one. -/
theorem noninterference_of_one_overlay :
    ∃ (d d' : Display) (hidden : Handle → Prop) (turns : List (Turn BoxFont)),
      d.Agree hidden d' ∧ d.Hides hidden ∧ StaysHidden BoxFont.typesetter hidden d turns ∧ turns.length = 4 ∧
      (d'.trace BoxFont.typesetter turns).map outline = (d.trace BoxFont.typesetter turns).map outline := by
  let h : Handle := ⟨⟨0, by decide⟩, 0⟩
  let screen : Screen := .ofRoot (.blank 1 1 .rgba8888 false)
  let canvas : Canvas := .blank 1 1 .rgba8888 false
  let display (c : Canvas) : Display :=
    ⟨screen.setOccupant h.slot ⟨c, ⟨0, 0⟩, false⟩, .upTo 4, .empty, Png.decoder, .start, true, true, .default⟩
  have hslot : Slot.Agree (· = h) h.slot ⟨0, some ⟨canvas, ⟨0, 0⟩, false⟩⟩
      ⟨0, some ⟨canvas.put ⟨0, 0⟩ 7, ⟨0, 0⟩, false⟩⟩ :=
    .pixels rfl ⟨rfl, rfl, Canvas.sameLayout_put canvas ⟨0, 0⟩ 7⟩
  have ha : (display canvas).Agree (· = h) (display (canvas.put ⟨0, 0⟩ 7)) :=
    ⟨Screen.Agree.setOccupant ⟨rfl, rfl, rfl, fun _ => .same _⟩ hslot, rfl, rfl, rfl, rfl, rfl, rfl, rfl⟩
  have hhides : (display canvas).Hides (· = h) := by
    rintro _ rfl
    decide +kernel
  let turns : List (Turn BoxFont) :=
    [.call (.setMode .root .begun), .courier, .call (.setMode .root .ended), .call (.destroyOverlay h)]
  have hstays : StaysHidden BoxFont.typesetter (· = h) (display canvas) turns := by
    refine ⟨?_, ?_, ?_, ?_, ?_, ?_, ?_, ?_, trivial⟩
    · rintro _ -
      exact fun heq => nomatch heq
    · rintro _ rfl
      decide +kernel
    · rintro _ -
      exact fun heq => nomatch heq
    · rintro _ ⟨rfl, -⟩
      decide +kernel
    · rintro _ -
      exact fun heq => nomatch heq
    · rintro _ ⟨⟨rfl, -⟩, -⟩
      decide +kernel
    · rintro _ -
      exact fun heq => nomatch heq
    · rintro _ ⟨⟨⟨rfl, -⟩, -⟩, -⟩
      decide +kernel
  exact ⟨_, _, _, turns, ha, hhides, hstays, rfl, (noninterference_of_staysHidden _ ha hhides hstays).1⟩

end Display

end Framecast
