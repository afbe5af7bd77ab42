import Framecast.Display
import Framecast.Proofs.Screen.Handles

/-!
# What can be asked of a display

`Call` lists what a program can ask of its display, with the arguments, and `Display.perform` makes one call and gives
its answer. Statements about a program that draws in any way are statements about every list of calls. Only three kinds
of call wait for the courier or talk to it; the others leave it alone, and all calls keep the canvases of the screen
valid and of one kind.
-/

namespace Framecast

/-- What can be drawn on a surface. -/
inductive Drawing (Font : Type) where
  | rectangle (pen : Pen) (corner : Point) (width height : Nat)
  | disc (pen : Pen) (center : Point) (radius : Int)
  | polygon (pen : Pen) (points : List Point)
  | lines (pen : Pen) (points : List Point)
  | image (corner : Point) (image : Image)
  | text (pen : Pen) (background : Option Pen) (font : Font) (text : String) (origin : Point)
    (directionX directionY : Int)

/-- What can be looked up without changing anything. -/
inductive Query where
  | canvas (surface : Surface)
  | size (surface : Surface)
  | placement (h : Handle)
  | corner (h : Handle)
  | visible (surface : Surface)
  | overlayCount
  | overlaysEnabled
  | mode
  | framesPublished
  | window
  deriving DecidableEq

/-- A call on a display with its arguments. A call for input comes with the control lines that are there. -/
inductive Call (Font : Type) where
  | createOverlay (parent : Surface) (position : Point) (width height : Nat)
  | destroyOverlay (h : Handle)
  | setOverlayEnabled (surface : Surface) (enabled : Bool)
  | disableOverlay (surface : Surface) (disable : Bool)
  | drag (surface : Surface) (position : Point)
  | setMode (surface : Surface) (mode : DrawMode)
  | draw (surface : Surface) (what : Drawing Font)
  | pollInput (lines : List String)
  | setFullscreen (fullscreen : Bool)
  | loadFont (name : String) (size : Nat) (style : FontStyle)
  | measureText (font : Font) (text : String) (directionX directionY : Int)
  | setImageDecoder (images : ImageDecoder)
  | loadImage (path : String) (contents : Option ByteArray)
  | query (q : Query)
  | teardown

/-- The call talks to the courier. -/
def Call.waits {Font : Type} : Call Font → Bool
  | .setMode .root _ => true
  | .disableOverlay _ _ => true
  | .teardown => true
  | _ => false

inductive Answer (Font : Type) where
  | done (answer : Except SurfaceError Unit)
  | created (answer : Except SurfaceError (Option Handle))
  | events (events : List HostEvent)
  | font (answer : Except FontError Font)
  | bounds (bounds : TextBounds)
  | image (answer : Except ImageError Image)
  | canvas (canvas : Option Canvas)
  | size (size : Option (Nat × Nat))
  | placement (placement : Option (Point × Bool))
  | corner (answer : Except SurfaceError Point)
  | flag (flag : Bool)
  | mode (mode : DrawMode)
  | count (count : Nat)
  | window (window : Window)
  | nothing

namespace Display

variable {Font Code : Type} (t : Typesetter Font Code)

/-- Draws on a surface. -/
def drawOn (d : Display) (surface : Surface) : Drawing Font → Reply Unit Display
  | .rectangle pen corner width height => d.drawRectangle surface pen corner width height
  | .disc pen center radius => d.drawDisc surface pen center radius
  | .polygon pen points => d.drawPolygon surface pen points
  | .lines pen points => d.drawLines surface pen points
  | .image corner image => d.drawImage surface corner image
  | .text pen background font text origin directionX directionY =>
    d.drawText t surface pen background font text origin directionX directionY

/-- Looks something up. -/
def lookUp (d : Display) : Query → Answer Font
  | .canvas surface => .canvas (d.screen.canvas? surface)
  | .size surface => .size ((d.screen.canvas? surface).map fun c => (c.width, c.height))
  | .placement h => .placement ((d.screen.overlay? h).map fun o => (o.position, o.enabled))
  | .corner h => .corner (d.screen.cornerOf h)
  | .visible surface => .flag (d.screen.visible surface)
  | .overlayCount => .count d.screen.overlayCount
  | .overlaysEnabled => .flag d.screen.overlaysEnabled
  | .mode => .mode d.screen.mode
  | .framesPublished => .count d.framesPublished
  | .window => .window d.window

/-- Makes a call. -/
def perform (d : Display) : Call Font → Answer Font × Display
  | .createOverlay parent position width height => (d.createOverlay parent position width height).map .created id
  | .destroyOverlay h => (d.destroyOverlay h).map .done id
  | .setOverlayEnabled surface enabled => (d.setOverlayEnabled surface enabled).map .done id
  | .disableOverlay surface disable => (d.disableOverlay surface disable).map .done id
  | .drag surface position => (d.drag surface position).map .done id
  | .setMode surface mode => (d.setMode surface mode).map .done id
  | .draw surface what => (d.drawOn t surface what).map .done id
  | .pollInput lines => (d.pollInput lines).map .events id
  | .setFullscreen fullscreen =>
    (.flag (d.window.setFullscreen fullscreen).1, { d with window := (d.window.setFullscreen fullscreen).2 })
  | .loadFont name size style => (.font (t.load name size style), d)
  | .measureText font text directionX directionY => (.bounds (t.measure font text directionX directionY), d)
  | .setImageDecoder images => (.nothing, d.setImageDecoder images)
  | .loadImage path contents => (.image (d.loadImage path contents), d)
  | .query q => (d.lookUp q, d)
  | .teardown => (.nothing, d.teardown)

end Display

/-- What happens next: a call, or a step that the courier makes between calls. -/
inductive Turn (Font : Type) where
  | call (call : Call Font)
  | courier

namespace Display

variable {Font Code : Type} (t : Typesetter Font Code)

def take (d : Display) : Turn Font → Answer Font × Display
  | .call call => d.perform t call
  | .courier => (.nothing, { d with courier := d.courier.step })

/-- What comes of each turn, together with the display after it. -/
def trace (d : Display) : List (Turn Font) → List (Answer Font × Display)
  | [] => []
  | turn :: turns => d.take t turn :: (d.take t turn).2.trace turns

/-- A new display shows a valid root without overlays, and its courier has nothing to carry. -/
theorem eq_of_start {allocator : Allocator} {settings : DisplaySettings} {d : Display}
    (h : start allocator settings = .ok d) :
    ∃ root : Canvas, root.Valid ∧ d = ⟨.ofRoot root, allocator, .empty, Png.decoder, .start, true, true, .default⟩ := by
  unfold start at h
  cases hformat : settings.format with
  | error e =>
      rw [hformat] at h
      cases h
  | ok format =>
      rw [hformat] at h
      change (Canvas.create allocator settings.width settings.height format settings.antialias).mapError _ >>= _ = _
        at h
      cases hroot : Canvas.create allocator settings.width settings.height format settings.antialias with
      | error e =>
          rw [hroot] at h
          cases h
      | ok root =>
          rw [hroot] at h
          exact ⟨root, Canvas.valid_of_create hroot, (Except.ok.inj h).symm⟩

/-! ## The screen -/

variable {d : Display}

theorem screen_advanceMode (d : Display) (surface : Surface) (mode : DrawMode) :
    (d.advanceMode surface mode).2.screen = (d.screen.setMode surface mode).2 := by
  simp only [advanceMode, onScreen]
  generalize d.screen.setMode surface mode = r
  obtain ⟨answer, s⟩ := r
  rcases answer with error | ready
  · rfl
  · cases ready <;> rfl

theorem screen_setMode (d : Display) (surface : Surface) (mode : DrawMode) :
    (d.setMode surface mode).2.screen = (d.screen.setMode surface mode).2 := by
  cases surface with
  | root => exact screen_advanceMode d.awaitConsumed .root mode
  | overlay h => exact screen_advanceMode d (.overlay h) mode

theorem screen_disableOverlay (d : Display) (surface : Surface) (disable : Bool) :
    (d.disableOverlay surface disable).2.screen = (d.screen.setEnabled surface (!disable)).2 ∨
      (d.disableOverlay surface disable).2.screen =
        ((d.screen.setEnabled surface (!disable)).2.setMode .root .ended).2 := by
  simp only [disableOverlay, setOverlayEnabled, onScreen]
  generalize d.screen.setEnabled surface (!disable) = r
  obtain ⟨answer, s⟩ := r
  cases answer with
  | error e => exact .inl rfl
  | ok => exact .inr (screen_setMode _ _ _)

theorem sound_apply (hsound : d.screen.Sound) (command : ControlCommand) : (d.apply command).2.screen.Sound := by
  cases command with
  | resize width height =>
      have hresize := hsound.perform (.resizeRoot d.allocator width height)
      simp only [apply]
      generalize hr : d.screen.resizeRoot d.allocator width height = r
      simp only [Screen.perform, hr] at hresize
      obtain ⟨answer, s⟩ := r
      cases answer <;> exact hresize
  | quit => exact hsound
  | press p => exact hsound
  | release p => exact hsound
  | move p => exact hsound
  | key k => exact hsound

theorem sound_applyLines (hsound : d.screen.Sound) (lines : List String) : (d.applyLines lines).2.screen.Sound := by
  induction lines generalizing d with
  | nil => exact hsound
  | cons line rest ih =>
      simp only [applyLines]
      split
      · exact ih hsound
      · rename_i command _
        have happly := sound_apply hsound command
        generalize d.apply command = r at happly
        obtain ⟨event, e⟩ := r
        cases event with
        | quit => exact happly
        | _ => exact ih happly

theorem sound_pollInput (hsound : d.screen.Sound) (lines : List String) : (d.pollInput lines).2.screen.Sound := by
  have hreport : d.reportSize.2.screen.Sound := by
    unfold reportSize
    split <;> exact hsound
  simp only [pollInput]
  split
  · exact sound_applyLines hreport lines
  · exact hreport

theorem sound_draw (hsound : d.screen.Sound) (surface : Surface) {f : Canvas → Canvas}
    (hf : ∀ c, Canvas.SameLayout c (f c)) : (d.draw surface f).2.screen.Sound := by
  unfold draw
  split
  · exact hsound.draw surface fun c _ => hf c
  · exact hsound

theorem sound_drawOn (hsound : d.screen.Sound) (surface : Surface) (what : Drawing Font) :
    (d.drawOn t surface what).2.screen.Sound := by
  cases what with
  | rectangle pen corner width height =>
      exact sound_draw hsound surface fun c => pen.sameLayout_rectangle c _ _ _
  | disc pen center radius => exact sound_draw hsound surface fun c => pen.sameLayout_disc c _ _
  | polygon pen points => exact sound_draw hsound surface fun c => pen.sameLayout_polygon c _
  | lines pen points => exact sound_draw hsound surface fun c => pen.sameLayout_polyline _ c _
  | image corner image => exact sound_draw hsound surface fun c => c.sameLayout_pasteOver _ _
  | text pen background font text origin directionX directionY =>
      simp only [drawOn, drawText, onScreen]
      split
      · exact hsound
      · rename_i c hc
        split
        · dsimp only
          refine hsound.draw surface fun c' hc' => ?_
          rw [hc, Option.some.injEq] at hc'
          subst hc'
          exact t.sameLayout_paintRun _ _ _ _ _ _
        · exact hsound

theorem sound_perform (hsound : d.screen.Sound) (call : Call Font) : (d.perform t call).2.screen.Sound := by
  cases call with
  | createOverlay parent position width height =>
      exact hsound.perform (.create d.allocator parent position width height)
  | destroyOverlay h => exact hsound.perform (.destroy h)
  | setOverlayEnabled surface enabled => exact hsound.perform (.setEnabled surface enabled)
  | disableOverlay surface disable =>
      have henabled := hsound.perform (.setEnabled surface (!disable))
      rcases screen_disableOverlay d surface disable with h | h
      · exact h ▸ henabled
      · exact h ▸ henabled.perform (.setMode .root .ended)
  | drag surface position =>
      cases surface with
      | root => exact hsound
      | overlay h => exact hsound.perform (.setPosition h position)
  | setMode surface mode =>
      have hmode := hsound.perform (.setMode surface mode)
      exact screen_setMode d surface mode ▸ hmode
  | draw surface what => exact sound_drawOn t hsound surface what
  | pollInput lines => exact sound_pollInput hsound lines
  | setFullscreen => exact hsound
  | loadFont => exact hsound
  | measureText => exact hsound
  | setImageDecoder => exact hsound
  | loadImage => exact hsound
  | query => exact hsound
  | teardown =>
      simp only [perform, teardown]
      split
      · exact hsound.perform .destroyAll
      · exact hsound

/-! ## The courier -/

/-- Setting a mode on the root: the last frame is waited for, and a root frame that is ended is handed over. -/
theorem setMode_root_eq (d : Display) (mode : DrawMode) :
    d.setMode .root mode = (.ok (), { d with
      screen := (d.screen.setMode .root mode).2
      courier :=
        if mode = .ended then (d.courier.settle.publish (d.screen.setMode .root mode).2.root).2
        else d.courier.settle }) := by
  cases mode <;> rfl

theorem courier_apply (d : Display) (command : ControlCommand) : (d.apply command).2.courier = d.courier := by
  cases command with
  | resize width height =>
      simp only [apply]
      split <;> rfl
  | quit => rfl
  | press p => rfl
  | release p => rfl
  | move p => rfl
  | key k => rfl

theorem courier_applyLines (d : Display) (lines : List String) : (d.applyLines lines).2.courier = d.courier := by
  induction lines generalizing d with
  | nil => rfl
  | cons line rest ih =>
      simp only [applyLines]
      split
      · exact ih d
      · rename_i command _
        have happly := courier_apply d command
        generalize d.apply command = r at happly
        obtain ⟨event, e⟩ := r
        cases event with
        | quit => exact happly
        | _ => exact (ih e).trans happly

theorem courier_pollInput (d : Display) (lines : List String) : (d.pollInput lines).2.courier = d.courier := by
  have hreport : d.reportSize.2.courier = d.courier := by
    unfold reportSize
    split <;> rfl
  simp only [pollInput]
  split
  · exact (courier_applyLines _ lines).trans hreport
  · exact hreport

theorem courier_drawOn (d : Display) (surface : Surface) (what : Drawing Font) :
    (d.drawOn t surface what).2.courier = d.courier := by
  have hdraw (f : Canvas → Canvas) : (d.draw surface f).2.courier = d.courier := by
    unfold draw
    split <;> rfl
  cases what with
  | rectangle => exact hdraw _
  | disc => exact hdraw _
  | polygon => exact hdraw _
  | lines => exact hdraw _
  | image => exact hdraw _
  | text =>
      simp only [drawOn, drawText]
      split
      · rfl
      · split <;> rfl

/-- A call that does not talk to the courier leaves it alone. -/
theorem courier_perform {call : Call Font} (hcall : call.waits = false) :
    (d.perform t call).2.courier = d.courier := by
  cases call with
  | createOverlay => rfl
  | destroyOverlay => rfl
  | setOverlayEnabled => rfl
  | disableOverlay => cases hcall
  | drag surface => cases surface <;> rfl
  | setMode surface mode =>
      cases surface with
      | root => cases hcall
      | overlay h =>
          simp only [perform, setMode, advanceMode, onScreen, Screen.setMode]
          cases (d.screen.overlay? h).isSome <;> rfl
  | draw surface what => exact courier_drawOn t d surface what
  | pollInput lines => exact courier_pollInput d lines
  | setFullscreen => rfl
  | loadFont => rfl
  | measureText => rfl
  | setImageDecoder => rfl
  | loadImage => rfl
  | query => rfl
  | teardown => cases hcall

end Display

end Framecast
