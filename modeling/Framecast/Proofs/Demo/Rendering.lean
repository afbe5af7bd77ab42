import Framecast.Demo.Program
import Framecast.Proofs.Display.Publishing

/-!
# Drawing the scene

The scene is drawn in steps, of which each draws on the root or on the overlay of the compass or sets a mode of the root.
On a display where that overlay is live no step is refused, and of all steps only the last hands over a frame: drawing the
scene once hands over one frame of the root, at the size that the root had before.
-/

namespace Framecast

namespace Screen

variable (s : Screen)

theorem isSome_canvas?_draw (surface : Surface) (f : Canvas → Canvas) (surface' : Surface) :
    ((s.draw surface f).2.canvas? surface').isSome = (s.canvas? surface').isSome := by
  rw [canvas?_draw]
  split
  · rename_i heq
    rw [Option.isSome_map, heq]
  · rfl

theorem slots_setMode (surface : Surface) (mode : DrawMode) : (s.setMode surface mode).2.slots = s.slots := by
  cases surface with
  | overlay h => rfl
  | root =>
      simp only [setMode]
      split <;> rfl

theorem isSome_canvas?_congr {s s' : Screen} (hslots : s'.slots = s.slots) (surface : Surface) :
    (s'.canvas? surface).isSome = (s.canvas? surface).isSome := by
  cases surface with
  | root => rfl
  | overlay h => simp only [canvas?, overlay?_congr hslots]

/-- A new overlay is live. -/
theorem isSome_canvas?_of_create {allocator : Allocator} {parent : Surface} {position : Point} {width height : Nat}
    {h : Handle} (hnew : (s.create allocator parent position width height).1 = .ok (some h)) :
    ((s.create allocator parent position width height).2.canvas? (.overlay h)).isSome := by
  obtain ⟨hfree, hname⟩ := eq_of_create_eq_some hnew
  cases parent with
  | overlay => cases hnew
  | root =>
      simp only [create, hfree] at hnew ⊢
      cases hcanvas : Canvas.create allocator width height s.root.format s.root.antialias with
      | error e =>
          rw [hcanvas] at hnew
          cases hnew
      | ok canvas =>
          dsimp only
          rw [canvas?, overlay?_setOccupant, if_pos hname]
          rfl

end Screen

variable {Font Code : Type}

theorem Display.isSome_canvas?_drawOn (t : Typesetter Font Code) (d : Display) (surface : Surface)
    (what : Drawing Font) (surface' : Surface) :
    ((d.drawOn t surface what).2.screen.canvas? surface').isSome = (d.screen.canvas? surface').isSome := by
  have hdraw (f : Canvas → Canvas) :
      ((d.draw surface f).2.screen.canvas? surface').isSome = (d.screen.canvas? surface').isSome := by
    unfold draw
    split
    · exact d.screen.isSome_canvas?_draw surface f surface'
    · rfl
  cases what with
  | text =>
      simp only [drawOn, drawText, onScreen]
      split
      · rfl
      · split
        · exact d.screen.isSome_canvas?_draw surface _ surface'
        · rfl
  | _ => exact hdraw _

namespace Demo

/-- The scene can be drawn on a display: the overlay of the compass is live, and the courier takes a frame. -/
structure Drawable (compass : Option Handle) (d : Display) : Prop where
  sound : d.screen.Sound
  atWork : d.courier.AtWork
  live : ∀ h, compass = some h → (d.screen.canvas? (.overlay h)).isSome

/-- What steps of drawing come to: none was refused, these frames were handed over, and what the host was told of the
root still holds. -/
structure Drawn (compass : Option Handle) (d : Display) (frames : List Frame) (r : Reply Unit Display) : Prop where
  answer : r.1 = .ok ()
  drawable : Drawable compass r.2
  unheard : d.Unheard r.2
  accepts : d.courier.Accepts frames r.2.courier

variable {compass : Option Handle} {d e : Display} {frames frames' : List Frame}

theorem Drawn.trans {r : Reply Unit Display} (h : Drawn compass d frames (.ok (), e)) (h' : Drawn compass e frames' r) :
    Drawn compass d (frames ++ frames') r :=
  ⟨h'.answer, h'.drawable, h.unheard.trans h'.unheard, h.accepts.trans h'.accepts⟩

namespace Drawable

theorem setMode (hd : Drawable compass d) (mode : DrawMode) :
    Drawn compass d (if mode = .ended then [(d.setMode .root mode).2.screen.root.frame] else [])
      (d.setMode .root mode) := by
  have haccepts := Display.accepts_setMode_root hd.atWork mode
  rw [← Display.screen_setMode] at haccepts
  constructor
  case answer => exact d.setMode_root mode
  case drawable =>
    refine ⟨?_, haccepts.atWork, fun h hcompass => ?_⟩
    · rw [Display.screen_setMode]
      exact hd.sound.perform (.setMode .root mode)
    · rw [Display.screen_setMode, Screen.isSome_canvas?_congr (d.screen.slots_setMode .root mode)]
      exact hd.live h hcompass
  case unheard => exact .setMode hd.sound .root mode
  case accepts => exact haccepts

theorem drawOn (hd : Drawable compass d) (t : Typesetter Font Code) {surface : Surface}
    (hlive : (d.screen.canvas? surface).isSome) (what : Drawing Font) :
    Drawn compass d [] (d.drawOn t surface what) := by
  have hcourier := Display.courier_drawOn t d surface what
  constructor
  case answer => exact (d.guards_drawOn t surface what).granted hlive
  case drawable =>
    refine ⟨Display.sound_drawOn t hd.sound surface what, hcourier ▸ hd.atWork, fun h hcompass => ?_⟩
    rw [Display.isSome_canvas?_drawOn]
    exact hd.live h hcompass
  case unheard => exact .drawOn t d surface what
  case accepts =>
    rw [hcourier]
    exact hd.atWork.accepts_nil

end Drawable

namespace Scene

theorem inTurn_singleton (step : Display → Reply Unit Display) (d : Display) : inTurn [step] d = step d := by
  rw [inTurn]
  cases step d with
  | mk answer e => cases answer <;> rfl

/-- Steps that hand over nothing, and a last one that hands over the root. -/
theorem drawn_inTurn {steps : List (Display → Reply Unit Display)} {last : Display → Reply Unit Display}
    (hsteps : ∀ step ∈ steps, ∀ d, Drawable compass d → Drawn compass d [] (step d))
    (hlast : ∀ d, Drawable compass d → Drawn compass d [(last d).2.screen.root.frame] (last d))
    (hd : Drawable compass d) :
    Drawn compass d [(inTurn (steps ++ [last]) d).2.screen.root.frame] (inTurn (steps ++ [last]) d) := by
  induction steps generalizing d with
  | nil =>
      rw [List.nil_append, inTurn_singleton]
      exact hlast d hd
  | cons step rest ih =>
      obtain ⟨hstep, hrest⟩ := List.forall_mem_cons.mp hsteps
      have hfirst := hstep d hd
      simp only [List.cons_append, inTurn]
      cases hr : step d with
      | mk answer e =>
          rw [hr] at hfirst
          cases answer with
          | error error => cases hfirst.answer
          | ok => exact hfirst.trans (ih hrest hfirst.drawable)

/-- Drawing the scene hands over one frame of the root. -/
theorem drawn_render (s : Scene) (font : BoxFont) (hd : Drawable s.compass d) :
    Drawn s.compass d [(s.render font d).2.screen.root.frame] (s.render font d) := by
  have hroot (what : Drawing BoxFont) (e : Display) (he : Drawable s.compass e) :
      Drawn s.compass e [] (e.drawOn BoxFont.typesetter .root what) :=
    he.drawOn _ rfl what
  unfold render frame
  refine drawn_inTurn ?_ (fun e he => he.setMode .ended) hd
  simp only [List.forall_mem_append, List.forall_mem_cons, List.forall_mem_map]
  refine ⟨⟨⟨⟨fun e he => he.setMode .begun, hroot (.rectangle _ _ _ _), hroot (.lines _ _), nofun⟩,
    fun points _ => hroot (.lines _ _)⟩, hroot (.text bright (some shade) font _ _ unitLength 0), nofun⟩, ?_⟩
  cases hcompass : s.compass with
  | none => exact nofun
  | some h =>
      have hoverlay (what : Drawing BoxFont) (e : Display) (he : Drawable (some h) e) :
          Drawn (some h) e [] (e.drawOn BoxFont.typesetter (.overlay h) what) :=
        he.drawOn _ (he.live h rfl) what
      simp only [Option.map_some, Option.getD_some, drawCompass, List.forall_mem_cons]
      exact ⟨hoverlay (.disc _ _ _), hoverlay (.polygon _ _), nofun⟩

end Scene

end Demo

end Framecast
