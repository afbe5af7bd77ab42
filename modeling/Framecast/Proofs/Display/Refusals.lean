import Framecast.Proofs.Display.Hearing

/-!
# Refused calls

A display refuses a call for one of three reasons, told by the handles, the number of overlays and the size that is
asked for. Whatever it refuses it leaves everything as it was: the canvases, the slots and their generations, the mode,
the scratch buffer and the frame that is on its way. The same holds when no slot is free for an overlay, and for a
control line that asks for a root for which there is no memory.
-/

namespace Framecast

variable {Font Code : Type}

namespace Call

/-- The surface that a call does something to. -/
def target? : Call Font → Option Surface
  | .destroyOverlay h => some (.overlay h)
  | .setOverlayEnabled surface _ => some surface
  | .disableOverlay surface _ => some surface
  | .drag surface _ => some surface
  | .setMode surface _ => some surface
  | .draw surface _ => some surface
  | _ => none

end Call

namespace Answer

/-- Why the call was refused. -/
def refusal? : Answer Font → Option SurfaceError
  | .done (.error e) => some e
  | .created (.error e) => some e
  | _ => none

/-- No slot was free for an overlay. -/
def isFull : Answer Font → Bool
  | .created (.ok none) => true
  | _ => false

end Answer

/-- The reasons for which a screen refuses a call, with the allocator that it gets its canvases from. -/
inductive Screen.Refuses (s : Screen) (allocator : Allocator) : Call Font → SurfaceError → Prop
  /-- The call is about an overlay that is gone or never was. -/
  | stale {call : Call Font} {surface : Surface} (htarget : call.target? = some surface)
      (hstale : s.canvas? surface = none) : Refuses s allocator call .noSuchSurface
  /-- An overlay is asked for above one that is gone or never was. -/
  | orphaned {h : Handle} {position : Point} {width height : Nat} (hstale : s.overlay? h = none) :
      Refuses s allocator (.createOverlay (.overlay h) position width height) .noSuchSurface
  /-- An overlay is asked for above another one. -/
  | nested {h : Handle} {position : Point} {width height : Nat} (hlive : (s.overlay? h).isSome) :
      Refuses s allocator (.createOverlay (.overlay h) position width height) .parentNotRoot
  /-- There is a slot for the overlay, but no buffer. -/
  | tooLarge {position : Point} {width height : Nat} (hroom : s.overlayCount < slotCount)
      (hsize : ¬ Canvas.Allocatable allocator width height s.root.format) :
      Refuses s allocator (.createOverlay .root position width height) (.allocationFailed width height)

namespace Screen

variable {s : Screen} {allocator : Allocator} {call : Call Font} {e : SurfaceError} {position : Point}
  {width height : Nat}

theorem refuses_iff_of_target {surface : Surface} (htarget : call.target? = some surface) :
    s.Refuses allocator call e ↔ s.canvas? surface = none ∧ e = .noSuchSurface := by
  constructor
  · intro h
    cases h with
    | stale htarget' hstale =>
        obtain rfl := Option.some.inj (htarget.symm.trans htarget')
        exact ⟨hstale, rfl⟩
    | _ => cases htarget
  · rintro ⟨hstale, rfl⟩
    exact .stale htarget hstale

theorem refuses_createOverlay_overlay_iff {h : Handle} :
    s.Refuses allocator (.createOverlay (.overlay h) position width height : Call Font) e ↔
      e = if (s.overlay? h).isSome then .parentNotRoot else .noSuchSurface := by
  cases ho : s.overlay? h with
  | none =>
      constructor
      · intro hrefuses
        cases hrefuses with
        | stale htarget => cases htarget
        | orphaned => rfl
        | nested hlive =>
            rw [ho] at hlive
            cases hlive
      · rintro rfl
        exact .orphaned ho
  | some o =>
      constructor
      · intro hrefuses
        cases hrefuses with
        | stale htarget => cases htarget
        | orphaned hstale =>
            rw [ho] at hstale
            cases hstale
        | nested => rfl
      · rintro rfl
        exact .nested (Option.isSome_of_eq_some ho)

theorem refuses_createOverlay_root_iff :
    s.Refuses allocator (.createOverlay .root position width height : Call Font) e ↔
      s.overlayCount < slotCount ∧ ¬ Canvas.Allocatable allocator width height s.root.format ∧
        e = .allocationFailed width height := by
  constructor
  · intro hrefuses
    cases hrefuses with
    | stale htarget => cases htarget
    | tooLarge hroom hsize => exact ⟨hroom, hsize, rfl⟩
  · rintro ⟨hroom, hsize, rfl⟩
    exact .tooLarge hroom hsize

/-- Any other call is not refused. -/
theorem not_refuses (htarget : call.target? = none)
    (hcreate : ∀ parent position width height, call ≠ .createOverlay parent position width height) :
    ¬ s.Refuses allocator call e := by
  intro hrefuses
  cases hrefuses with
  | stale htarget' =>
      rw [htarget] at htarget'
      cases htarget'
  | orphaned => exact hcreate _ _ _ _ rfl
  | nested => exact hcreate _ _ _ _ rfl
  | tooLarge => exact hcreate _ _ _ _ rfl

theorem overlayCount_lt_iff : s.overlayCount < slotCount ↔ s.freeSlot? ≠ none := by
  have hle : s.overlayCount ≤ s.slots.toList.length := List.countP_le_length
  rw [Vector.length_toList] at hle
  rw [ne_eq, freeSlot?_eq_none_iff_overlayCount]
  omega

end Screen

theorem ControlCommand.event_eq_resizeFailed_iff {allocator : Allocator} {command : ControlCommand}
    {format : PixelFormat} {width height : Nat} :
    command.event allocator format = .resizeFailed width height ↔
      command = .resize width height ∧ ¬ Canvas.Allocatable allocator width height format := by
  cases command with
  | resize width' height' =>
      by_cases hsize : Canvas.Allocatable allocator width' height' format
      · simp only [event, if_pos hsize, reduceCtorEq, false_iff]
        rintro ⟨h, hsize'⟩
        cases h
        exact hsize' hsize
      · simp only [event, if_neg hsize, HostEvent.resizeFailed.injEq, resize.injEq]
        refine ⟨?_, fun h => h.1⟩
        rintro ⟨rfl, rfl⟩
        exact ⟨⟨rfl, rfl⟩, hsize⟩
  | _ => simp [event]

namespace Display

variable {d : Display}

/-! ## Calls about a surface -/

/-- The reply to a call about a surface: a stale surface is refused and nothing happens, and a live one is not refused. -/
structure Guards (d : Display) (surface : Surface) (r : Reply Unit Display) : Prop where
  refused : d.screen.canvas? surface = none → r = (.error .noSuchSurface, d)
  granted : (d.screen.canvas? surface).isSome → r.1 = .ok ()

theorem guards_root {r : Reply Unit Display} (hr : r.1 = .ok ()) : d.Guards .root r := ⟨nofun, fun _ => hr⟩

theorem guards_modify (d : Display) (h : Handle) (f : Overlay → Overlay) :
    d.Guards (.overlay h) (d.onScreen fun s => s.modify h f) := by
  cases ho : d.screen.overlay? h with
  | none => constructor <;> simp [Screen.canvas?, onScreen, Screen.modify, ho]
  | some o => constructor <;> simp [Screen.canvas?, onScreen, Screen.modify, ho]

theorem guards_destroyOverlay (d : Display) (h : Handle) : d.Guards (.overlay h) (d.destroyOverlay h) := by
  cases ho : d.screen.overlay? h with
  | none => constructor <;> simp [Screen.canvas?, destroyOverlay, onScreen, Screen.destroy, ho]
  | some o => constructor <;> simp [Screen.canvas?, destroyOverlay, onScreen, Screen.destroy, ho]

theorem guards_setOverlayEnabled (d : Display) (surface : Surface) (enabled : Bool) :
    d.Guards surface (d.setOverlayEnabled surface enabled) := by
  cases surface with
  | root => exact guards_root rfl
  | overlay h => exact d.guards_modify h _

theorem guards_drag (d : Display) (surface : Surface) (position : Point) : d.Guards surface (d.drag surface position) := by
  cases surface with
  | root => exact guards_root rfl
  | overlay h => exact d.guards_modify h _

/-- Setting a mode on the root is never refused. -/
theorem setMode_root (d : Display) (mode : DrawMode) : (d.setMode .root mode).1 = .ok () := by
  rw [setMode_root_eq]

theorem guards_setMode (d : Display) (surface : Surface) (mode : DrawMode) :
    d.Guards surface (d.setMode surface mode) := by
  cases surface with
  | root => exact guards_root (d.setMode_root mode)
  | overlay h =>
      cases ho : d.screen.overlay? h with
      | none => constructor <;> simp [Screen.canvas?, setMode, advanceMode, onScreen, Screen.setMode, ho]
      | some o => constructor <;> simp [Screen.canvas?, setMode, advanceMode, onScreen, Screen.setMode, ho]

theorem guards_disableOverlay (d : Display) (surface : Surface) (disable : Bool) :
    d.Guards surface (d.disableOverlay surface disable) := by
  have henable := d.guards_setOverlayEnabled surface (!disable)
  constructor
  · intro hstale
    rw [disableOverlay, henable.refused hstale]
  · intro hlive
    have hanswer := henable.granted hlive
    unfold disableOverlay
    split
    · rename_i e _ hr
      rw [hr] at hanswer
      cases hanswer
    · rename_i e _
      exact e.setMode_root .ended

theorem guards_draw (d : Display) (surface : Surface) (f : Canvas → Canvas) : d.Guards surface (d.draw surface f) := by
  cases surface with
  | root => exact guards_root rfl
  | overlay h =>
      have hmodify := d.guards_modify h fun o => { o with canvas := f o.canvas }
      unfold draw
      split
      · exact hmodify
      · exact ⟨fun hstale => by rw [hstale]; rfl, fun hlive => by rw [hlive]; rfl⟩

theorem guards_drawText (t : Typesetter Font Code) (d : Display) (surface : Surface) (pen : Pen)
    (background : Option Pen) (font : Font) (text : String) (origin : Point) (directionX directionY : Int) :
    d.Guards surface (d.drawText t surface pen background font text origin directionX directionY) := by
  constructor
  · intro hstale
    simp only [drawText, hstale]
  · intro hlive
    obtain ⟨c, hc⟩ := Option.isSome_iff_exists.mp hlive
    simp only [drawText, hc]
    split
    · cases surface with
      | root => rfl
      | overlay h => exact (d.guards_modify h _).granted hlive
    · rfl

theorem guards_drawOn (t : Typesetter Font Code) (d : Display) (surface : Surface) (what : Drawing Font) :
    d.Guards surface (d.drawOn t surface what) := by
  cases what with
  | text => exact d.guards_drawText t surface _ _ _ _ _ _ _
  | _ => exact d.guards_draw surface _

/-! ## All calls -/

/-- What an answer says of a call, and what the call left behind if it was refused or found no slot. -/
structure Judged (d : Display) (call : Call Font) (answer : Answer Font) (e : Display) : Prop where
  refusal_iff : ∀ error, answer.refusal? = some error ↔ d.screen.Refuses d.allocator call error
  isFull_iff : answer.isFull = true ↔
    d.screen.overlayCount = slotCount ∧ ∃ position width height, call = .createOverlay .root position width height
  unchanged : answer.refusal?.isSome ∨ answer.isFull = true → e = d

theorem Guards.judged {call : Call Font} {surface : Surface} {r : Reply Unit Display} (hr : d.Guards surface r)
    (htarget : call.target? = some surface) : d.Judged call (.done r.1) r.2 := by
  have hcreate : ∀ parent position width height, call ≠ .createOverlay parent position width height := by
    rintro _ _ _ _ rfl
    cases htarget
  cases hcanvas : d.screen.canvas? surface with
  | none =>
      rw [hr.refused hcanvas]
      constructor
      case refusal_iff =>
        intro error
        rw [Screen.refuses_iff_of_target htarget]
        exact ⟨fun h => ⟨hcanvas, (Option.some.inj h).symm⟩, fun h => congrArg some h.2.symm⟩
      case isFull_iff => simp [Answer.isFull, hcreate]
      case unchanged => exact fun _ => rfl
  | some c =>
      rw [hr.granted (Option.isSome_of_eq_some hcanvas)]
      constructor
      case refusal_iff => simp [Answer.refusal?, Screen.refuses_iff_of_target htarget, hcanvas]
      case isFull_iff => simp [Answer.isFull, hcreate]
      case unchanged => simp [Answer.refusal?, Answer.isFull]

theorem judged_createOverlay (d : Display) (parent : Surface) (position : Point) (width height : Nat) :
    d.Judged (.createOverlay parent position width height : Call Font)
      (.created (d.createOverlay parent position width height).1)
      (d.createOverlay parent position width height).2 := by
  cases parent with
  | overlay h =>
      constructor
      case refusal_iff =>
        intro error
        rw [Screen.refuses_createOverlay_overlay_iff]
        exact ⟨fun h => (Option.some.inj h).symm, fun h => congrArg some h.symm⟩
      case isFull_iff => simp [createOverlay, onScreen, Screen.create, Answer.isFull]
      case unchanged => exact fun _ => rfl
  | root =>
      -- The slots are looked at before the size: with no slot free the size does not matter.
      have hcount := d.screen.freeSlot?_eq_none_iff_overlayCount
      have hroom := d.screen.overlayCount_lt_iff
      cases hfree : d.screen.freeSlot? with
      | none =>
          simp only [hfree, true_iff] at hcount
          constructor
          case refusal_iff =>
            simp [createOverlay, onScreen, Screen.create, hfree, Answer.refusal?,
              Screen.refuses_createOverlay_root_iff, hcount]
          case isFull_iff => simp [createOverlay, onScreen, Screen.create, hfree, Answer.isFull, hcount]
          case unchanged => simp [createOverlay, onScreen, Screen.create, hfree]
      | some i =>
          simp only [hfree, reduceCtorEq, ne_eq, not_false_eq_true, iff_true] at hroom
          have hfull : d.screen.overlayCount ≠ slotCount := Nat.ne_of_lt hroom
          by_cases hsize : Canvas.Allocatable d.allocator width height d.screen.root.format
          · have hcreated : (d.createOverlay .root position width height).1 =
                .ok (some ⟨i, (d.screen.slot i).generation⟩) := by
              simp only [createOverlay, onScreen, Screen.create, hfree, Canvas.create_eq, if_pos hsize]
            rw [hcreated]
            constructor
            case refusal_iff => simp [Answer.refusal?, Screen.refuses_createOverlay_root_iff, hsize]
            case isFull_iff => simp [Answer.isFull, hfull]
            case unchanged => simp [Answer.refusal?, Answer.isFull]
          · have hrefused : d.createOverlay .root position width height = (.error (.allocationFailed width height), d) := by
              simp only [createOverlay, onScreen, Screen.create, hfree, Canvas.create_eq, if_neg hsize]
            rw [hrefused]
            constructor
            case refusal_iff =>
              intro error
              rw [Screen.refuses_createOverlay_root_iff]
              exact ⟨fun h => ⟨hroom, hsize, (Option.some.inj h).symm⟩, fun h => congrArg some h.2.2.symm⟩
            case isFull_iff => simp [Answer.isFull, hfull]
            case unchanged => exact fun _ => rfl

/-- A call that is neither about a surface nor creates one is not refused. -/
theorem judged_of_granted {call : Call Font} {answer : Answer Font} (e : Display) (htarget : call.target? = none)
    (hcreate : ∀ parent position width height, call ≠ .createOverlay parent position width height)
    (hrefusal : answer.refusal? = none) (hfull : answer.isFull = false) : d.Judged call answer e := by
  constructor
  case refusal_iff => simp [hrefusal, Screen.not_refuses htarget hcreate]
  case isFull_iff => simp [hfull, hcreate]
  case unchanged => simp [hrefusal, hfull]

variable (t : Typesetter Font Code)

theorem judged_perform (d : Display) (call : Call Font) : d.Judged call (d.perform t call).1 (d.perform t call).2 := by
  cases call with
  | createOverlay parent position width height => exact d.judged_createOverlay parent position width height
  | destroyOverlay h => exact (d.guards_destroyOverlay h).judged rfl
  | setOverlayEnabled surface enabled => exact (d.guards_setOverlayEnabled surface enabled).judged rfl
  | disableOverlay surface disable => exact (d.guards_disableOverlay surface disable).judged rfl
  | drag surface position => exact (d.guards_drag surface position).judged rfl
  | setMode surface mode => exact (d.guards_setMode surface mode).judged rfl
  | draw surface what => exact (d.guards_drawOn t surface what).judged rfl
  | query q => cases q <;> exact judged_of_granted _ rfl nofun rfl rfl
  | _ => exact judged_of_granted _ rfl nofun rfl rfl

/-! ## Lines that ask for another size -/

/-- A line is reported as a failed resize if it is heard, asks for that size and there is no buffer for it. -/
theorem told_resizeFailed_iff (d : Display) (lines : List String) (line : String) (width height : Nat) :
    (d.pollInput (lines ++ [line])).1 = (d.pollInput lines).1 ++ [.resizeFailed width height] ↔
      ControlCommand.parse line = some (.resize width height) ∧ d.listening = true ∧ .quit ∉ ControlCommand.all lines ∧
        ¬ Canvas.Allocatable d.allocator width height d.screen.root.format := by
  cases hlistening : d.listening with
  | false => simp [pollInput_of_not_listening hlistening]
  | true =>
      rw [d.pollInput_concat hlistening, ← ControlCommand.any_isQuit_iff]
      cases (ControlCommand.all lines).any ControlCommand.isQuit with
      | true => simp
      | false =>
          cases ControlCommand.parse line with
          | none => simp
          | some command =>
              simp [apply_eq, format_pollInput, allocator_pollInput, command.event_eq_resizeFailed_iff]

/-- A line that is reported as a failed resize leaves everything as it was. -/
theorem unchanged_of_resizeFailed {lines : List String} {line : String} {width height : Nat}
    (h : (d.pollInput (lines ++ [line])).1 = (d.pollInput lines).1 ++ [.resizeFailed width height]) :
    (d.pollInput (lines ++ [line])).2 = (d.pollInput lines).2 := by
  obtain ⟨hparse, hlistening, hquit, hsize⟩ := (d.told_resizeFailed_iff lines line width height).mp h
  rw [← ControlCommand.any_isQuit_iff, Bool.not_eq_true] at hquit
  rw [d.pollInput_concat hlistening, hquit, hparse]
  rw [← d.allocator_pollInput lines, ← d.format_pollInput lines] at hsize
  simp only [Bool.false_eq_true, ↓reduceIte, apply_eq, Canvas.obey, if_neg hsize]

/-- Whatever is asked of a display: it refuses a call for the reasons of `Screen.Refuses` and no others, it finds no slot
for an overlay when all are taken, and it reports a failed resize when the buffer cannot be had. In each of these cases
everything is as it was before. -/
theorem unchanged_of_refused (d : Display) :
    (∀ call : Call Font,
      let answer := (d.perform t call).1
      let after := (d.perform t call).2
      (∀ error, answer.refusal? = some error ↔ d.screen.Refuses d.allocator call error) ∧
        (answer.isFull = true ↔
          d.screen.overlayCount = slotCount ∧ ∃ position width height, call = .createOverlay .root position width height) ∧
        (answer.refusal?.isSome ∨ answer.isFull = true → after = d)) ∧
      ∀ (lines : List String) (line : String) (width height : Nat),
        let before := d.pollInput lines
        let after := d.pollInput (lines ++ [line])
        (after.1 = before.1 ++ [.resizeFailed width height] ↔
          ControlCommand.parse line = some (.resize width height) ∧ d.listening = true ∧
            .quit ∉ ControlCommand.all lines ∧ ¬ Canvas.Allocatable d.allocator width height d.screen.root.format) ∧
        (after.1 = before.1 ++ [.resizeFailed width height] → after.2 = before.2) := by
  refine ⟨fun call => ?_, fun lines line width height => ?_⟩
  · have hcall := d.judged_perform t call
    exact ⟨hcall.refusal_iff, hcall.isFull_iff, hcall.unchanged⟩
  · exact ⟨d.told_resizeFailed_iff lines line width height, unchanged_of_resizeFailed⟩

end Display

end Framecast
