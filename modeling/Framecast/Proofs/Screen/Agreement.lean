import Framecast.Proofs.Canvas.Layout
import Framecast.Proofs.Screen.Operations

/-!
# Screens that differ out of sight

Two screens may differ in the pixels of some overlays and in nothing else. `Screen.Agree` is this relation. It is kept
by every operation that does not show these overlays, and every question that is not about their pixels has the same
answer on both screens.
-/

namespace Framecast

/-! ## Agreement -/

/-- Two overlays differ in the pixels of their canvases at most. -/
structure Overlay.SameLayout (o o' : Overlay) : Prop where
  position_eq : o'.position = o.position
  enabled_eq : o'.enabled = o.enabled
  canvas : o.canvas.SameLayout o'.canvas

/-- The same slot on two screens, with different pixels only if the handle of its overlay is among the hidden ones. -/
inductive Slot.Agree (hidden : Handle → Prop) (i : Fin slotCount) : Slot → Slot → Prop
  | same (slot : Slot) : Slot.Agree hidden i slot slot
  | pixels {generation : UInt32} {o o' : Overlay} (hhidden : hidden ⟨i, generation⟩) (h : o.SameLayout o') :
      Slot.Agree hidden i ⟨generation, some o⟩ ⟨generation, some o'⟩

/-- Two screens differ in the pixels of the hidden overlays at most. -/
structure Screen.Agree (hidden : Handle → Prop) (s s' : Screen) : Prop where
  root_eq : s'.root = s.root
  overlaysEnabled_eq : s'.overlaysEnabled = s.overlaysEnabled
  mode_eq : s'.mode = s.mode
  slot : ∀ i : Fin slotCount, Slot.Agree hidden i (s.slot i) (s'.slot i)

/-- The answers are the same and the states are related. -/
def Alike {α σ : Type} (R : σ → σ → Prop) (r r' : α × σ) : Prop := r'.1 = r.1 ∧ R r.2 r'.2

theorem Alike.map {α β σ : Type} {R : σ → σ → Prop} {r r' : α × σ} (h : Alike R r r') (f : α → β) :
    Alike R (r.map f id) (r'.map f id) :=
  ⟨congrArg f h.1, h.2⟩

theorem Alike.exists_eq {α σ : Type} {R : σ → σ → Prop} {r r' : α × σ} (h : Alike R r r') :
    ∃ answer s s', r = (answer, s) ∧ r' = (answer, s') ∧ R s s' :=
  ⟨r.1, r.2, r'.2, rfl, Prod.ext h.1 rfl, h.2⟩

namespace Slot.Agree

variable {hidden : Handle → Prop} {i : Fin slotCount} {slot slot' : Slot}

theorem generation_eq (ha : Slot.Agree hidden i slot slot') : slot'.generation = slot.generation := by
  cases ha <;> rfl

theorem isSome_eq (ha : Slot.Agree hidden i slot slot') : slot'.occupant.isSome = slot.occupant.isSome := by
  cases ha <;> rfl

theorem release (ha : Slot.Agree hidden i slot slot') : Slot.Agree hidden i slot.release slot'.release := by
  cases ha with
  | same => exact .same _
  | pixels => exact .same _

/-- Among the enabled overlays there is no difference if the hidden ones are not enabled. -/
theorem filter_eq (ha : Slot.Agree hidden i slot slot')
    (hoff : ∀ o, slot.occupant = some o → hidden ⟨i, slot.generation⟩ → o.enabled = false) :
    slot'.occupant.filter Overlay.enabled = slot.occupant.filter Overlay.enabled := by
  cases ha with
  | same => rfl
  | pixels hhidden h =>
      have henabled := hoff _ rfl hhidden
      simp [Option.filter, h.enabled_eq, henabled]

end Slot.Agree

namespace Screen

variable {hidden : Handle → Prop} {s s' : Screen}

namespace Agree

/-! ## Looking things up -/

theorem overlay? (ha : s.Agree hidden s') (h : Handle) :
    s'.overlay? h = s.overlay? h ∨
      hidden h ∧ ∃ o o', s.overlay? h = some o ∧ s'.overlay? h = some o' ∧ o.SameLayout o' := by
  have hslot := ha.slot h.slot
  simp only [Screen.overlay?]
  generalize s.slot h.slot = slot at hslot
  generalize s'.slot h.slot = slot' at hslot
  cases hslot with
  | same => exact .inl rfl
  | pixels hhidden hlayout =>
      split
      · rename_i hgen
        subst hgen
        exact .inr ⟨hhidden, _, _, rfl, rfl, hlayout⟩
      · exact .inl rfl

/-- What the pixels of an overlay do not matter to is the same on both screens. -/
theorem map_overlay? (ha : s.Agree hidden s') (h : Handle) {f : Overlay → α}
    (hf : ∀ o o', o.SameLayout o' → f o' = f o) : (s'.overlay? h).map f = (s.overlay? h).map f := by
  rcases ha.overlay? h with heq | ⟨-, o, o', ho, ho', hlayout⟩
  · rw [heq]
  · rw [ho, ho', Option.map_some, Option.map_some, hf o o' hlayout]

theorem isSome_overlay? (ha : s.Agree hidden s') (h : Handle) : (s'.overlay? h).isSome = (s.overlay? h).isSome := by
  have hmap := congrArg Option.isSome (ha.map_overlay? h (f := fun _ => ()) fun _ _ _ => rfl)
  rwa [Option.isSome_map, Option.isSome_map] at hmap

theorem visible (ha : s.Agree hidden s') (surface : Surface) : s'.visible surface = s.visible surface := by
  cases surface with
  | root => rfl
  | overlay h =>
      simp only [Screen.visible, ha.overlaysEnabled_eq]
      rcases ha.overlay? h with heq | ⟨-, o, o', ho, ho', hlayout⟩
      · rw [heq]
      · rw [ho, ho', Option.any_some, Option.any_some, hlayout.enabled_eq]

theorem size (ha : s.Agree hidden s') (surface : Surface) :
    (s'.canvas? surface).map (fun c => (c.width, c.height)) = (s.canvas? surface).map fun c => (c.width, c.height) := by
  cases surface with
  | root => simp only [canvas?, ha.root_eq]
  | overlay h =>
      simp only [canvas?, Option.map_map]
      refine ha.map_overlay? h fun o o' hlayout => ?_
      simp only [Function.comp_apply, hlayout.canvas.width_eq, hlayout.canvas.height_eq]

theorem canvas?_eq (ha : s.Agree hidden s') {surface : Surface} (hseen : ∀ h, surface = .overlay h → ¬ hidden h) :
    s'.canvas? surface = s.canvas? surface := by
  cases surface with
  | root => simp only [canvas?, ha.root_eq]
  | overlay h =>
      rcases ha.overlay? h with heq | ⟨hhidden, -⟩
      · simp only [canvas?, heq]
      · exact absurd hhidden (hseen h rfl)

theorem isSome_canvas? (ha : s.Agree hidden s') (surface : Surface) :
    (s'.canvas? surface).isSome = (s.canvas? surface).isSome := by
  have hmap := congrArg Option.isSome (ha.size surface)
  rwa [Option.isSome_map, Option.isSome_map] at hmap

theorem cornerOf (ha : s.Agree hidden s') (h : Handle) : s'.cornerOf h = s.cornerOf h := by
  simp only [Screen.cornerOf, ha.root_eq]
  rcases ha.overlay? h with heq | ⟨-, o, o', ho, ho', hlayout⟩
  · rw [heq]
  · rw [ho, ho']
    simp only [hlayout.position_eq]

/-- What the slots say one by one is the same if no slot says anything else. -/
theorem map_slots (ha : s.Agree hidden s') {f : Slot → α}
    (hf : ∀ i : Fin slotCount, Slot.Agree hidden i (s.slot i) (s'.slot i) → f (s'.slot i) = f (s.slot i)) :
    s'.slots.toList.map f = s.slots.toList.map f := by
  rw [toList_slots, toList_slots, List.map_map, List.map_map]
  exact List.map_congr_left fun i _ => hf i (ha.slot i)

theorem overlayCount (ha : s.Agree hidden s') : s'.overlayCount = s.overlayCount := by
  have hmap := ha.map_slots (f := fun slot => slot.occupant.isSome) fun _ hslot => hslot.isSome_eq
  have hcount := congrArg (List.countP id) hmap
  simp only [List.countP_map] at hcount
  exact hcount

theorem freeSlot? (ha : s.Agree hidden s') : s'.freeSlot? = s.freeSlot? := by
  simp only [Screen.freeSlot?]
  congr 1
  funext i
  have hslot := (ha.slot i).isSome_eq
  rw [← Option.not_isSome, ← Option.not_isSome, hslot]

/-- The overlays that are copied onto the root are the same. -/
theorem filter_overlays (ha : s.Agree hidden s') (hon : s.overlaysEnabled = true)
    (hhidden : ∀ h, hidden h → s.visible (.overlay h) = false) :
    s'.overlays.filter Overlay.enabled = s.overlays.filter Overlay.enabled := by
  have hmap := ha.map_slots (f := fun slot => slot.occupant.filter Overlay.enabled) fun i hslot =>
    hslot.filter_eq fun o ho hi => by
      have hoverlay : s.overlay? ⟨i, (s.slot i).generation⟩ = some o := overlay?_eq_some_iff.mpr ⟨rfl, ho⟩
      have hoff := hhidden _ hi
      rwa [Screen.visible, hon, hoverlay, Option.any_some, Bool.true_and] at hoff
  have hfilter := congrArg (List.filterMap id) hmap
  simp only [List.filterMap_map] at hfilter
  simp only [overlays, List.filter_filterMap]
  exact hfilter

/-! ## Changing overlays -/

theorem setOccupant (ha : s.Agree hidden s') {i : Fin slotCount} {o o' : Overlay}
    (hslot : Slot.Agree hidden i ⟨(s.slot i).generation, some o⟩ ⟨(s.slot i).generation, some o'⟩) :
    (s.setOccupant i o).Agree hidden (s'.setOccupant i o') where
  root_eq := ha.root_eq
  overlaysEnabled_eq := ha.overlaysEnabled_eq
  mode_eq := ha.mode_eq
  slot := by
    intro j
    rw [slot_setOccupant, slot_setOccupant]
    split
    · subst_vars
      rw [(ha.slot j).generation_eq]
      exact hslot
    · exact ha.slot j

/-- A change that the pixels do not matter to. -/
theorem modify (ha : s.Agree hidden s') (h : Handle) {f : Overlay → Overlay}
    (hf : ∀ o o', o.SameLayout o' → (f o).SameLayout (f o')) :
    Alike (Screen.Agree hidden) (s.modify h f) (s'.modify h f) := by
  rcases ha.overlay? h with heq | ⟨hhidden, o, o', ho, ho', hlayout⟩
  · cases ho : s.overlay? h with
    | none =>
        rw [ho] at heq
        simp only [Screen.modify, ho, heq]
        exact ⟨rfl, ha⟩
    | some o =>
        rw [ho] at heq
        simp only [Screen.modify, ho, heq]
        exact ⟨rfl, ha.setOccupant (.same _)⟩
  · simp only [Screen.modify, ho, ho']
    refine ⟨rfl, ha.setOccupant (.pixels ?_ (hf o o' hlayout))⟩
    rw [(overlay?_eq_some_iff.mp ho).1]
    exact hhidden

theorem setEnabled (ha : s.Agree hidden s') (surface : Surface) (enabled : Bool) :
    Alike (Screen.Agree hidden) (s.setEnabled surface enabled) (s'.setEnabled surface enabled) := by
  cases surface with
  | root => exact ⟨rfl, ⟨ha.root_eq, rfl, ha.mode_eq, ha.slot⟩⟩
  | overlay h => exact ha.modify h fun _ _ hlayout => ⟨hlayout.position_eq, rfl, hlayout.canvas⟩

theorem setPosition (ha : s.Agree hidden s') (h : Handle) (position : Point) :
    Alike (Screen.Agree hidden) (s.setPosition h position) (s'.setPosition h position) :=
  ha.modify h fun _ _ hlayout => ⟨rfl, hlayout.enabled_eq, hlayout.canvas⟩

/-- Drawing on anything but a hidden overlay. -/
theorem draw (ha : s.Agree hidden s') {surface : Surface} (hseen : ∀ h, surface = .overlay h → ¬ hidden h)
    (f : Canvas → Canvas) : Alike (Screen.Agree hidden) (s.draw surface f) (s'.draw surface f) := by
  cases surface with
  | root => exact ⟨rfl, ⟨congrArg f ha.root_eq, ha.overlaysEnabled_eq, ha.mode_eq, ha.slot⟩⟩
  | overlay h =>
      rcases ha.overlay? h with heq | ⟨hhidden, -⟩
      · simp only [Screen.draw, Screen.modify, heq]
        split
        · exact ⟨rfl, ha⟩
        · exact ⟨rfl, ha.setOccupant (.same _)⟩
      · exact absurd hhidden (hseen h rfl)

theorem create (ha : s.Agree hidden s') (allocator : Allocator) (parent : Surface) (position : Point)
    (width height : Nat) :
    Alike (Screen.Agree hidden) (s.create allocator parent position width height)
      (s'.create allocator parent position width height) := by
  cases parent with
  | overlay h =>
      simp only [Screen.create, ha.isSome_overlay?]
      exact ⟨rfl, ha⟩
  | root =>
      simp only [Screen.create, ha.freeSlot?, ha.root_eq]
      split
      · exact ⟨rfl, ha⟩
      · rename_i i _
        split
        · exact ⟨rfl, ha⟩
        · rw [(ha.slot i).generation_eq]
          exact ⟨rfl, ha.setOccupant (.same _)⟩

theorem destroy (ha : s.Agree hidden s') (h : Handle) :
    Alike (Screen.Agree hidden) (s.destroy h) (s'.destroy h) := by
  have hsome := ha.isSome_overlay? h
  cases ho : s.overlay? h with
  | none =>
      rw [ho, Option.isSome_none, Option.isSome_eq_false_iff, Option.isNone_iff_eq_none] at hsome
      simp only [Screen.destroy, ho, hsome]
      exact ⟨rfl, ha⟩
  | some o =>
      rw [ho, Option.isSome_some, Option.isSome_iff_exists] at hsome
      obtain ⟨o', ho'⟩ := hsome
      have hslot (i) : Slot.Agree hidden i ((s.destroy h).2.slot i) ((s'.destroy h).2.slot i) := by
        rw [slot_destroy ho, slot_destroy ho']
        split
        · exact (ha.slot i).release
        · exact ha.slot i
      simp only [Screen.destroy, ho, ho'] at hslot ⊢
      exact ⟨rfl, ha.root_eq, ha.overlaysEnabled_eq, ha.mode_eq, hslot⟩

theorem destroyAll (ha : s.Agree hidden s') : Alike (Screen.Agree hidden) s.destroyAll s'.destroyAll := by
  refine ⟨ha.overlayCount, ⟨ha.root_eq, ha.overlaysEnabled_eq, ha.mode_eq, fun i => ?_⟩⟩
  rw [slot_destroyAll, slot_destroyAll]
  exact (ha.slot i).release

/-- Setting a mode copies the same overlays onto the same root, because the hidden ones are not among them. -/
theorem setMode (ha : s.Agree hidden s') (hhidden : ∀ h, hidden h → s.visible (.overlay h) = false)
    (surface : Surface) (mode : DrawMode) :
    Alike (Screen.Agree hidden) (s.setMode surface mode) (s'.setMode surface mode) := by
  cases surface with
  | overlay h =>
      simp only [Screen.setMode, ha.isSome_overlay?]
      exact ⟨rfl, ha⟩
  | root =>
      simp only [Screen.setMode, ha.mode_eq, ha.overlaysEnabled_eq]
      split
      · rename_i hend
        refine ⟨rfl, ⟨?_, ha.overlaysEnabled_eq, rfl, ha.slot⟩⟩
        simp only [Screen.composite, ha.root_eq, ha.filter_overlays hend.2.2 hhidden]
      · exact ⟨rfl, ⟨ha.root_eq, ha.overlaysEnabled_eq, rfl, ha.slot⟩⟩

theorem resizeRoot (ha : s.Agree hidden s') (allocator : Allocator) (width height : Nat) :
    Alike (Screen.Agree hidden) (s.resizeRoot allocator width height) (s'.resizeRoot allocator width height) := by
  simp only [Screen.resizeRoot, ha.root_eq]
  split
  · exact ⟨rfl, ha⟩
  · exact ⟨rfl, ⟨rfl, ha.overlaysEnabled_eq, ha.mode_eq, ha.slot⟩⟩

end Agree

end Screen

end Framecast
