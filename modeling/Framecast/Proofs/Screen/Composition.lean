import Framecast.Proofs.Canvas.Conversions
import Framecast.Proofs.Screen.Handles

/-!
# What compositing shows

Ending a root frame that was begun copies the enabled overlays onto the root, one above the other. What the root shows
afterwards can be told pixel by pixel: the pixel of the topmost overlay that covers the point, or what stood there
before where none does. `Overlay.corner` and `Overlay.Covers` say where an overlay lies without the range of a
coordinate, and `Screen.Topmost` picks the overlay with the greatest slot.
-/

namespace Framecast

namespace Overlay

/-- The top-left corner on a root, negative coordinates counted from the far edges. -/
def corner (o : Overlay) (root : Canvas) : Point where
  x := if o.position.x < 0 then o.position.x + root.width else o.position.x
  y := if o.position.y < 0 then o.position.y + root.height else o.position.y

/-- The overlay is enabled and lies over a point of the root. -/
def Covers (o : Overlay) (root : Canvas) (p : Point) : Prop :=
  o.enabled ∧ o.canvas.Contains (p.seenFrom (o.corner root))

theorem resolve_position {root : Canvas} (hroot : root.FitsCoordinates) (o : Overlay) :
    Screen.resolve root o.position = o.corner root := by
  simp only [Screen.resolve, corner, hroot.wrap_width, hroot.wrap_height]

end Overlay

namespace Screen

/-- Among the enabled overlays that cover a point, this one has the greatest slot. -/
structure Topmost (s : Screen) (p : Point) (i : Fin slotCount) (o : Overlay) : Prop where
  occupant : (s.slot i).occupant = some o
  covers : o.Covers s.root p
  above : ∀ j > i, ∀ o', (s.slot j).occupant = some o' → ¬ o'.Covers s.root p

/-! ## A stack of overlays -/

section

variable {root : Canvas} {format : PixelFormat} {antialias : Bool} (corner : Overlay → Point) {os : List Overlay}
  (hos : ∀ o ∈ os, o.canvas.OfKind format antialias ∧ o.canvas.FitsCoordinates)

include hos

/-- A point where no overlay of the stack lies keeps its pixel. -/
theorem packed?_stack_of_uncovered (hroot : root.OfKind format antialias) (hfits : root.FitsCoordinates) {p : Point}
    (hp : root.Contains p) (hout : ∀ o ∈ os, ¬ o.canvas.Contains (p.seenFrom (corner o))) :
    (os.foldl (fun root o => root.copyFrom o.canvas (corner o)) root).packed? p = root.packed? p := by
  induction os generalizing root with
  | nil => rfl
  | cons o os ih =>
      obtain ⟨⟨hkind, hofits⟩, hos⟩ := List.forall_mem_cons.mp hos
      obtain ⟨ho, hout⟩ := List.forall_mem_cons.mp hout
      have hlayout := Canvas.sameLayout_copyFrom hroot.valid hkind.valid (corner o)
      have hformat := hkind.format_eq.trans hroot.format_eq.symm
      rw [List.foldl_cons, ih hos (hlayout.ofKind hroot) (hlayout.fitsCoordinates hfits) (hlayout.contains_iff.mpr hp)
        hout, Canvas.packed?_copyFrom hroot.valid hkind.valid hformat hfits hofits _ hp, if_neg ho]

/-- A point where an overlay lies and none above it shows the pixel of that overlay. -/
theorem packed?_stack_of_covered (hroot : root.OfKind format antialias) (hfits : root.FitsCoordinates) {p : Point}
    (hp : root.Contains p) {below above : List Overlay} {o : Overlay} (hsplit : os = below ++ o :: above)
    (hin : o.canvas.Contains (p.seenFrom (corner o)))
    (hout : ∀ o' ∈ above, ¬ o'.canvas.Contains (p.seenFrom (corner o'))) :
    (os.foldl (fun root o => root.copyFrom o.canvas (corner o)) root).packed? p =
      o.canvas.packed? (p.seenFrom (corner o)) := by
  subst hsplit
  have hbelow : root.SameLayout (below.foldl (fun root o => root.copyFrom o.canvas (corner o)) root) :=
    sameLayout_stack hroot.valid corner fun o' ho' => (hos o' (List.mem_append_left _ ho')).1.valid
  obtain ⟨⟨hkind, hofits⟩, habove⟩ := List.forall_mem_cons.mp (List.forall_mem_append.mp hos).2
  have hlower := hbelow.ofKind hroot
  have hcopy := Canvas.sameLayout_copyFrom hlower.valid hkind.valid (corner o)
  have hformat := hkind.format_eq.trans hlower.format_eq.symm
  have hlowerFits := hbelow.fitsCoordinates hfits
  have hlowerMem := hbelow.contains_iff.mpr hp
  rw [List.foldl_append, List.foldl_cons, packed?_stack_of_uncovered corner habove (hcopy.ofKind hlower)
    (hcopy.fitsCoordinates hlowerFits) (hcopy.contains_iff.mpr hlowerMem) hout,
    Canvas.packed?_copyFrom hlower.valid hkind.valid hformat hlowerFits hofits _ hlowerMem, if_pos hin]

end

/-! ## The overlays of a screen -/

variable {s : Screen} {l : Ledger}

theorem overlays_eq_append {i : Fin slotCount} {o : Overlay} (ho : (s.slot i).occupant = some o) :
    s.overlays = (s.slots.toList.take i).filterMap Slot.occupant ++
      o :: (s.slots.toList.drop (i + 1)).filterMap Slot.occupant := by
  have hi : i.val < s.slots.toList.length := by
    rw [Vector.length_toList]
    exact i.isLt
  have hslot : (s.slots.toList[i.val]).occupant = some o := by
    rw [Vector.getElem_toList]
    exact ho
  conv => lhs; rw [overlays, ← List.take_append_drop i.val s.slots.toList]
  rw [List.filterMap_append, List.drop_eq_getElem_cons hi, List.filterMap_cons_some hslot]

theorem exists_slot_of_mem_drop {n : Nat} {o : Overlay} (ho : o ∈ (s.slots.toList.drop n).filterMap Slot.occupant) :
    ∃ j : Fin slotCount, n ≤ j ∧ (s.slot j).occupant = some o := by
  obtain ⟨slot, hslot, ho⟩ := List.mem_filterMap.mp ho
  obtain ⟨k, hk, rfl⟩ := List.mem_drop_iff_getElem.mp hslot
  rw [Vector.length_toList] at hk
  exact ⟨⟨n + k, by omega⟩, Nat.le_add_right _ _, by simpa [slot] using ho⟩

/-- What the root is when a frame that was begun is ended: every point shows the overlay on top of it. -/
structure Composed (s : Screen) (root : Canvas) : Prop where
  layout : s.root.SameLayout root
  covered : ∀ p, s.root.Contains p → ∀ i o, s.Topmost p i o →
    root.packed? p = o.canvas.packed? (p.seenFrom (o.corner s.root))
  uncovered : ∀ p, s.root.Contains p → (∀ o ∈ s.overlays, ¬ o.Covers s.root p) → root.packed? p = s.root.packed? p

theorem Tracks.composed (ht : s.Tracks l) (hroot : s.root.FitsCoordinates)
    (hoverlays : ∀ o ∈ s.overlays, o.canvas.FitsCoordinates) : s.Composed s.composite.root := by
  have hcorner : (fun (root : Canvas) (o : Overlay) => root.copyFrom o.canvas (resolve s.root o.position)) =
      fun root o => root.copyFrom o.canvas (o.corner s.root) := by
    funext root o
    rw [Overlay.resolve_position hroot]
  have hos : ∀ o ∈ s.overlays.filter Overlay.enabled,
      o.canvas.OfKind l.format l.antialias ∧ o.canvas.FitsCoordinates := by
    intro o ho
    obtain ⟨ho, -⟩ := List.mem_filter.mp ho
    exact ⟨ht.ofKind_overlays o ho, hoverlays o ho⟩
  constructor
  case layout => exact sameLayout_composite ht.root.valid fun o ho => (ht.ofKind_overlays o ho).valid
  case covered =>
    intro p hp i o htop
    have hsplit := congrArg (List.filter Overlay.enabled) (overlays_eq_append htop.occupant)
    rw [List.filter_append, List.filter_cons_of_pos htop.covers.1] at hsplit
    simp only [Screen.composite, hcorner]
    refine packed?_stack_of_covered _ hos ht.root hroot hp hsplit htop.covers.2 fun o' ho' hin => ?_
    obtain ⟨ho', henabled⟩ := List.mem_filter.mp ho'
    obtain ⟨j, hj, hoccupant⟩ := exists_slot_of_mem_drop ho'
    exact htop.above j hj o' hoccupant ⟨henabled, hin⟩
  case uncovered =>
    intro p hp hout
    simp only [Screen.composite, hcorner]
    refine packed?_stack_of_uncovered _ hos ht.root hroot hp fun o ho hin => ?_
    obtain ⟨ho, henabled⟩ := List.mem_filter.mp ho
    exact hout o ho ⟨henabled, hin⟩

/-- Setting a mode on the root of a screen that any calls led to: what changes, and when the root does. -/
theorem setMode_root_of_reached (h : Reached s l) (hroot : s.root.FitsCoordinates)
    (hoverlays : ∀ o ∈ s.overlays, o.canvas.FitsCoordinates) (mode : DrawMode) :
    (s.setMode .root mode).1 = .ok (decide (mode = .ended)) ∧
      (s.setMode .root mode).2 = { s with root := (s.setMode .root mode).2.root, mode } ∧
      (¬ (mode = .ended ∧ l.mode = .begun ∧ s.overlaysEnabled) → (s.setMode .root mode).2.root = s.root) ∧
      (mode = .ended → l.mode = .begun → s.overlaysEnabled → s.Composed (s.setMode .root mode).2.root) := by
  have ht := h.tracks
  rw [← ht.mode]
  by_cases hend : mode = .ended ∧ s.mode = .begun ∧ s.overlaysEnabled
  · simp only [setMode, if_pos hend]
    exact ⟨trivial, rfl, fun hnot => absurd hend hnot, fun _ _ _ => ht.composed hroot hoverlays⟩
  · simp only [setMode, if_neg hend]
    exact ⟨trivial, trivial, fun _ => trivial, fun hmode hbegun hon => absurd ⟨hmode, hbegun, hon⟩ hend⟩

/-- An overlay that counts its column from the right shows in the last column. -/
theorem setMode_root_of_right_column :
    ∃ s l, Reached s l ∧ s.root.FitsCoordinates ∧ (∀ o ∈ s.overlays, o.canvas.FitsCoordinates) ∧
      l.mode = .begun ∧ s.overlaysEnabled ∧ s.Composed (s.setMode .root .ended).2.root ∧
      (s.setMode .root .ended).2.root.packed? ⟨1, 0⟩ = some 7 := by
  have hroot : (Canvas.blank 2 1 .rgba8888 false).Valid := ⟨by decide, by decide, by decide⟩
  have h := (((Reached.start hroot).perform (.create (.upTo 4) .root ⟨-1, 0⟩ 1 1)).perform
    (.draw (.overlay ⟨⟨0, by decide⟩, 0⟩) (.put ⟨0, 0⟩ 7))).perform (.setMode .root .begun)
  refine ⟨_, _, h, ?_, ?_, ?_, ?_, (setMode_root_of_reached h ?_ ?_ .ended).2.2.2 rfl ?_ ?_, ?_⟩
  all_goals decide +kernel

end Screen

end Framecast
