import Framecast.Proofs.Canvas.Operations
import Framecast.Screen.Basic

/-!
# What can be done to a screen

`ScreenOperation` lists the calls on a screen with their arguments, and `Screen.perform` makes one of them. A `Ledger`
is what a caller knows: it is kept from the calls and their answers alone and never looks at a slot or a generation.
`Screen.Reached` holds of a screen and a ledger after any sequence of calls on a new screen.
-/

namespace Framecast

/-- A call on a screen with its arguments. -/
inductive ScreenOperation where
  | create (allocator : Allocator) (parent : Surface) (position : Point) (width height : Nat)
  | destroy (h : Handle)
  | destroyAll
  | setEnabled (surface : Surface) (enabled : Bool)
  | setPosition (h : Handle) (position : Point)
  | draw (surface : Surface) (operation : CanvasOperation)
  | setMode (surface : Surface) (mode : DrawMode)
  | composite
  | resizeRoot (allocator : Allocator) (width height : Nat)

inductive ScreenAnswer where
  | created (answer : Except SurfaceError (Option Handle))
  | destroyed (count : Nat)
  | done (answer : Except SurfaceError Unit)
  | ready (answer : Except SurfaceError Bool)

/-- What the calls made so far and their answers tell. -/
structure Ledger where
  format : PixelFormat
  antialias : Bool
  /-- Every handle that was given out. -/
  issued : List Handle
  /-- Every handle whose overlay was destroyed. -/
  destroyed : List Handle
  /-- The other handles, each with its overlay. -/
  live : List (Handle × Overlay)
  /-- The last mode that was set on the root. -/
  mode : DrawMode

namespace Ledger

def start (root : Canvas) : Ledger := ⟨root.format, root.antialias, [], [], [], .idle⟩

/-- How often an overlay was destroyed in a slot. -/
def releases (l : Ledger) (i : Fin slotCount) : Nat := (l.destroyed.map Handle.slot).count i

/-- The live handles. -/
def handles (l : Ledger) : List Handle := l.live.map Prod.fst

/-- A handle is given out for an overlay. -/
def add (l : Ledger) (h : Handle) (o : Overlay) : Ledger :=
  { l with issued := h :: l.issued, live := (h, o) :: l.live }

/-- The overlay of a handle changes. -/
def change (l : Ledger) (h : Handle) (f : Overlay → Overlay) : Ledger :=
  { l with live := l.live.map fun e => if e.1 = h then (e.1, f e.2) else e }

/-- The overlays of some handles are destroyed. -/
def remove (l : Ledger) (gone : Handle → Bool) : Ledger :=
  { l with destroyed := l.handles.filter gone ++ l.destroyed, live := l.live.filter fun e => !gone e.1 }

/-- The ledger after a call that got an answer. A call through a handle that is not live leaves it as it is. -/
def record (l : Ledger) (answer : ScreenAnswer) : ScreenOperation → Ledger
  | .create _ _ position width height =>
    match answer with
    | .created (.ok (some h)) => l.add h ⟨.blank width height l.format l.antialias, position, true⟩
    | _ => l
  | .destroy h => l.remove (· = h)
  | .destroyAll => l.remove fun _ => true
  | .setEnabled .root _ => l
  | .setEnabled (.overlay h) enabled => l.change h fun o => { o with enabled }
  | .setPosition h position => l.change h fun o => { o with position }
  | .draw .root _ => l
  | .draw (.overlay h) operation => l.change h fun o => { o with canvas := o.canvas.after operation }
  | .setMode .root mode => { l with mode }
  | .setMode (.overlay _) _ => l
  | .composite => l
  | .resizeRoot _ _ _ => l

end Ledger

namespace Screen

/-- Makes a call. -/
def perform (s : Screen) : ScreenOperation → ScreenAnswer × Screen
  | .create allocator parent position width height =>
    (s.create allocator parent position width height).map .created id
  | .destroy h => (s.destroy h).map .done id
  | .destroyAll => s.destroyAll.map .destroyed id
  | .setEnabled surface enabled => (s.setEnabled surface enabled).map .done id
  | .setPosition h position => (s.setPosition h position).map .done id
  | .draw surface operation => (s.draw surface fun c => c.after operation).map .done id
  | .setMode surface mode => (s.setMode surface mode).map .ready id
  | .composite => (.done (.ok ()), s.composite)
  | .resizeRoot allocator width height => (s.resizeRoot allocator width height).map .done id

/-- Any sequence of calls on a new screen leads to this screen and this ledger. -/
inductive Reached : Screen → Ledger → Prop
  | start {root : Canvas} (hroot : root.Valid) : Reached (.ofRoot root) (.start root)
  | perform {s : Screen} {l : Ledger} (operation : ScreenOperation) (h : Reached s l) :
      Reached (s.perform operation).2 (l.record (s.perform operation).1 operation)

/-! ## Overlays and slots -/

variable {s s' : Screen}

theorem slot_congr (hslots : s'.slots = s.slots) (i : Fin slotCount) : s'.slot i = s.slot i := by
  simp only [slot, hslots]

theorem slot_setOccupant (s : Screen) (i j : Fin slotCount) (o : Overlay) :
    (s.setOccupant i o).slot j = if i = j then ⟨(s.slot j).generation, some o⟩ else s.slot j := by
  simp only [setOccupant, slot, Fin.getElem_fin, Vector.getElem_set, ← Fin.ext_iff]
  split
  · rename_i hij
    subst hij
    rfl
  · rfl

theorem slot_destroy {h : Handle} {o : Overlay} (ho : s.overlay? h = some o) (i : Fin slotCount) :
    (s.destroy h).2.slot i = if i = h.slot then (s.slot i).release else s.slot i := by
  simp only [destroy, ho, slot, Fin.getElem_fin, Vector.getElem_set, ← Fin.ext_iff]
  by_cases hi : i = h.slot
  · subst hi
    simp only [if_true]
  · rw [if_neg (Ne.symm hi), if_neg hi]

theorem slot_destroyAll (s : Screen) (i : Fin slotCount) : s.destroyAll.2.slot i = (s.slot i).release := by
  simp only [destroyAll, slot, Fin.getElem_fin, Vector.getElem_map]

theorem toList_slots (s : Screen) : s.slots.toList = (List.finRange slotCount).map s.slot := by
  refine List.ext_getElem (by simp) fun i _ _ => ?_
  simp [slot]

theorem overlay?_eq_some_iff {h : Handle} {o : Overlay} :
    s.overlay? h = some o ↔ (s.slot h.slot).generation = h.generation ∧ (s.slot h.slot).occupant = some o := by
  simp only [overlay?]
  split
  · rename_i hgen
    exact ⟨fun h => ⟨hgen, h⟩, fun h => h.2⟩
  · rename_i hgen
    exact ⟨fun h => (nomatch h), fun h => absurd h.1 hgen⟩

theorem overlay?_congr (hslots : s'.slots = s.slots) (h : Handle) : s'.overlay? h = s.overlay? h := by
  simp only [overlay?, slot_congr hslots]

theorem overlay?_setOccupant (s : Screen) (i : Fin slotCount) (o : Overlay) (h : Handle) :
    (s.setOccupant i o).overlay? h = if h = ⟨i, (s.slot i).generation⟩ then some o else s.overlay? h := by
  obtain ⟨j, generation⟩ := h
  by_cases hij : i = j
  · subst hij
    by_cases hgen : (s.slot i).generation = generation
    · subst hgen
      simp [overlay?, slot_setOccupant]
    · simp [overlay?, slot_setOccupant, hgen, Ne.symm hgen]
  · simp [overlay?, slot_setOccupant, hij, Ne.symm hij]

theorem generation_setOccupant (s : Screen) (i j : Fin slotCount) (o : Overlay) :
    ((s.setOccupant i o).slot j).generation = (s.slot j).generation := by
  rw [slot_setOccupant]
  split <;> rfl

/-- Changing an overlay shows through its own handle and through no other. -/
theorem overlay?_modify (s : Screen) (h : Handle) (f : Overlay → Overlay) (h' : Handle) :
    (s.modify h f).2.overlay? h' = if h' = h then (s.overlay? h).map f else s.overlay? h' := by
  cases ho : s.overlay? h with
  | none =>
      simp only [modify, ho]
      split
      · subst_vars
        exact ho
      · rfl
  | some o =>
      have hname : (⟨h.slot, (s.slot h.slot).generation⟩ : Handle) = h := by
        rw [(overlay?_eq_some_iff.mp ho).1]
      simp only [modify, ho, overlay?_setOccupant, hname, Option.map_some]

/-- Drawing shows on its own surface and on no other. -/
theorem canvas?_draw (s : Screen) (surface : Surface) (f : Canvas → Canvas) (surface' : Surface) :
    (s.draw surface f).2.canvas? surface' =
      if surface' = surface then (s.canvas? surface).map f else s.canvas? surface' := by
  cases surface with
  | root => cases surface' <;> rfl
  | overlay h =>
      cases surface' with
      | root =>
          simp only [draw, modify]
          cases s.overlay? h <;> rfl
      | overlay h' =>
          simp only [draw, canvas?, overlay?_modify, Surface.overlay.injEq, Option.map_map]
          split
          · rw [Option.map_map]
            rfl
          · rfl

theorem canvas?_draw_self {surface : Surface} {c : Canvas} (hc : s.canvas? surface = some c) (f : Canvas → Canvas) :
    (s.draw surface f).2.canvas? surface = some (f c) := by
  rw [canvas?_draw, if_pos rfl, hc, Option.map_some]

theorem generation_modify (s : Screen) (h : Handle) (f : Overlay → Overlay) (i : Fin slotCount) :
    ((s.modify h f).2.slot i).generation = (s.slot i).generation := by
  unfold modify
  split
  · rfl
  · exact generation_setOccupant s _ i _

/-! ## Free slots -/

theorem freeSlot?_eq_none_iff :
    s.freeSlot? = none ↔ ∀ i : Fin slotCount, (s.slot i).occupant.isSome := by
  simp [freeSlot?, Option.isSome_iff_ne_none]

/-- The free slot is the lowest one without an overlay. -/
theorem freeSlot?_eq_some_iff {i : Fin slotCount} :
    s.freeSlot? = some i ↔ (s.slot i).occupant = none ∧ ∀ j < i, (s.slot j).occupant.isSome := by
  simp only [freeSlot?, List.find?_eq_some_iff_getElem, List.getElem_finRange, List.length_finRange, Fin.cast_mk,
    Option.isNone_iff_eq_none]
  constructor
  · rintro ⟨hi, k, hk, rfl, hbelow⟩
    refine ⟨hi, fun j hj => ?_⟩
    have := hbelow j.val hj
    simpa [Option.isSome_iff_ne_none] using this
  · rintro ⟨hi, hbelow⟩
    refine ⟨hi, i.val, i.isLt, rfl, fun j hj => ?_⟩
    have := hbelow ⟨j, by omega⟩ hj
    simpa [Option.isSome_iff_ne_none] using this

/-- No slot is free exactly if there are as many overlays as slots. -/
theorem freeSlot?_eq_none_iff_overlayCount : s.freeSlot? = none ↔ s.overlayCount = slotCount := by
  have hall := List.countP_eq_length (p := fun slot : Slot => slot.occupant.isSome) (l := s.slots.toList)
  rw [Vector.length_toList] at hall
  rw [freeSlot?_eq_none_iff, overlayCount, hall, toList_slots]
  simp only [List.forall_mem_map, List.mem_finRange, true_imp_iff]

/-! ## Creating overlays -/

variable {allocator : Allocator} {parent : Surface} {position : Point} {width height : Nat}

theorem create_eq_none_iff :
    (s.create allocator .root position width height).1 = .ok none ↔ s.freeSlot? = none := by
  cases hfree : s.freeSlot? with
  | none => simp [create, hfree]
  | some i =>
      cases hcanvas : Canvas.create allocator width height s.root.format s.root.antialias <;>
        simp [create, hfree, hcanvas]

/-- A handle that was given out names the lowest free slot in its present generation. -/
theorem eq_of_create_eq_some {h : Handle}
    (hnew : (s.create allocator parent position width height).1 = .ok (some h)) :
    s.freeSlot? = some h.slot ∧ h = ⟨h.slot, (s.slot h.slot).generation⟩ := by
  cases parent with
  | overlay p => cases hnew
  | root =>
      cases hfree : s.freeSlot? with
      | none => simp [create, hfree] at hnew
      | some i =>
          cases hcanvas : Canvas.create allocator width height s.root.format s.root.antialias with
          | error e => simp [create, hfree, hcanvas] at hnew
          | ok canvas =>
              simp only [create, hfree, hcanvas, Except.ok.injEq, Option.some.injEq] at hnew
              subst hnew
              exact ⟨rfl, rfl⟩

/-- With a free slot and an allocatable canvas a handle is given out. -/
theorem create_eq_some {i : Fin slotCount} {canvas : Canvas} (hfree : s.freeSlot? = some i)
    (hcanvas : Canvas.create allocator width height s.root.format s.root.antialias = .ok canvas) :
    (s.create allocator .root position width height).1 = .ok (some ⟨i, (s.slot i).generation⟩) := by
  simp only [create, hfree, hcanvas]

/-! ## Compositing -/

theorem mem_overlays_iff {o : Overlay} : o ∈ s.overlays ↔ ∃ i : Fin slotCount, (s.slot i).occupant = some o := by
  simp only [overlays, toList_slots, List.mem_filterMap, List.mem_map, List.mem_finRange, true_and]
  constructor
  · rintro ⟨_, ⟨i, rfl⟩, ho⟩
    exact ⟨i, ho⟩
  · rintro ⟨i, ho⟩
    exact ⟨_, ⟨i, rfl⟩, ho⟩

/-- Copies of valid canvases keep the layout. -/
theorem sameLayout_stack {root : Canvas} (hroot : root.Valid) (corner : Overlay → Point) {os : List Overlay}
    (hos : ∀ o ∈ os, o.canvas.Valid) :
    root.SameLayout (os.foldl (fun root o => root.copyFrom o.canvas (corner o)) root) :=
  List.foldlRecOn os _ (.refl root) fun _ hd o ho =>
    hd.trans (Canvas.sameLayout_copyFrom (hd.valid hroot) (hos o ho) (corner o))

theorem sameLayout_composite (hroot : s.root.Valid) (hos : ∀ o ∈ s.overlays, o.canvas.Valid) :
    s.root.SameLayout s.composite.root :=
  sameLayout_stack hroot _ fun o ho => hos o (List.mem_filter.mp ho).1

end Screen

end Framecast
