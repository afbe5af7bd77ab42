import Framecast.Proofs.Screen.Operations

/-!
# Handles

A screen keeps its overlays as a map from the live handles would. `Screen.Tracks` relates the slots and their
generations to the ledger: the generation of a slot is the number of overlays destroyed in it, modulo the range of a
generation, and that number tells a stale handle from the live one of the same slot until the range is used up.
`describes_of_reached` reads off what a caller can rely on.
-/

namespace Framecast

/-! ## Ledgers -/

namespace Ledger

variable {l : Ledger} {h : Handle} {o : Overlay}

theorem mem_handles_iff : h ∈ l.handles ↔ ∃ o, (h, o) ∈ l.live := by
  simp [handles]

theorem mem_handles_of_live (ho : (h, o) ∈ l.live) : h ∈ l.handles := mem_handles_iff.mpr ⟨o, ho⟩

theorem handles_change (l : Ledger) (h : Handle) (f : Overlay → Overlay) : (l.change h f).handles = l.handles := by
  simp only [handles, change, List.map_map]
  refine List.map_congr_left fun e _ => ?_
  simp only [Function.comp_apply]
  split <;> rfl

theorem mem_live_change_iff {h' : Handle} {f : Overlay → Overlay} :
    (h', o) ∈ (l.change h f).live ↔ if h' = h then ∃ o', (h, o') ∈ l.live ∧ f o' = o else (h', o) ∈ l.live := by
  simp only [change, List.mem_map, Prod.exists]
  constructor
  · rintro ⟨k, o', hmem, heq⟩
    split at heq
    · rename_i hk
      cases heq
      subst hk
      rw [if_pos rfl]
      exact ⟨o', hmem, rfl⟩
    · rename_i hk
      cases heq
      rwa [if_neg hk]
  · split
    · rename_i hk
      subst hk
      rintro ⟨o', hmem, rfl⟩
      exact ⟨h', o', hmem, if_pos rfl⟩
    · rename_i hk
      intro hmem
      exact ⟨h', o, hmem, if_neg hk⟩

theorem handles_remove (l : Ledger) (gone : Handle → Bool) :
    (l.remove gone).handles = l.handles.filter fun h => !gone h := by
  simp only [handles, remove, List.filter_map]
  rfl

theorem mem_live_remove_iff {gone : Handle → Bool} :
    (h, o) ∈ (l.remove gone).live ↔ (h, o) ∈ l.live ∧ gone h = false := by
  simp [remove]

theorem remove_congr {gone gone' : Handle → Bool} (hgone : ∀ h ∈ l.handles, gone h = gone' h) :
    l.remove gone = l.remove gone' := by
  have hdestroyed : l.handles.filter gone = l.handles.filter gone' := List.filter_congr hgone
  have hlive : (l.live.filter fun e => !gone e.1) = l.live.filter fun e => !gone' e.1 :=
    List.filter_congr fun e he => by rw [hgone e.1 (mem_handles_of_live he)]
  simp only [remove, hdestroyed, hlive]

theorem remove_of_notMem (hnot : h ∉ l.handles) : l.remove (· = h) = l := by
  have hdestroyed : l.handles.filter (· = h) = [] := by
    refine List.filter_eq_nil_iff.mpr fun h' hlive => ?_
    rw [decide_eq_true_iff]
    rintro rfl
    exact hnot hlive
  have hlive : (l.live.filter fun e => !decide (e.1 = h)) = l.live := by
    refine List.filter_eq_self.mpr fun e he => ?_
    rw [Bool.not_eq_true', decide_eq_false_iff_not]
    rintro rfl
    exact hnot (mem_handles_of_live he)
  simp only [remove, hdestroyed, hlive, List.nil_append]

/-- When the overlays of some slots are destroyed, each of these slots that was taken counts one more release. -/
theorem releases_remove (hslots : (l.handles.map Handle.slot).Nodup) (freed : Fin slotCount → Bool)
    {i : Fin slotCount} {taken : Bool} (htaken : taken ↔ i ∈ l.handles.map Handle.slot) :
    (l.remove fun h => freed h.slot).releases i = l.releases i + if freed i && taken then 1 else 0 := by
  have hcount : ((l.handles.filter fun h => freed h.slot).map Handle.slot).count i =
      if freed i && taken then 1 else 0 := by
    have hfilter : (l.handles.filter fun h => freed h.slot).map Handle.slot =
        (l.handles.map Handle.slot).filter freed := List.filter_map.symm
    have hmem : i ∈ (l.handles.map Handle.slot).filter freed ↔ (freed i && taken) = true := by
      rw [List.mem_filter, Bool.and_eq_true, htaken, and_comm]
    rw [hfilter, List.Nodup.count (hslots.filter freed)]
    exact ite_congr (propext hmem) (fun _ => rfl) fun _ => rfl
  simp only [releases, remove, List.map_append, List.count_append, hcount]
  exact Nat.add_comm _ _

end Ledger

namespace Slot

theorem occupant_release (s : Slot) : s.release.occupant = none := by
  unfold release
  split
  · rfl
  · rename_i h
    simpa using h

theorem generation_release (s : Slot) :
    s.release.generation = if s.occupant.isSome then s.generation + 1 else s.generation := by
  unfold release
  split <;> rfl

end Slot

/-! ## The invariant -/

namespace Screen

/-- What the slots have to do with the ledger. -/
structure Tracks (s : Screen) (l : Ledger) : Prop where
  root : s.root.OfKind l.format l.antialias
  overlays : ∀ e ∈ l.live, e.2.canvas.OfKind l.format l.antialias
  held : ∀ h o, s.overlay? h = some o ↔ (h, o) ∈ l.live
  slots : (l.handles.map Handle.slot).Nodup
  generation : ∀ i : Fin slotCount, (s.slot i).generation = .ofNat (l.releases i)
  issued : ∀ h, h ∈ l.issued ↔ h ∈ l.destroyed ∨ h ∈ l.handles
  stale : ∀ h ∈ l.destroyed, ∃ k < l.releases h.slot, h.generation = .ofNat k
  mode : s.mode = l.mode

namespace Tracks

variable {s s' : Screen} {l : Ledger}

theorem generation_of_live (ht : s.Tracks l) {h : Handle} (hlive : h ∈ l.handles) :
    h.generation = .ofNat (l.releases h.slot) := by
  obtain ⟨o, ho⟩ := Ledger.mem_handles_iff.mp hlive
  obtain ⟨hgen, -⟩ := overlay?_eq_some_iff.mp ((ht.held h o).mpr ho)
  rw [← hgen, ht.generation]

/-- A slot is taken exactly if a live handle names it. -/
theorem taken_iff (ht : s.Tracks l) (i : Fin slotCount) :
    (s.slot i).occupant.isSome ↔ i ∈ l.handles.map Handle.slot := by
  rw [Option.isSome_iff_exists, List.mem_map]
  constructor
  · rintro ⟨o, ho⟩
    have hlive := (ht.held ⟨i, (s.slot i).generation⟩ o).mp (overlay?_eq_some_iff.mpr ⟨rfl, ho⟩)
    exact ⟨_, Ledger.mem_handles_of_live hlive, rfl⟩
  · rintro ⟨h, hlive, rfl⟩
    obtain ⟨o, ho⟩ := Ledger.mem_handles_iff.mp hlive
    exact ⟨o, (overlay?_eq_some_iff.mp ((ht.held h o).mpr ho)).2⟩

theorem ofKind_overlays (ht : s.Tracks l) : ∀ o ∈ s.overlays, o.canvas.OfKind l.format l.antialias := by
  intro o ho
  obtain ⟨i, hi⟩ := mem_overlays_iff.mp ho
  exact ht.overlays _ ((ht.held ⟨i, (s.slot i).generation⟩ o).mp (overlay?_eq_some_iff.mpr ⟨rfl, hi⟩))

/-! ### What a call keeps -/

theorem start {root : Canvas} (hroot : root.Valid) : (Screen.ofRoot root).Tracks (.start root) where
  root := ⟨hroot, rfl, rfl⟩
  overlays := by simp [Ledger.start]
  held := by simp [Ledger.start, ofRoot, overlay?, slot, Slot.fresh]
  slots := by simp [Ledger.start, Ledger.handles]
  generation := by simp [Ledger.start, ofRoot, slot, Slot.fresh, Ledger.releases]
  issued := by simp [Ledger.start, Ledger.handles]
  stale := by simp [Ledger.start]
  mode := rfl

/-- A call that leaves the overlays alone. -/
theorem frame (ht : s.Tracks l) (hslots : s'.slots = s.slots) (hroot : s'.root.OfKind l.format l.antialias)
    (hmode : s'.mode = s.mode) : s'.Tracks l :=
  { ht with
    root := hroot
    held := fun h o => by rw [overlay?_congr hslots, ht.held]
    generation := fun i => by rw [slot_congr hslots, ht.generation]
    mode := hmode.trans ht.mode }

/-- A call that changes the overlay of a handle. -/
theorem modify (ht : s.Tracks l) (h : Handle) {f : Overlay → Overlay}
    (hf : ∀ o, (h, o) ∈ l.live → (f o).canvas.OfKind l.format l.antialias) :
    (s.modify h f).2.Tracks (l.change h f) where
  root := by
    unfold Screen.modify
    split
    · exact ht.root
    · exact ht.root
  overlays := by
    rintro ⟨h', o⟩ hmem
    rw [Ledger.mem_live_change_iff] at hmem
    split at hmem
    · obtain ⟨o', ho', rfl⟩ := hmem
      exact hf o' ho'
    · exact ht.overlays _ hmem
  held := by
    intro h' o
    rw [overlay?_modify, Ledger.mem_live_change_iff]
    split
    · simp only [Option.map_eq_some_iff, ht.held]
    · exact ht.held h' o
  slots := by
    rw [Ledger.handles_change]
    exact ht.slots
  generation := fun i => (generation_modify s h f i).trans (ht.generation i)
  issued := by
    rw [Ledger.handles_change]
    exact ht.issued
  stale := ht.stale
  mode := by
    unfold Screen.modify
    split
    · exact ht.mode
    · exact ht.mode

/-- A new overlay in a free slot. -/
theorem add (ht : s.Tracks l) {i : Fin slotCount} (hfree : (s.slot i).occupant = none) {o : Overlay}
    (ho : o.canvas.OfKind l.format l.antialias) :
    (s.setOccupant i o).Tracks (l.add ⟨i, (s.slot i).generation⟩ o) where
  root := ht.root
  overlays := by
    intro e he
    rcases List.mem_cons.mp he with rfl | he
    · exact ho
    · exact ht.overlays e he
  held := by
    intro h o'
    have hnot : s.overlay? ⟨i, (s.slot i).generation⟩ = none := by
      simp only [overlay?, ↓reduceIte, hfree]
    rw [overlay?_setOccupant, Ledger.add, List.mem_cons, Prod.mk.injEq, ← ht.held]
    split
    · rename_i hh
      subst hh
      simp only [hnot, reduceCtorEq, or_false, true_and, Option.some.injEq]
      exact eq_comm
    · rename_i hh
      simp only [hh, false_and, false_or]
  slots := by
    refine List.nodup_cons.mpr ⟨fun hmem => ?_, ht.slots⟩
    have htaken := (ht.taken_iff i).mpr hmem
    rw [hfree] at htaken
    cases htaken
  generation := fun j => (generation_setOccupant s i j o).trans (ht.generation j)
  issued := by
    intro h
    have hissued := ht.issued h
    simp only [Ledger.handles] at hissued
    simp only [Ledger.add, Ledger.handles, List.map_cons, List.mem_cons, hissued]
    exact or_left_comm
  stale := ht.stale
  mode := ht.mode

/-- Some slots are freed. -/
theorem release (ht : s.Tracks l) (freed : Fin slotCount → Bool) (hroot : s'.root = s.root) (hmode : s'.mode = s.mode)
    (hslots : ∀ i : Fin slotCount, s'.slot i = if freed i then (s.slot i).release else s.slot i) :
    s'.Tracks (l.remove fun h => freed h.slot) where
  root := by
    rw [hroot]
    exact ht.root
  overlays := by
    rintro ⟨h, o⟩ hmem
    exact ht.overlays _ (Ledger.mem_live_remove_iff.mp hmem).1
  held := by
    intro h o
    rw [overlay?_eq_some_iff, Ledger.mem_live_remove_iff, ← ht.held, overlay?_eq_some_iff, hslots]
    cases freed h.slot with
    | true => simp [Slot.occupant_release]
    | false => simp
  slots := by
    rw [Ledger.handles_remove]
    exact ht.slots.sublist (List.filter_sublist.map _)
  generation := by
    intro i
    rw [Ledger.releases_remove ht.slots freed (ht.taken_iff i), UInt32.ofNat_add, ← ht.generation, hslots]
    cases freed i with
    | true =>
        simp only [↓reduceIte, Slot.generation_release, Bool.true_and]
        split <;> simp
    | false => simp
  issued := by
    intro h
    rw [Ledger.handles_remove, List.mem_filter]
    have hissued := ht.issued h
    simp only [Ledger.remove, hissued, List.mem_append, List.mem_filter]
    cases freed h.slot <;> simp [or_comm]
  stale := by
    intro h hmem
    rw [Ledger.releases_remove ht.slots freed (ht.taken_iff h.slot)]
    rcases List.mem_append.mp hmem with hgone | hold
    · obtain ⟨hlive, hfreed⟩ := List.mem_filter.mp hgone
      refine ⟨l.releases h.slot, ?_, ht.generation_of_live hlive⟩
      have htaken := (ht.taken_iff h.slot).mpr (List.mem_map_of_mem hlive)
      rw [hfreed, htaken]
      exact Nat.lt_succ_self _
    · obtain ⟨k, hk, hgen⟩ := ht.stale h hold
      exact ⟨k, Nat.lt_of_lt_of_le hk (Nat.le_add_right _ _), hgen⟩
  mode := hmode.trans ht.mode

/-! ### The calls -/

theorem create (ht : s.Tracks l) (allocator : Allocator) (parent : Surface) (position : Point) (width height : Nat) :
    (s.perform (.create allocator parent position width height)).2.Tracks
      (l.record (s.perform (.create allocator parent position width height)).1
        (.create allocator parent position width height)) := by
  cases parent with
  | overlay h => exact ht
  | root =>
      cases hfree : s.freeSlot? with
      | none =>
          simp only [perform, Screen.create, hfree]
          exact ht
      | some i =>
          obtain ⟨hi, -⟩ := freeSlot?_eq_some_iff.mp hfree
          cases hcanvas : Canvas.create allocator width height s.root.format s.root.antialias with
          | error e =>
              simp only [perform, Screen.create, hfree, hcanvas]
              exact ht
          | ok canvas =>
              have hkind := Canvas.ofKind_of_create hcanvas
              obtain rfl := Canvas.eq_blank_of_create hcanvas
              rw [ht.root.format_eq, ht.root.antialias_eq] at hcanvas hkind
              simp only [perform, Screen.create, hfree, hcanvas, ht.root.format_eq, ht.root.antialias_eq]
              exact ht.add hi hkind

theorem destroy (ht : s.Tracks l) (h : Handle) : (s.perform (.destroy h)).2.Tracks (l.remove (· = h)) := by
  cases ho : s.overlay? h with
  | none =>
      have hnot : h ∉ l.handles := by
        intro hlive
        obtain ⟨o, ho'⟩ := Ledger.mem_handles_iff.mp hlive
        rw [(ht.held h o).mpr ho'] at ho
        cases ho
      rw [Ledger.remove_of_notMem hnot]
      simp only [perform, Screen.destroy, ho]
      exact ht
  | some o =>
      have hlive := Ledger.mem_handles_of_live ((ht.held h o).mp ho)
      -- No other live handle names the slot.
      have hgone : ∀ h' ∈ l.handles, decide (h' = h) = decide (h'.slot = h.slot) := by
        intro h' hlive'
        refine decide_eq_decide.mpr ⟨fun heq => heq ▸ rfl, fun hslot => ?_⟩
        have hgen := ht.generation_of_live hlive'
        rw [hslot, ← ht.generation_of_live hlive] at hgen
        cases h
        cases h'
        exact (Handle.mk.injEq ..).mpr ⟨hslot, hgen⟩
      rw [Ledger.remove_congr hgone]
      have hroot : (s.destroy h).2.root = s.root := by simp only [Screen.destroy, ho]
      have hmode : (s.destroy h).2.mode = s.mode := by simp only [Screen.destroy, ho]
      refine ht.release (· = h.slot) hroot hmode fun i => ?_
      simp only [decide_eq_true_eq]
      exact slot_destroy ho i

theorem destroyAll (ht : s.Tracks l) : (s.perform .destroyAll).2.Tracks (l.remove fun _ => true) := by
  refine ht.release (fun _ => true) ?_ ?_ (slot_destroyAll s)
  · rfl
  · rfl

theorem composite (ht : s.Tracks l) : s.composite.Tracks l :=
  ht.frame rfl ((sameLayout_composite ht.root.valid fun o ho => (ht.ofKind_overlays o ho).valid).ofKind ht.root) rfl

theorem setMode (ht : s.Tracks l) (mode : DrawMode) : (s.setMode .root mode).2.Tracks { l with mode } := by
  simp only [Screen.setMode]
  split
  · exact { ht.composite with mode := rfl }
  · exact { ht with mode := rfl }

theorem perform (ht : s.Tracks l) (operation : ScreenOperation) :
    (s.perform operation).2.Tracks (l.record (s.perform operation).1 operation) := by
  cases operation with
  | create allocator parent position width height => exact ht.create allocator parent position width height
  | destroy h => exact ht.destroy h
  | destroyAll => exact ht.destroyAll
  | setEnabled surface enabled =>
      cases surface with
      | root => exact ht.frame rfl ht.root rfl
      | overlay h => exact ht.modify h fun o ho => ht.overlays _ ho
  | setPosition h position => exact ht.modify h fun o ho => ht.overlays _ ho
  | draw surface operation =>
      cases surface with
      | root => exact ht.frame rfl (ht.root.after operation) rfl
      | overlay h => exact ht.modify h fun o ho => (ht.overlays _ ho).after operation
  | setMode surface mode =>
      cases surface with
      | root => exact ht.setMode mode
      | overlay h => exact ht
  | composite => exact ht.composite
  | resizeRoot allocator width height =>
      cases hresize : s.root.resize allocator width height with
      | error e =>
          simp only [Screen.perform, Screen.resizeRoot, hresize]
          exact ht
      | ok root =>
          simp only [Screen.perform, Screen.resizeRoot, hresize]
          exact ht.frame rfl (ht.root.resize hresize) rfl

/-! ### What a caller can rely on -/

theorem count_eq (ht : s.Tracks l) : s.overlayCount = l.live.length := by
  -- The taken slots and the slots of the live handles are the same, and each occurs once.
  have htaken : ((List.finRange slotCount).filter fun i => (s.slot i).occupant.isSome).Perm
      (l.handles.map Handle.slot) := by
    refine (List.perm_ext_iff_of_nodup ((List.nodup_finRange _).filter _) ht.slots).mpr fun i => ?_
    simp only [List.mem_filter, List.mem_finRange, true_and, ht.taken_iff]
  have hlength := htaken.length_eq
  rw [← List.countP_eq_length_filter] at hlength
  rw [overlayCount, toList_slots, List.countP_map]
  simp only [Ledger.handles, List.length_map] at hlength
  exact hlength

/-- No slot was freed so often that its generations started again. -/
theorem notMem_destroyed (ht : s.Tracks l) {i : Fin slotCount} (hbound : l.releases i < 4294967296) :
    (⟨i, (s.slot i).generation⟩ : Handle) ∉ l.destroyed := by
  intro hmem
  obtain ⟨k, hk, hgen⟩ := ht.stale _ hmem
  rw [ht.generation] at hgen
  have hnat := congrArg UInt32.toNat hgen
  simp only [UInt32.toNat_ofNat'] at hnat hk
  omega

theorem overlay?_of_notMem (ht : s.Tracks l) {h : Handle} (hnot : h ∉ l.handles) : s.overlay? h = none := by
  rw [Option.eq_none_iff_forall_ne_some]
  intro o ho
  exact hnot (Ledger.mem_handles_of_live ((ht.held h o).mp ho))

theorem isSome_overlay?_iff (ht : s.Tracks l) {h : Handle} (hbound : l.releases h.slot < 4294967296) :
    (s.overlay? h).isSome ↔ h ∈ l.issued ∧ h ∉ l.destroyed := by
  rw [Option.isSome_iff_exists]
  constructor
  · rintro ⟨o, ho⟩
    have hlive := Ledger.mem_handles_of_live ((ht.held h o).mp ho)
    refine ⟨(ht.issued h).mpr (.inr hlive), fun hmem => ?_⟩
    have hname : (⟨h.slot, (s.slot h.slot).generation⟩ : Handle) = h := by
      rw [(overlay?_eq_some_iff.mp ho).1]
    exact ht.notMem_destroyed hbound (hname ▸ hmem)
  · rintro ⟨hissued, hnot⟩
    obtain ⟨o, ho⟩ := Ledger.mem_handles_iff.mp (((ht.issued h).mp hissued).resolve_left hnot)
    exact ⟨o, (ht.held h o).mpr ho⟩

/-- The free slot is the lowest one that no live handle has, and its present handle was never given out. -/
theorem fresh_of_freeSlot? (ht : s.Tracks l) {i : Fin slotCount} (hfree : s.freeSlot? = some i)
    (hbound : l.releases i < 4294967296) :
    (⟨i, (s.slot i).generation⟩ : Handle) ∉ l.issued ∧ (∀ h' ∈ l.handles, h'.slot ≠ i) ∧
      ∀ j < i, ∃ h' ∈ l.handles, h'.slot = j := by
  obtain ⟨hempty, hbelow⟩ := freeSlot?_eq_some_iff.mp hfree
  have hslot : i ∉ l.handles.map Handle.slot := by
    rw [← ht.taken_iff, hempty]
    exact Bool.false_ne_true
  refine ⟨fun hissued => ?_, fun h' hlive heq => ?_, fun j hj => ?_⟩
  · rcases (ht.issued _).mp hissued with hgone | hlive
    · exact ht.notMem_destroyed hbound hgone
    · exact hslot (List.mem_map_of_mem hlive)
  · exact hslot (heq ▸ List.mem_map_of_mem hlive)
  · exact List.mem_map.mp ((ht.taken_iff j).mp (hbelow j hj))

end Tracks

theorem Reached.tracks {s : Screen} {l : Ledger} (h : Reached s l) : s.Tracks l := by
  induction h with
  | start hroot => exact .start hroot
  | perform operation _ ih => exact ih.perform operation

/-! ## Screens that some ledger goes with -/

/-- Every canvas is valid and of one kind, and the handles are in order. -/
def Sound (s : Screen) : Prop := ∃ l, s.Tracks l

namespace Sound

variable {s : Screen}

theorem ofRoot {root : Canvas} (hroot : root.Valid) : (Screen.ofRoot root).Sound := ⟨_, .start hroot⟩

theorem valid (hs : s.Sound) : s.root.Valid :=
  have ⟨_, ht⟩ := hs
  ht.root.valid

theorem perform (hs : s.Sound) (operation : ScreenOperation) : (s.perform operation).2.Sound :=
  have ⟨_, ht⟩ := hs
  ⟨_, ht.perform operation⟩

theorem draw (hs : s.Sound) (surface : Surface) {f : Canvas → Canvas}
    (hf : ∀ c, s.canvas? surface = some c → c.SameLayout (f c)) : (s.draw surface f).2.Sound := by
  obtain ⟨l, ht⟩ := hs
  cases surface with
  | root => exact ⟨l, ht.frame rfl ((hf s.root rfl).ofKind ht.root) rfl⟩
  | overlay h =>
      refine ⟨_, ht.modify h fun o ho => (hf o.canvas ?_).ofKind (ht.overlays _ ho)⟩
      rw [canvas?, (ht.held h o).mpr ho, Option.map_some]

end Sound

end Screen

/-- What a caller finds on the screen, told from the ledger alone. -/
structure Ledger.Describes (l : Ledger) (s : Screen) : Prop where
  /-- A handle leads to the overlay that was created with it, as it was last changed through it. -/
  overlay_iff : ∀ h o, s.overlay? h = some o ↔ (h, o) ∈ l.live
  isSome_iff : ∀ h, (s.overlay? h).isSome ↔ h ∈ l.issued ∧ h ∉ l.destroyed
  handles_nodup : l.handles.Nodup
  count_eq : s.overlayCount = l.handles.length
  full_iff : ∀ allocator position width height,
    (s.create allocator .root position width height).1 = .ok none ↔ l.handles.length = slotCount
  /-- A new handle was never given out before, and its slot is the lowest that no live handle has. -/
  fresh : ∀ allocator parent position width height h,
    (s.create allocator parent position width height).1 = .ok (some h) →
    h ∉ l.issued ∧ (∀ h' ∈ l.handles, h'.slot ≠ h.slot) ∧ ∀ i < h.slot, ∃ h' ∈ l.handles, h'.slot = i
  /-- As long as there is room, a canvas that can be allocated gets a handle. -/
  created : ∀ allocator position width height canvas, l.handles.length ≠ slotCount →
    Canvas.create allocator width height l.format l.antialias = .ok canvas →
    ∃ h, (s.create allocator .root position width height).1 = .ok (some h)
  /-- What is done through any other handle is refused. -/
  refused : ∀ h ∉ l.handles, s.destroy h = (.error .noSuchSurface, s) ∧
    ∀ f, s.modify h f = (.error .noSuchSurface, s)

namespace Screen

/-- The slots with their generations serve every caller as a map from the live handles would, as long as no slot was
freed so often that its generations started again. -/
theorem describes_of_reached {s : Screen} {l : Ledger} (h : Reached s l) (hbound : ∀ i, l.releases i < 4294967296) :
    l.Describes s := by
  have ht := h.tracks
  have hcount : s.overlayCount = l.handles.length := by
    rw [ht.count_eq, Ledger.handles, List.length_map]
  constructor
  case overlay_iff => exact ht.held
  case isSome_iff => exact fun h => ht.isSome_overlay?_iff (hbound h.slot)
  case handles_nodup => exact List.Pairwise.of_map Handle.slot (fun _ _ hne heq => hne (heq ▸ rfl)) ht.slots
  case count_eq => exact hcount
  case full_iff =>
    intro allocator position width height
    rw [create_eq_none_iff, freeSlot?_eq_none_iff_overlayCount, hcount]
  case fresh =>
    intro allocator parent position width height h hnew
    obtain ⟨hfree, hname⟩ := eq_of_create_eq_some hnew
    obtain ⟨hissued, hslots⟩ := ht.fresh_of_freeSlot? hfree (hbound h.slot)
    rw [← hname] at hissued
    exact ⟨hissued, hslots⟩
  case created =>
    intro allocator position width height canvas hroom hcanvas
    cases hfree : s.freeSlot? with
    | none => exact absurd (hcount ▸ freeSlot?_eq_none_iff_overlayCount.mp hfree) hroom
    | some i =>
        rw [← ht.root.format_eq, ← ht.root.antialias_eq] at hcanvas
        exact ⟨_, create_eq_some hfree hcanvas⟩
  case refused =>
    intro h hnot
    simp only [Screen.destroy, Screen.modify, ht.overlay?_of_notMem hnot]
    exact ⟨trivial, fun _ => trivial⟩

/-- After a slot was used again, the handle of the overlay that was destroyed in it stays stale. -/
theorem describes_after_reuse :
    ∃ s l, Reached s l ∧ (∀ i, l.releases i < 4294967296) ∧ l.Describes s ∧
      l.destroyed = [⟨⟨0, by decide⟩, 0⟩] ∧ l.handles = [⟨⟨0, by decide⟩, 1⟩] := by
  have hroot : (Canvas.blank 1 1 .rgba8888 false).Valid := ⟨by decide, by decide, by decide⟩
  have h := (((Reached.start hroot).perform (.create (.upTo 4) .root ⟨0, 0⟩ 1 1)).perform
    (.destroy ⟨⟨0, by decide⟩, 0⟩)).perform (.create (.upTo 4) .root ⟨-1, 0⟩ 1 1)
  refine ⟨_, _, h, ?_, describes_of_reached h ?_, ?_, ?_⟩
  all_goals decide +kernel

end Screen

end Framecast
