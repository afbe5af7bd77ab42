import Framecast.Proofs.Demo.Rendering

/-!
# The loop of the demonstration

However the control lines fall into the turns of the loop: a turn that is told of something draws one frame, at the size
that was reported last, and a turn that is told of nothing draws none. The first turn that is told to quit, or of a
resize that failed, ends the loop without a frame. All this is said of a sink that returns from every frame, since the
loop waits for it. `Program.Steady` is the invariant: the scene knows the size of the root, and it is not waiting to be
drawn. Which pixels a turn paints plays no part here, only that painting never changes the size of a canvas.
-/

namespace Framecast

/-- The event ends the program. -/
def HostEvent.isFinal : HostEvent → Bool
  | .quit => true
  | .resizeFailed _ _ => true
  | _ => false

/-- The width and the height of the picture. -/
def Frame.size (f : Frame) : Nat × Nat := (f.width, f.height)

namespace Demo

variable {events events' told : List HostEvent}

/-! ## The scene -/

namespace Scene

variable {s s' s'' : Scene}

/-- What events that do not end the program make of the scene. -/
structure Follows (s : Scene) (events : List HostEvent) (s' : Scene) : Prop where
  size_eq : (s'.width, s'.height) = (lastSize? events).getD (s.width, s.height)
  compass_eq : s'.compass = s.compass
  changed_eq : s'.changed = (s.changed || !events.isEmpty)

theorem Follows.refl (s : Scene) : s.Follows [] s := ⟨rfl, rfl, (Bool.or_false _).symm⟩

theorem Follows.trans (h : s.Follows events s') (h' : s'.Follows events' s'') : s.Follows (events ++ events') s'' where
  size_eq := by
    rw [h'.size_eq, h.size_eq, lastSize?_append]
    cases lastSize? events' <;> rfl
  compass_eq := h'.compass_eq.trans h.compass_eq
  changed_eq := by
    rw [h'.changed_eq, h.changed_eq, Bool.or_assoc]
    cases events <;> rfl

theorem follows_update {event : HostEvent} (hgoes : event.isFinal = false) (s : Scene) :
    ∃ s', s.update event = some s' ∧ s.Follows [event] s' := by
  have hchanged (b : Bool) : true = (b || !List.isEmpty [event]) := (Bool.or_true b).symm
  cases event with
  | resized width height => exact ⟨_, rfl, rfl, rfl, hchanged _⟩
  | pointerMoved p => exact ⟨_, rfl, rfl, rfl, hchanged _⟩
  | pointerButton pressed button p => exact ⟨_, rfl, rfl, rfl, hchanged _⟩
  | keyPressed key => cases key <;> exact ⟨_, rfl, rfl, rfl, hchanged _⟩
  | quit => cases hgoes
  | resizeFailed width height => cases hgoes

end Scene

namespace Program

theorem follows_updateAll (hgoes : told.any HostEvent.isFinal = false) (s : Scene) :
    ∃ s', updateAll told s = some s' ∧ s.Follows told s' := by
  induction told generalizing s with
  | nil => exact ⟨s, rfl, .refl s⟩
  | cons event rest ih =>
      rw [List.any_cons, Bool.or_eq_false_iff] at hgoes
      obtain ⟨s', hupdate, hfollows⟩ := s.follows_update hgoes.1
      obtain ⟨s'', hrest, hfollows'⟩ := ih hgoes.2 s'
      refine ⟨s'', ?_, hfollows.trans hfollows'⟩
      rw [updateAll, hupdate, Option.bind_eq_bind, Option.bind_some, hrest]

/-! ## Turns -/

variable {p q p₀ : Program} {rounds : List (List HostEvent)} {sink : Sink}

/-- The program went through turns that it was told these events in, and between them the courier made any steps that
the sink let it make. -/
inductive Reached (sink : Sink) (p₀ : Program) : List (List HostEvent) → Program → Prop
  | start : Reached sink p₀ [] p₀
  | courier {rounds : List (List HostEvent)} {p : Program} (h : Reached sink p₀ rounds p)
      (hlets : sink.Lets p.display.courier) :
      Reached sink p₀ rounds { p with display.courier := p.display.courier.step }
  | turn {rounds : List (List HostEvent)} {p q : Program} {lines : List String} (h : Reached sink p₀ rounds p)
      (hturn : p.turn lines = .ok (true, q)) : Reached sink p₀ (rounds ++ [(p.display.pollInput lines).1]) q

/-- The sizes of the frames that belong to turns: for each turn that was told of something, the size that was reported
last. -/
def sizesTold (before : List HostEvent) : List (List HostEvent) → List (Option (Nat × Nat))
  | [] => []
  | told :: rest =>
    (if told = [] then [] else [lastSize? (before ++ told)]) ++ sizesTold (before ++ told) rest

theorem sizesTold_concat (before : List HostEvent) (rounds : List (List HostEvent)) (told : List HostEvent) :
    sizesTold before (rounds ++ [told]) =
      sizesTold before rounds ++ if told = [] then [] else [lastSize? (before ++ rounds.flatten ++ told)] := by
  induction rounds generalizing before with
  | nil => simp [sizesTold]
  | cons first rest ih => simp only [List.cons_append, sizesTold, ih, List.append_assoc, List.flatten_cons]

/-- What holds between two turns. -/
structure Steady (p : Program) (rounds : List (List HostEvent)) : Prop where
  drawable : Drawable p.scene.compass p.display
  listening : p.display.listening = true
  told : Display.Attentive.Told rounds.flatten p.display
  sceneTold : Display.Attentive.Told [.resized p.scene.width p.scene.height] p.display
  drawn : p.scene.changed = true → p.display.sizeUnreported = true
  frames : p.display.courier.frames.map (fun f => some f.size) = sizesTold [] rounds

theorem renderChanges_drawn (hd : Drawable p.scene.compass p.display) :
    ∃ q, p.renderChanges = .ok q ∧ q.scene = { p.scene with changed := false } ∧
      Drawn p.scene.compass p.display (if p.scene.changed then [q.display.screen.root.frame] else [])
        (.ok (), q.display) := by
  cases hchanged : p.scene.changed with
  | false =>
      refine ⟨p, ?_, ?_, rfl, hd, .refl _, hd.atWork.accepts_nil⟩
      · simp only [renderChanges, hchanged, Bool.false_eq_true, ↓reduceIte]
      · rw [← hchanged]
  | true =>
      have hdrawn := p.scene.drawn_render p.font hd
      have hrender : p.scene.render p.font p.display = (.ok (), (p.scene.render p.font p.display).2) :=
        Prod.ext hdrawn.answer rfl
      refine ⟨{ p with
          display := (p.scene.render p.font p.display).2, scene := { p.scene with changed := false } }, ?_, rfl, ?_⟩
      · simp only [renderChanges, hchanged, ↓reduceIte]
        rw [hrender]
      · exact ⟨rfl, hdrawn.drawable, hdrawn.unheard, hdrawn.accepts⟩

/-- A new program shows a new display, with the compass on it if there was a slot. -/
theorem eq_of_start {allocator : Allocator} {settings : DisplaySettings} (hstart : start allocator settings = .ok p) :
    ∃ d compass, Display.start allocator settings = .ok d ∧ (d.createOverlay .root ⟨-50, 10⟩ 40 40).1 = .ok compass ∧
      p.display = (d.createOverlay .root ⟨-50, 10⟩ 40 40).2 ∧
      p.scene = ⟨p.display.screen.root.width, p.display.screen.root.height, ⟨0, 0⟩, 0, compass, true⟩ := by
  unfold start at hstart
  cases hd : Display.start allocator settings with
  | error e =>
      rw [hd] at hstart
      cases hstart
  | ok d =>
      rw [hd] at hstart
      cases hfont : loadFont with
      | error e =>
          rw [hfont] at hstart
          cases hstart
      | ok font =>
          rw [hfont] at hstart
          change makeCompass d >>= _ = _ at hstart
          cases hcompass : d.createOverlay .root ⟨-50, 10⟩ 40 40 with
          | mk answer e =>
              simp only [makeCompass, hcompass] at hstart
              cases answer with
              | error error => cases hstart
              | ok compass =>
                  obtain rfl := Except.ok.inj hstart
                  exact ⟨d, compass, rfl, congrArg Prod.fst hcompass, (congrArg Prod.snd hcompass).symm, rfl⟩

namespace Steady

theorem start {allocator : Allocator} {settings : DisplaySettings} (hstart : Program.start allocator settings = .ok p) :
    p.Steady [] := by
  obtain ⟨d, compass, hd, hcompass, hdisplay, hscene⟩ := eq_of_start hstart
  obtain ⟨⟨hlistening, hsound⟩, hunreported⟩ := Display.attentive_of_start hd
  have hcourier : p.display.courier = d.courier := by
    rw [hdisplay]
    rfl
  have hunreported' : p.display.sizeUnreported = true := by
    rw [hdisplay]
    exact hunreported
  constructor
  case drawable =>
    refine ⟨?_, hcourier ▸ Display.atWork_of_start hd, fun h hlive => ?_⟩
    · rw [hdisplay]
      exact hsound.perform (.create d.allocator .root ⟨-50, 10⟩ 40 40)
    · rw [hscene] at hlive
      rw [hdisplay]
      have hnew : (d.screen.create d.allocator .root ⟨-50, 10⟩ 40 40).1 = .ok (some h) :=
        hcompass.trans (congrArg Except.ok hlive)
      exact d.screen.isSome_canvas?_of_create hnew
  case listening =>
    rw [hdisplay]
    exact hlistening
  case told =>
    intro hreported
    rw [hunreported'] at hreported
    cases hreported
  case sceneTold =>
    intro hreported
    rw [hunreported'] at hreported
    cases hreported
  case drawn => exact fun _ => hunreported'
  case frames =>
    obtain ⟨root, -, rfl⟩ := Display.eq_of_start hd
    rw [hcourier]
    rfl

theorem attentive (h : p.Steady rounds) : p.display.Attentive := ⟨h.listening, h.drawable.sound⟩

theorem drawable_pollInput (h : p.Steady rounds) (lines : List String) :
    Drawable p.scene.compass (p.display.pollInput lines).2 := by
  refine ⟨Display.sound_pollInput h.drawable.sound lines, ?_, fun compass hcompass => ?_⟩
  · rw [Display.courier_pollInput]
    exact h.drawable.atWork
  · have hslots : (p.display.pollInput lines).2.screen.slots = p.display.screen.slots := by
      rw [Display.pollInput_eq h.listening]
    rw [Screen.isSome_canvas?_congr hslots]
    exact h.drawable.live compass hcompass

/-- A turn that is told of nothing has nothing to draw. -/
theorem not_changed (h : p.Steady rounds) {lines : List String} (hnone : (p.display.pollInput lines).1 = []) :
    p.scene.changed = false := by
  rw [Display.pollInput_eq h.listening] at hnone
  have hdue := (List.append_eq_nil_iff.mp hnone).1
  cases hchanged : p.scene.changed with
  | false => rfl
  | true =>
      rw [Display.due, if_pos (h.drawn hchanged)] at hdue
      cases hdue

/-- The scene follows the root. -/
theorem size_follows (h : p.Steady rounds) {lines : List String} {s : Scene}
    (hs : p.scene.Follows (p.display.pollInput lines).1 s) :
    (s.width, s.height) = (p.display.pollInput lines).2.screen.root.size := by
  have htold := h.attentive.told_pollInput h.sceneTold lines
  rw [lastSize?_append] at htold
  rw [hs.size_eq]
  cases hsize : lastSize? (p.display.pollInput lines).1 with
  | none =>
      rw [hsize] at htold
      exact Option.some.inj htold
  | some size =>
      rw [hsize] at htold
      exact Option.some.inj htold

/-- A turn that is not told to end draws if it was told of anything, and leaves the program steady. -/
theorem turn (h : p.Steady rounds) {lines : List String}
    (hgoes : (p.display.pollInput lines).1.any HostEvent.isFinal = false) :
    ∃ q, p.turn lines = .ok (true, q) ∧ q.Steady (rounds ++ [(p.display.pollInput lines).1]) ∧
      q.display.sizeUnreported = false ∧
      q.display.courier.frames = p.display.courier.frames ++
        if (p.display.pollInput lines).1 = [] then [] else [q.display.screen.root.frame] := by
  obtain ⟨s, hupdate, hs⟩ := follows_updateAll hgoes p.scene
  have hpolled := h.drawable_pollInput lines
  have hunreported : (p.display.pollInput lines).2.sizeUnreported = false := by
    rw [Display.pollInput_eq h.listening]
  have hlistening : (p.display.pollInput lines).2.listening = true := by
    rw [Display.pollInput_eq h.listening]
    exact h.listening
  have hcourier := p.display.courier_pollInput lines
  have htold := h.attentive.told_pollInput h.told lines
  have hsize := h.size_follows hs
  have hchanged : s.changed = !(p.display.pollInput lines).1.isEmpty := by
    rw [hs.changed_eq]
    cases hnone : (p.display.pollInput lines).1 with
    | nil => rw [h.not_changed hnone, Bool.false_or]
    | cons event rest => exact Bool.or_true _
  -- These facts are all that is needed of the call for input.
  generalize hpoll : p.display.pollInput lines = r at *
  obtain ⟨told, e⟩ := r
  have hd : Drawable s.compass e := hs.compass_eq ▸ hpolled
  obtain ⟨q, hrender, hscene, hdrawn⟩ := renderChanges_drawn (p := { p with display := e, scene := s }) hd
  have hturn : p.turn lines = .ok (true, q) := by
    simp only [Program.turn, hpoll, hupdate, hrender]
    rfl
  have hroot : q.display.screen.root.size = e.screen.root.size :=
    Canvas.size_of_sameLayout hdrawn.unheard.root
  have hframes : q.display.courier.frames =
      p.display.courier.frames ++ if told = [] then [] else [q.display.screen.root.frame] := by
    rw [hdrawn.accepts.frames_eq, ← hcourier]
    simp only [hchanged]
    cases told <;> rfl
  refine ⟨q, hturn, ?_, hdrawn.unheard.sizeUnreported_eq.trans hunreported, hframes⟩
  constructor
  case drawable =>
    rw [hscene]
    exact hdrawn.drawable
  case listening => exact hdrawn.unheard.listening_eq.trans hlistening
  case told =>
    intro _
    rw [List.flatten_append, List.flatten_singleton, htold, hroot]
  case sceneTold =>
    intro _
    rw [hscene, hroot, ← hsize]
    rfl
  case drawn =>
    intro hchanged'
    rw [hscene] at hchanged'
    cases hchanged'
  case frames =>
    rw [hframes, List.map_append, h.frames, sizesTold_concat, List.nil_append, htold, ← hroot]
    split <;> rfl

theorem courier (h : p.Steady rounds) : Steady { p with display.courier := p.display.courier.step } rounds := by
  have hstep := h.drawable.atWork.accepts_step
  constructor
  case drawable => exact ⟨h.drawable.sound, hstep.atWork, h.drawable.live⟩
  case listening => exact h.listening
  case told => exact h.told
  case sceneTold => exact h.sceneTold
  case drawn => exact h.drawn
  case frames =>
    rw [← h.frames]
    exact congrArg _ (hstep.frames_eq.trans (List.append_nil _))

end Steady

/-! ## Runs -/

theorem Reached.settleWithin (hsink : sink.Returns) (h : Reached sink p₀ rounds p) (bound : Nat) :
    Reached sink p₀ rounds { p with display.courier := p.display.courier.settleWithin bound } := by
  induction bound generalizing p with
  | zero => exact h
  | succ bound ih =>
      simp only [Courier.settleWithin]
      split
      · exact ih (h.courier (hsink.lets _))
      · exact h

end Program

end Demo

end Framecast
