import Framecast.Proofs.Display.Hearing
import Framecast.Text.BoxFont

/-!
# What a host is told

Whatever a host does between its calls for input, they tell it the size of its root: the size that was reported last is
the size that the root has. And it is told the same however the control lines are cut into batches, as far as it goes on
listening: up to the first request to quit.
-/

namespace Framecast

variable {Font Code : Type}

namespace Turn

/-- The control lines that a turn brings. -/
def lines : Turn Font → List String
  | .call (.pollInput lines) => lines
  | _ => []

def polls : Turn Font → Bool
  | .call (.pollInput _) => true
  | _ => false

def tearsDown : Turn Font → Bool
  | .call .teardown => true
  | _ => false

/-- The turn brings a request to quit. -/
def hearsQuit (turn : Turn Font) : Bool := (ControlCommand.all turn.lines).any ControlCommand.isQuit

/-- All control lines that turns bring. -/
def script (turns : List (Turn Font)) : List String := turns.flatMap lines

theorem eq_of_polls {turn : Turn Font} (h : turn.polls = true) : ∃ lines, turn = .call (.pollInput lines) := by
  cases turn with
  | courier => cases h
  | call call =>
      cases call with
      | pollInput lines => exact ⟨lines, rfl⟩
      | _ => cases h

theorem lines_of_not_polls {turn : Turn Font} (h : turn.polls = false) : turn.lines = [] := by
  cases turn with
  | courier => rfl
  | call call =>
      cases call with
      | pollInput lines => cases h
      | _ => rfl

theorem all_script_cons (turn : Turn Font) (rest : List (Turn Font)) :
    ControlCommand.all (script (turn :: rest)) = ControlCommand.all turn.lines ++ ControlCommand.all (script rest) :=
  List.filterMap_append

theorem heard_script_cons (turn : Turn Font) (rest : List (Turn Font)) :
    ControlCommand.heard (script (turn :: rest)) =
      if turn.hearsQuit then ControlCommand.heard turn.lines
      else ControlCommand.heard turn.lines ++ ControlCommand.heard (script rest) :=
  ControlCommand.heard_append _ _

end Turn

/-- The events that an answer reports. -/
def Answer.reported : Answer Font → List HostEvent
  | .events told => told
  | _ => []

/-! ## The root between calls for input -/

namespace Screen.Sound

variable {s : Screen}

theorem sameLayout_composite (hs : s.Sound) : s.root.SameLayout s.composite.root :=
  have ⟨_, ht⟩ := hs
  Screen.sameLayout_composite hs.valid fun o ho => (ht.ofKind_overlays o ho).valid

theorem sameLayout_setMode (hs : s.Sound) (surface : Surface) (mode : DrawMode) :
    s.root.SameLayout (s.setMode surface mode).2.root := by
  cases surface with
  | overlay h => exact .refl _
  | root =>
      simp only [setMode]
      split
      · exact hs.sameLayout_composite
      · exact .refl _

end Screen.Sound

theorem Screen.root_modify (s : Screen) (h : Handle) (f : Overlay → Overlay) : (s.modify h f).2.root = s.root := by
  unfold modify
  split <;> rfl

theorem Screen.root_create (s : Screen) (allocator : Allocator) (parent : Surface) (position : Point)
    (width height : Nat) : (s.create allocator parent position width height).2.root = s.root := by
  unfold create
  split
  · rfl
  · split
    · rfl
    · split <;> rfl

theorem Screen.root_destroy (s : Screen) (h : Handle) : (s.destroy h).2.root = s.root := by
  unfold destroy
  split <;> rfl

theorem Screen.root_setEnabled (s : Screen) (surface : Surface) (enabled : Bool) :
    (s.setEnabled surface enabled).2.root = s.root := by
  cases surface with
  | root => rfl
  | overlay h => exact s.root_modify h _

theorem Screen.sameLayout_draw (s : Screen) (surface : Surface) {f : Canvas → Canvas}
    (hf : surface = .root → s.root.SameLayout (f s.root)) : s.root.SameLayout (s.draw surface f).2.root := by
  cases surface with
  | root => exact hf rfl
  | overlay h => exact s.root_modify h _ ▸ .refl _

namespace Display

variable {d e f : Display}

/-- What the host was told of its root still holds, and it still can be told more. -/
structure Unheard (d e : Display) : Prop where
  root : d.screen.root.SameLayout e.screen.root
  allocator_eq : e.allocator = d.allocator
  sizeUnreported_eq : e.sizeUnreported = d.sizeUnreported
  listening_eq : e.listening = d.listening

namespace Unheard

theorem refl (d : Display) : d.Unheard d := ⟨.refl _, rfl, rfl, rfl⟩

theorem trans (h : d.Unheard e) (h' : e.Unheard f) : d.Unheard f :=
  ⟨h.root.trans h'.root, h'.allocator_eq.trans h.allocator_eq, h'.sizeUnreported_eq.trans h.sizeUnreported_eq,
    h'.listening_eq.trans h.listening_eq⟩

theorem onScreen {α : Type} (g : Screen → Reply α Screen) (hg : (g d.screen).2.root = d.screen.root) :
    d.Unheard (d.onScreen g).2 :=
  ⟨by simp only [Display.onScreen, hg]; exact .refl _, rfl, rfl, rfl⟩

theorem setMode (hsound : d.screen.Sound) (surface : Surface) (mode : DrawMode) :
    d.Unheard (d.setMode surface mode).2 := by
  have hadvance (e : Display) : (e.advanceMode surface mode).2.allocator = e.allocator ∧
      (e.advanceMode surface mode).2.sizeUnreported = e.sizeUnreported ∧
      (e.advanceMode surface mode).2.listening = e.listening := by
    simp only [advanceMode, Display.onScreen]
    generalize e.screen.setMode surface mode = r
    obtain ⟨answer, s⟩ := r
    rcases answer with error | ready
    · exact ⟨rfl, rfl, rfl⟩
    · cases ready <;> exact ⟨rfl, rfl, rfl⟩
  have hroot : d.screen.root.SameLayout (d.setMode surface mode).2.screen.root := by
    rw [screen_setMode]
    exact hsound.sameLayout_setMode surface mode
  cases surface with
  | root =>
      obtain ⟨hallocator, hunreported, hlistening⟩ := hadvance d.awaitConsumed
      exact ⟨hroot, hallocator, hunreported, hlistening⟩
  | overlay h =>
      obtain ⟨hallocator, hunreported, hlistening⟩ := hadvance d
      exact ⟨hroot, hallocator, hunreported, hlistening⟩

theorem disableOverlay (hsound : d.screen.Sound) (surface : Surface) (disable : Bool) :
    d.Unheard (d.disableOverlay surface disable).2 := by
  have henable : d.Unheard (d.setOverlayEnabled surface (!disable)).2 :=
    onScreen _ (d.screen.root_setEnabled surface (!disable))
  have henabled : (d.setOverlayEnabled surface (!disable)).2.screen.Sound :=
    hsound.perform (.setEnabled surface (!disable))
  unfold Display.disableOverlay
  split
  · rename_i e d' heq
    rw [heq] at henable
    exact henable
  · rename_i d' heq
    rw [heq] at henable henabled
    exact henable.trans (setMode henabled .root .ended)

theorem draw (d : Display) (surface : Surface) {g : Canvas → Canvas} (hg : ∀ c, Canvas.SameLayout c (g c)) :
    d.Unheard (d.draw surface g).2 := by
  unfold Display.draw
  split
  · exact ⟨d.screen.sameLayout_draw surface fun _ => hg _, rfl, rfl, rfl⟩
  · exact refl d

theorem drawOn (t : Typesetter Font Code) (d : Display) (surface : Surface) (what : Drawing Font) :
    d.Unheard (d.drawOn t surface what).2 := by
  cases what with
  | rectangle pen corner width height => exact draw d surface fun c => pen.sameLayout_rectangle c _ _ _
  | disc pen center radius => exact draw d surface fun c => pen.sameLayout_disc c _ _
  | polygon pen points => exact draw d surface fun c => pen.sameLayout_polygon c _
  | lines pen points => exact draw d surface fun c => pen.sameLayout_polyline _ c _
  | image corner image => exact draw d surface fun c => c.sameLayout_pasteOver _ _
  | text pen background font text origin directionX directionY =>
      simp only [Display.drawOn, drawText]
      split
      · exact refl d
      · rename_i c hc
        split
        · have hlayout := t.sameLayout_paintRun (t.shape font text directionX directionY) pen.foreground
            (background.map Pen.foreground) origin c d.scratch
          generalize t.paintRun (t.shape font text directionX directionY) pen.foreground
            (background.map Pen.foreground) origin c d.scratch = painted at hlayout ⊢
          refine ⟨d.screen.sameLayout_draw surface (f := fun _ => painted.1) ?_, rfl, rfl, rfl⟩
          rintro rfl
          cases hc
          exact hlayout
        · exact refl d

end Unheard

variable (t : Typesetter Font Code)

/-- A turn that is neither a call for input nor a teardown reports nothing and leaves the root as it was reported. -/
theorem unheard_take (hsound : d.screen.Sound) {turn : Turn Font} (hpolls : turn.polls = false)
    (hteardown : turn.tearsDown = false) : (d.take t turn).1.reported = [] ∧ d.Unheard (d.take t turn).2 := by
  cases turn with
  | courier => exact ⟨rfl, .refl _, rfl, rfl, rfl⟩
  | call call =>
      cases call with
      | createOverlay parent position width height =>
          exact ⟨rfl, .onScreen (fun s => s.create d.allocator parent position width height)
            (d.screen.root_create _ _ _ _ _)⟩
      | destroyOverlay h => exact ⟨rfl, .onScreen (fun s => s.destroy h) (d.screen.root_destroy h)⟩
      | setOverlayEnabled surface enabled =>
          exact ⟨rfl, .onScreen (fun s => s.setEnabled surface enabled) (d.screen.root_setEnabled surface enabled)⟩
      | disableOverlay surface disable => exact ⟨rfl, .disableOverlay hsound surface disable⟩
      | drag surface position =>
          cases surface with
          | root => exact ⟨rfl, .refl d⟩
          | overlay h => exact ⟨rfl, .onScreen (fun s => s.setPosition h position) (d.screen.root_modify h _)⟩
      | setMode surface mode => exact ⟨rfl, .setMode hsound surface mode⟩
      | draw surface what => exact ⟨rfl, .drawOn t d surface what⟩
      | pollInput lines => cases hpolls
      | setFullscreen fullscreen => exact ⟨rfl, .refl _, rfl, rfl, rfl⟩
      | loadFont name size style => exact ⟨rfl, .refl d⟩
      | measureText font text directionX directionY => exact ⟨rfl, .refl d⟩
      | setImageDecoder images => exact ⟨rfl, .refl _, rfl, rfl, rfl⟩
      | loadImage path contents => exact ⟨rfl, .refl d⟩
      | query q =>
          refine ⟨?_, .refl d⟩
          cases q <;> rfl
      | teardown => cases hteardown

/-! ## Runs -/

def after (d : Display) (turns : List (Turn Font)) : Display := turns.foldl (fun d turn => (d.take t turn).2) d

/-- The events that the host is told of during turns. -/
def reports (d : Display) (turns : List (Turn Font)) : List HostEvent :=
  (d.trace t turns).flatMap fun r => r.1.reported

theorem reports_cons (d : Display) (turn : Turn Font) (turns : List (Turn Font)) :
    d.reports t (turn :: turns) = (d.take t turn).1.reported ++ (d.take t turn).2.reports t turns := rfl

/-- The host can be told of input, and the screen is in order. -/
structure Attentive (d : Display) : Prop where
  listening : d.listening = true
  sound : d.screen.Sound

theorem attentive_of_start {allocator : Allocator} {settings : DisplaySettings} (h : start allocator settings = .ok d) :
    d.Attentive ∧ d.sizeUnreported = true := by
  obtain ⟨root, hroot, rfl⟩ := eq_of_start h
  exact ⟨⟨rfl, .ofRoot hroot⟩, rfl⟩

namespace Attentive

variable {t} {turn : Turn Font} {turns : List (Turn Font)} {lines : List String}

theorem take_pollInput (h : d.Attentive) (t : Typesetter Font Code) (lines : List String) :
    d.take t (.call (.pollInput lines)) =
      (.events (d.due ++ (ControlCommand.heard lines).map (ControlCommand.event d.allocator d.screen.root.format)),
        { d with
          screen := { d.screen with root := (ControlCommand.heard lines).foldl (Canvas.obey d.allocator) d.screen.root }
          sizeUnreported := false }) := by
  simp only [Display.take, perform, pollInput_eq h.listening]
  rfl

theorem take (h : d.Attentive) (hteardown : turn.tearsDown = false) : (d.take t turn).2.Attentive := by
  cases hpolls : turn.polls with
  | true =>
      obtain ⟨lines, rfl⟩ := Turn.eq_of_polls hpolls
      refine ⟨?_, sound_pollInput h.sound lines⟩
      rw [h.take_pollInput]
      exact h.listening
  | false =>
      obtain ⟨-, hunheard⟩ := unheard_take t h.sound hpolls hteardown
      refine ⟨hunheard.listening_eq.trans h.listening, ?_⟩
      cases turn with
      | courier => exact h.sound
      | call call => exact sound_perform t h.sound call

theorem after (h : d.Attentive) (hturns : ∀ turn ∈ turns, turn.tearsDown = false) : (d.after t turns).Attentive :=
  List.foldlRecOn (motive := Attentive) turns _ h fun _ he turn hmem => he.take (hturns turn hmem)

theorem sizeUnreported_after (h : d.Attentive) (hturns : ∀ turn ∈ turns, turn.tearsDown = false) :
    (d.after t turns).sizeUnreported = (d.sizeUnreported && !turns.any Turn.polls) := by
  induction turns generalizing d with
  | nil => simp [Display.after]
  | cons turn rest ih =>
      obtain ⟨hturn, hrest⟩ := List.forall_mem_cons.mp hturns
      refine (ih (h.take hturn) hrest).trans ?_
      rw [List.any_cons]
      cases hpolls : turn.polls with
      | true =>
          obtain ⟨lines, rfl⟩ := Turn.eq_of_polls hpolls
          rw [h.take_pollInput]
          simp
      | false =>
          rw [(unheard_take t h.sound hpolls hturn).2.sizeUnreported_eq, Bool.false_or]

/-! ## The size that was reported last -/

/-- Once a size was reported, the one that was reported last is the size of the root. -/
def Told (events : List HostEvent) (d : Display) : Prop :=
  d.sizeUnreported = false → lastSize? events = some d.screen.root.size

theorem isQuit_of_mem_due {event : HostEvent} (h : event ∈ d.due) : event.isQuit = false := by
  unfold due at h
  split at h
  · rw [List.mem_singleton.mp h]
    rfl
  · cases h

theorem told_pollInput (h : d.Attentive) {events : List HostEvent} (htold : Told events d) (lines : List String) :
    lastSize? (events ++ (d.pollInput lines).1) = some (d.pollInput lines).2.screen.root.size := by
  have hdue : lastSize? (events ++ d.due) = some d.screen.root.size := by
    unfold due
    cases hunreported : d.sizeUnreported with
    | true => exact lastSize?_append _ _
    | false =>
        rw [if_neg Bool.false_ne_true, List.append_nil]
        exact htold hunreported
  rw [pollInput_eq h.listening, ← List.append_assoc, lastSize?_append, hdue, Canvas.size_foldl_obey]
  generalize lastSize? _ = size
  cases size <;> rfl

theorem told_reports (h : d.Attentive) (hturns : ∀ turn ∈ turns, turn.tearsDown = false) {events : List HostEvent}
    (htold : Told events d) : Told (events ++ d.reports t turns) (d.after t turns) := by
  induction turns generalizing d events with
  | nil =>
      change Told (events ++ []) d
      rwa [List.append_nil]
  | cons turn rest ih =>
      obtain ⟨hturn, hrest⟩ := List.forall_mem_cons.mp hturns
      rw [reports_cons, ← List.append_assoc]
      refine ih (h.take hturn) hrest ?_
      cases hpolls : turn.polls with
      | true =>
          obtain ⟨lines, rfl⟩ := Turn.eq_of_polls hpolls
          exact fun _ => h.told_pollInput htold lines
      | false =>
          obtain ⟨hreported, hunheard⟩ := unheard_take t h.sound hpolls hturn
          intro hunreported
          rw [hunheard.sizeUnreported_eq] at hunreported
          rw [hreported, List.append_nil, htold hunreported, Canvas.size_of_sameLayout hunheard.root]

/-! ## Cutting the script -/

theorem reported_take (h : d.Attentive) (hteardown : turn.tearsDown = false) :
    (d.take t turn).1.reported = (if turn.polls then d.due else []) ++
      (ControlCommand.heard turn.lines).map (ControlCommand.event d.allocator d.screen.root.format) := by
  cases hpolls : turn.polls with
  | true =>
      obtain ⟨lines, rfl⟩ := Turn.eq_of_polls hpolls
      rw [h.take_pollInput]
      rfl
  | false =>
      rw [(unheard_take t h.sound hpolls hteardown).1, Turn.lines_of_not_polls hpolls]
      rfl

theorem due_take (h : d.Attentive) (hteardown : turn.tearsDown = false) :
    (d.take t turn).2.due = if turn.polls then [] else d.due := by
  cases hpolls : turn.polls with
  | true =>
      obtain ⟨lines, rfl⟩ := Turn.eq_of_polls hpolls
      rw [h.take_pollInput]
      rfl
  | false =>
      obtain ⟨-, hunheard⟩ := unheard_take t h.sound hpolls hteardown
      simp only [due, hunheard.sizeUnreported_eq, hunheard.root.width_eq, hunheard.root.height_eq, Bool.false_eq_true,
        ↓reduceIte]

theorem root_take (h : d.Attentive) (hteardown : turn.tearsDown = false) :
    (d.take t turn).2.allocator = d.allocator ∧ (d.take t turn).2.screen.root.format = d.screen.root.format ∧
      (d.take t turn).2.screen.root.size =
        (lastSize? ((ControlCommand.heard turn.lines).map (ControlCommand.event d.allocator d.screen.root.format))).getD
          d.screen.root.size := by
  cases hpolls : turn.polls with
  | true =>
      obtain ⟨lines, rfl⟩ := Turn.eq_of_polls hpolls
      rw [h.take_pollInput]
      exact ⟨rfl, Canvas.format_foldl_obey _ _ _, Canvas.size_foldl_obey _ _ _⟩
  | false =>
      obtain ⟨-, hunheard⟩ := unheard_take t h.sound hpolls hteardown
      rw [Turn.lines_of_not_polls hpolls, Canvas.size_of_sameLayout hunheard.root]
      exact ⟨hunheard.allocator_eq, hunheard.root.format_eq, rfl⟩

/-- Up to the first request to quit, the reports are those of the whole script. -/
theorem throughFirst_reports (h : d.Attentive) (hturns : ∀ turn ∈ turns, turn.tearsDown = false) :
    throughFirst HostEvent.isQuit (d.reports t turns) = throughFirst HostEvent.isQuit
      ((if turns.any Turn.polls then d.due else []) ++
        (ControlCommand.all (Turn.script turns)).map (ControlCommand.event d.allocator d.screen.root.format)) := by
  induction turns generalizing d with
  | nil => rfl
  | cons turn rest ih =>
      obtain ⟨hturn, hrest⟩ := List.forall_mem_cons.mp hturns
      have hnext := ih (h.take (t := t) hturn) hrest
      have hheard : (ControlCommand.heard turn.lines).map (ControlCommand.event d.allocator d.screen.root.format) =
          throughFirst HostEvent.isQuit
            ((ControlCommand.all turn.lines).map (ControlCommand.event d.allocator d.screen.root.format)) := by
        simp only [throughFirst_map, ControlCommand.isQuit_event, ControlCommand.heard]
      have hdue : ∀ event ∈ d.due, event.isQuit = false := fun _ => isQuit_of_mem_due
      obtain ⟨hallocator, hformat, -⟩ := h.root_take (t := t) hturn
      rw [h.due_take hturn, hallocator, hformat] at hnext
      rw [reports_cons, h.reported_take hturn, hheard, List.append_assoc, List.any_cons, Turn.all_script_cons,
        List.map_append]
      cases hpolls : turn.polls with
      | true =>
          simp only [hpolls, ↓reduceIte, ite_self, List.nil_append] at hnext
          simp only [Bool.true_or, ↓reduceIte, throughFirst_append_of_none hdue, throughFirst_append_congr hnext]
      | false =>
          simp only [hpolls, Bool.false_eq_true, ↓reduceIte] at hnext
          have hlines := Turn.lines_of_not_polls hpolls
          simp only [hlines, Bool.false_eq_true, ↓reduceIte, Bool.false_or, List.nil_append]
          exact hnext

/-- After the turn that brings the first request to quit, the root has the size that the script asks for. -/
theorem size_after_throughFirst (h : d.Attentive) (hturns : ∀ turn ∈ turns, turn.tearsDown = false) :
    (d.after t (throughFirst Turn.hearsQuit turns)).screen.root.size =
      (lastSize? ((ControlCommand.heard (Turn.script turns)).map
        (ControlCommand.event d.allocator d.screen.root.format))).getD d.screen.root.size := by
  induction turns generalizing d with
  | nil => rfl
  | cons turn rest ih =>
      obtain ⟨hturn, hrest⟩ := List.forall_mem_cons.mp hturns
      have hnext := ih (h.take (t := t) hturn) hrest
      obtain ⟨hallocator, hformat, hsize⟩ := h.root_take (t := t) hturn
      rw [hallocator, hformat, hsize] at hnext
      rw [throughFirst, Turn.heard_script_cons]
      cases turn.hearsQuit with
      | true => exact hsize
      | false =>
          simp only [Bool.false_eq_true, ↓reduceIte, List.map_append, lastSize?_append]
          refine hnext.trans ?_
          generalize lastSize? ((ControlCommand.heard (Turn.script rest)).map _) = size
          cases size <;> rfl

end Attentive

variable {turns : List (Turn Font)}

/-- However the host goes about it: what a call for input tells it, what the root is then, and that up to the first
request to quit it does not matter how the control lines are cut. -/
theorem input_faithful {allocator : Allocator} {settings : DisplaySettings} (hstart : start allocator settings = .ok d)
    (hturns : ∀ turn ∈ turns, turn.tearsDown = false) :
    (∀ lines : List String,
      let e := d.after t turns
      let heard := ControlCommand.heard lines
      let told := (e.pollInput lines).1
      let e' := (e.pollInput lines).2
      told = (if turns.any Turn.polls then [] else [.resized e.screen.root.width e.screen.root.height]) ++
          heard.map (ControlCommand.event e.allocator e.screen.root.format) ∧
        e' = { e with
          screen := { e.screen with root := heard.foldl (Canvas.obey e.allocator) e.screen.root }
          sizeUnreported := false } ∧
        lastSize? (d.reports t turns ++ told) = some e'.screen.root.size) ∧
      ∀ turns' : List (Turn Font), (∀ turn ∈ turns', turn.tearsDown = false) →
        Turn.script turns' = Turn.script turns → turns'.any Turn.polls = turns.any Turn.polls →
        throughFirst HostEvent.isQuit (d.reports t turns') = throughFirst HostEvent.isQuit (d.reports t turns) ∧
          (d.after t (throughFirst Turn.hearsQuit turns')).screen.root.size =
            (d.after t (throughFirst Turn.hearsQuit turns)).screen.root.size := by
  obtain ⟨hd, hunreported⟩ := attentive_of_start hstart
  have he := hd.after (t := t) hturns
  refine ⟨fun lines => ⟨?_, ?_, ?_⟩, fun turns' hturns' hscript hpolls => ⟨?_, ?_⟩⟩
  · have hdue : (d.after t turns).due = if turns.any Turn.polls then [] else
        [.resized (d.after t turns).screen.root.width (d.after t turns).screen.root.height] := by
      rw [due, hd.sizeUnreported_after hturns, hunreported]
      cases turns.any Turn.polls <;> rfl
    rw [pollInput_eq he.listening, hdue]
  · rw [pollInput_eq he.listening]
  · -- Before anything was reported there is nothing to be told.
    have htold : Attentive.Told [] d := fun h => absurd (hunreported.symm.trans h) (by decide)
    exact he.told_pollInput (hd.told_reports hturns htold) lines
  · rw [hd.throughFirst_reports hturns', hd.throughFirst_reports hturns, hscript, hpolls]
  · rw [hd.size_after_throughFirst hturns', hd.size_after_throughFirst hturns, hscript]

/-- A script in one batch and in two, with a frame begun in between. -/
theorem input_faithful_in_two_batches :
    ∃ (allocator : Allocator) (settings : DisplaySettings) (d : Display) (turns turns' : List (Turn BoxFont)),
      start allocator settings = .ok d ∧ turns.length = 1 ∧ turns'.length = 3 ∧ Turn.script turns' = Turn.script turns ∧
      (d.pollInput ["resize=2x1"]).1 = [.resized 1 1, .resized 2 1] ∧
      throughFirst HostEvent.isQuit (d.reports BoxFont.typesetter turns') =
        throughFirst HostEvent.isQuit (d.reports BoxFont.typesetter turns) := by
  let d : Display := ⟨.ofRoot (.blank 1 1 .rgba8888 false), .upTo 8, .empty, Png.decoder, .start, true, true, .default⟩
  let turns : List (Turn BoxFont) := [.call (.pollInput ["resize=2x1", "up", "quit", "down"])]
  let turns' : List (Turn BoxFont) :=
    [.call (.pollInput ["resize=2x1"]), .call (.setMode .root .begun), .call (.pollInput ["up", "quit", "down"])]
  have hstart : start (.upTo 8) ⟨1, 1, 32, false⟩ = .ok d := rfl
  have hnone : ∀ turn ∈ ([] : List (Turn BoxFont)), turn.tearsDown = false := by decide
  have hturns : ∀ turn ∈ turns, turn.tearsDown = false := by simp [turns, Turn.tearsDown]
  have hturns' : ∀ turn ∈ turns', turn.tearsDown = false := by simp [turns', Turn.tearsDown]
  have hfirst := ((input_faithful BoxFont.typesetter hstart hnone).1 ["resize=2x1"]).1
  have hboth := (input_faithful BoxFont.typesetter hstart hturns).2 turns' hturns' rfl rfl
  refine ⟨_, _, d, turns, turns', hstart, rfl, rfl, rfl, hfirst.trans ?_, hboth.1⟩
  decide +kernel

end Display

end Framecast
