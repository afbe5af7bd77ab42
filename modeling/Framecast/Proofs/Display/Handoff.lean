import Framecast.Proofs.Display.Session
import Framecast.Text.BoxFont

/-!
# Handing frames to the courier

Whatever is called and however the courier's steps fall between: every root frame that is ended is handed over as it
stood after compositing, in order and once, there is never more than one frame on its way, and nothing is composited
while there is one. `Session.Good` is the invariant behind it.
-/

namespace Framecast

variable {Font Code : Type}

namespace Phase

/-- What the caller is about to do goes with the call that it is in. -/
def Fits : Phase Font → Prop
  | .awaiting call mode => call.endsFrame = decide (mode = .ended)
  | .advancing call mode => call.endsFrame = decide (mode = .ended)
  | .publishing call => call.endsFrame = true
  | _ => True

/-- The caller waited for the last frame and did not hand over another one yet. -/
def settled : Phase Font → Bool
  | .advancing _ _ => true
  | .publishing _ => true
  | _ => false

/-- The root that is about to be handed over. -/
def pending (root : Canvas) : Phase Font → List Canvas
  | .publishing _ => [root]
  | _ => []

theorem pending_of_ne {phase : Phase Font} (h : ∀ call, phase ≠ .publishing call) (root : Canvas) :
    phase.pending root = [] := by
  cases phase with
  | publishing call => exact absurd rfl (h call)
  | _ => rfl

/-- The caller is neither about to hand over a root nor in the last part of a teardown. -/
def calm : Phase Font → Bool
  | .publishing _ => false
  | .closing => false
  | .joining => false
  | _ => true

theorem pending_of_calm {phase : Phase Font} (h : phase.calm = true) (root : Canvas) : phase.pending root = [] :=
  pending_of_ne (by rintro call rfl; cases h) root

end Phase

namespace Session

variable {t : Typesetter Font Code} {s s' : Session Font}

/-- The roots that were handed over are on their way as frames. Before the mailbox is closed these are all roots except
one that is about to be handed over. -/
def Delivers (s : Session Font) : Prop :=
  ∃ handed, s.display.courier.Carries (handed.map Canvas.frame) ∧ handed <+: s.roots ∧
    (s.display.courier.mailbox.closed = false → s.roots = handed ++ s.phase.pending s.display.screen.root)

/-- What holds at every moment of a session. -/
structure Good (s : Session Font) : Prop where
  sound : s.display.screen.Sound
  valid : ∀ root ∈ s.roots, root.Valid
  fits : s.phase.Fits
  delivers : s.Delivers
  ends : s.ends + (s.phase.pending s.display.screen.root).length = s.roots.length
  idle : s.phase.settled = true → s.display.courier.unfinished = []
  closed : s.display.courier.mailbox.closed = true →
    s.phase = .joining ∨ s.display.courier.running = false ∧ s.tornDown = true
  loop : s.phase ≠ .closing → s.display.courier.mailbox.closed = false →
    s.display.courier.stop = false ∧ s.display.courier.running = true

theorem ends_finish (s : Session Font) (call : Call Font) (answer : Answer Font) (d : Display) :
    (s.finish call answer d).ends = s.ends + if call.endsFrame && answer.isOk then 1 else 0 := by
  simp only [ends, finish, List.countP_append, List.countP_singleton]

theorem tornDown_finish (s : Session Font) (call : Call Font) (answer : Answer Font) (d : Display) :
    (s.finish call answer d).tornDown = (s.tornDown || call.isTeardown) := by
  simp [tornDown, finish]

namespace Good

theorem start {allocator : Allocator} {settings : DisplaySettings} {d : Display}
    (h : Display.start allocator settings = .ok d) :
    (Session.start d : Session Font).Good := by
  obtain ⟨root, hroot, rfl⟩ := Display.eq_of_start h
  constructor
  case sound => exact .ofRoot hroot
  case valid => exact nofun
  case fits => trivial
  case delivers => exact ⟨[], .start, List.prefix_refl _, fun _ => rfl⟩
  case ends => rfl
  case idle => exact nofun
  case closed => exact nofun
  case loop => exact fun _ _ => ⟨rfl, rfl⟩

theorem carry (hg : s.Good) : Good { s with display.courier := s.display.courier.step } where
  sound := hg.sound
  valid := hg.valid
  fits := hg.fits
  delivers := by
    obtain ⟨handed, hc, hprefix, hopen⟩ := hg.delivers
    refine ⟨handed, hc.step, hprefix, fun h => hopen ?_⟩
    rwa [Courier.closed_step] at h
  ends := hg.ends
  idle := fun h => Courier.unfinished_step (hg.idle h)
  closed := by
    intro h
    rw [Courier.closed_step] at h
    rcases hg.closed h with hjoin | ⟨hgone, htorn⟩
    · exact .inl hjoin
    · refine .inr ⟨?_, htorn⟩
      rw [Courier.step_of_not_running hgone]
      exact hgone
  loop := by
    intro hphase hopen
    rw [Courier.closed_step] at hopen
    obtain ⟨hstop, hrunning⟩ := hg.loop hphase hopen
    exact ⟨Courier.stop_step s.display.courier ▸ hstop, Courier.running_step hstop hopen hrunning⟩

/-- A step of the caller that leaves the courier alone and hands over nothing. -/
theorem quiet (hg : s.Good) (hroots : s'.roots = s.roots) (hcourier : s'.display.courier = s.display.courier)
    (hsound : s'.display.screen.Sound) (hfits : s'.phase.Fits) (hends : s'.ends = s.ends)
    (htorn : s.tornDown = true → s'.tornDown = true) (hcalm : s.phase.calm = true) (hcalm' : s'.phase.calm = true)
    (hidle : s'.phase.settled = true → s.display.courier.unfinished = []) : s'.Good := by
  have hpending := Phase.pending_of_calm hcalm s.display.screen.root
  have hpending' := Phase.pending_of_calm hcalm' s'.display.screen.root
  constructor
  case sound => exact hsound
  case valid => exact hroots ▸ hg.valid
  case fits => exact hfits
  case delivers =>
    obtain ⟨handed, hc, hprefix, hopen⟩ := hg.delivers
    refine ⟨handed, hcourier ▸ hc, hroots ▸ hprefix, fun h => ?_⟩
    rw [hroots, hpending', hopen (hcourier ▸ h), hpending]
  case ends => rw [hends, hroots, hpending', ← hg.ends, hpending]
  case idle => exact fun h => hcourier ▸ hidle h
  case closed =>
    intro h
    rw [hcourier] at h ⊢
    rcases hg.closed h with hjoin | ⟨hgone, hdone⟩
    · rw [hjoin] at hcalm
      cases hcalm
    · exact .inr ⟨hgone, htorn hdone⟩
  case loop =>
    intro _ hopen
    rw [hcourier] at hopen ⊢
    refine hg.loop (fun hclosing => ?_) hopen
    rw [hclosing] at hcalm
    cases hcalm

/-- A call returns that ends no frame. -/
theorem returns {call : Call Font} {answer : Answer Font} {d : Display} (hg : s.Good) (hcalm : s.phase.calm = true)
    (hcourier : d.courier = s.display.courier) (hsound : d.screen.Sound)
    (hanswer : (call.endsFrame && answer.isOk) = false) : (s.finish call answer d).Good := by
  refine hg.quiet rfl hcourier hsound trivial ?_ ?_ hcalm rfl nofun
  · rw [ends_finish, hanswer]
    rfl
  · intro htorn
    rw [tornDown_finish, htorn, Bool.true_or]

/-- A call goes on. -/
theorem proceed {d : Display} {phase : Phase Font} (hg : s.Good) (hcalm : s.phase.calm = true)
    (hcourier : d.courier = s.display.courier) (hsound : d.screen.Sound) (hfits : phase.Fits)
    (hcalm' : phase.calm = true) (hidle : phase.settled = true → s.display.courier.unfinished = []) :
    Good { s with display := d, phase } :=
  hg.quiet rfl hcourier hsound hfits rfl id hcalm hcalm' hidle

/-- The root is composited while no frame is on its way. -/
theorem compose {call : Call Font} (hg : s.Good) (hphase : s.phase = .advancing call .ended) :
    Good { s with
      display.screen := (s.display.screen.setMode .root .ended).2
      phase := .publishing call
      roots := s.roots ++ [(s.display.screen.setMode .root .ended).2.root] } where
  sound := hg.sound.perform (.setMode .root .ended)
  valid := by
    intro root hroot
    rcases List.mem_append.mp hroot with hold | hnew
    · exact hg.valid root hold
    · rw [List.mem_singleton.mp hnew]
      exact (hg.sound.perform (.setMode .root .ended)).valid
  fits := by
    have hfits := hg.fits
    rw [hphase] at hfits
    exact hfits
  delivers := by
    obtain ⟨handed, hc, hprefix, hopen⟩ := hg.delivers
    refine ⟨handed, hc, hprefix.trans (List.prefix_append _ _), fun h => ?_⟩
    have hroots := hopen h
    rw [hphase] at hroots
    exact congrArg (· ++ [_]) (hroots.trans (List.append_nil _))
  ends := by
    have hends := hg.ends
    rw [hphase] at hends
    rw [List.length_append, ← hends]
    rfl
  idle := fun _ => hg.idle (by rw [hphase]; rfl)
  closed := by
    intro h
    rcases hg.closed h with hjoin | hgone
    · rw [hphase] at hjoin
      cases hjoin
    · exact .inr hgone
  loop := fun _ => hg.loop (by rw [hphase]; exact nofun)

/-- The root goes into the mailbox, or is dropped if the mailbox is closed. -/
theorem publish {call : Call Font} (hg : s.Good) (hphase : s.phase = .publishing call) :
    Good (s.finish call (.done (.ok ())) { s.display with
      courier.mailbox := (s.display.courier.mailbox.publish s.display.screen.root).2 }) := by
  have hnone := hg.idle (by rw [hphase]; rfl)
  have hfits := hg.fits
  have hends := hg.ends
  rw [hphase] at hfits hends
  obtain ⟨handed, hc, hprefix, hopen⟩ := hg.delivers
  have hends' : s.ends + 1 = s.roots.length := hends
  have hcount : (s.finish call (.done (.ok ())) { s.display with
      courier.mailbox := (s.display.courier.mailbox.publish s.display.screen.root).2 }).ends = s.ends + 1 := by
    rw [ends_finish, show call.endsFrame = true from hfits]
    rfl
  cases hclosed : s.display.courier.mailbox.closed with
  | true =>
      have hsame := Courier.Carries.publish_of_closed hclosed s.display.screen.root
      have hstill : (s.display.courier.mailbox.publish s.display.screen.root).2.closed = true := by
        rw [hsame, hclosed]
      have hgone := (hg.closed hclosed).resolve_left (by simp [hphase])
      constructor
      case sound => exact hg.sound
      case valid => exact hg.valid
      case fits => trivial
      case delivers =>
        refine ⟨handed, ?_, hprefix, fun hopened => ?_⟩
        · simp only [hsame]
          exact hc
        · rw [finish, hstill] at hopened
          cases hopened
      case ends => exact hcount.trans hends'
      case idle =>
        intro hsettled
        cases hsettled
      case closed =>
        intro _
        refine .inr ⟨hgone.1, ?_⟩
        rw [tornDown_finish, hgone.2, Bool.true_or]
      case loop =>
        intro _ hopened
        rw [finish, hstill] at hopened
        cases hopened
  | false =>
      have hroots : s.roots = handed ++ [s.display.screen.root] := by simpa [hphase, Phase.pending] using hopen hclosed
      have hpublished := hc.publish hclosed hnone s.display.screen.root
      have hopened : (s.display.courier.mailbox.publish s.display.screen.root).2.closed = false := by
        simp [Mailbox.publish, hclosed]
      constructor
      case sound => exact hg.sound
      case valid => exact hg.valid
      case fits => trivial
      case delivers =>
        refine ⟨s.roots, ?_, List.prefix_refl _, fun _ => (List.append_nil _).symm⟩
        rw [hroots, List.map_append]
        exact hpublished
      case ends => exact hcount.trans hends'
      case idle =>
        intro hsettled
        cases hsettled
      case closed =>
        intro hclosed'
        rw [finish, hopened] at hclosed'
        cases hclosed'
      case loop => exact fun _ _ => hg.loop (by simp [hphase]) hclosed

theorem stop (hg : s.Good) (hphase : s.phase = .stopping) :
    Good { s with display.courier := s.display.courier.raiseStop, phase := .closing } where
  sound := hg.sound
  valid := hg.valid
  fits := trivial
  delivers := by
    obtain ⟨handed, hc, hprefix, hopen⟩ := hg.delivers
    rw [hphase] at hopen
    exact ⟨handed, hc.raiseStop, hprefix, hopen⟩
  ends := by
    have hends := hg.ends
    rw [hphase] at hends
    exact hends
  idle := nofun
  closed := fun h => .inr ((hg.closed h).resolve_left (by rw [hphase]; exact nofun))
  loop := fun hnot => absurd rfl hnot

theorem close (hg : s.Good) (hphase : s.phase = .closing) :
    Good { s with display.courier := s.display.courier.closeMailbox, phase := .joining } where
  sound := hg.sound
  valid := hg.valid
  fits := trivial
  delivers := by
    obtain ⟨handed, hc, hprefix, -⟩ := hg.delivers
    exact ⟨handed, hc.closeMailbox, hprefix, fun h => nomatch h⟩
  ends := by
    have hends := hg.ends
    rw [hphase] at hends
    exact hends
  idle := nofun
  closed := fun _ => .inl rfl
  loop := fun _ hopen => nomatch hopen

theorem join (hg : s.Good) (hphase : s.phase = .joining) (hgone : s.display.courier.running = false) :
    Good (s.finish .teardown .nothing { s.display with listening := false }) where
  sound := hg.sound
  valid := hg.valid
  fits := trivial
  delivers := by
    obtain ⟨handed, hc, hprefix, hopen⟩ := hg.delivers
    rw [hphase] at hopen
    exact ⟨handed, hc, hprefix, hopen⟩
  ends := by
    have hends := hg.ends
    rw [hphase] at hends
    rw [ends_finish]
    exact hends
  idle := nofun
  closed := by
    intro _
    refine .inr ⟨hgone, ?_⟩
    rw [tornDown_finish, Call.isTeardown, Bool.or_true]
  loop := fun _ => hg.loop (by rw [hphase]; exact nofun)

/-- A caller who found the mailbox free may composite. -/
theorem unfinished_of_free (hg : s.Good) (hcalm : s.phase.calm = true)
    (hfree : s.display.courier.mailbox.blocked = false) : s.display.courier.unfinished = [] := by
  obtain ⟨handed, hc, -, -⟩ := hg.delivers
  cases hclosed : s.display.courier.mailbox.closed with
  | false => exact hc.unfinished_of_free hclosed hfree
  | true =>
      rcases hg.closed hclosed with hjoin | ⟨hgone, -⟩
      · rw [hjoin] at hcalm
        cases hcalm
      · exact hc.unfinished_of_closed hclosed hgone

theorem setOverlayEnabled_eq {d d' : Display} {surface : Surface} {enabled : Bool} {answer : Except SurfaceError Unit}
    (h : d.setOverlayEnabled surface enabled = (answer, d')) :
    d'.courier = d.courier ∧ (d.screen.Sound → d'.screen.Sound) := by
  obtain rfl : (d.setOverlayEnabled surface enabled).2 = d' := congrArg Prod.snd h
  exact ⟨rfl, fun hsound => hsound.perform (.setEnabled surface enabled)⟩

/-- What holds at a moment holds at the next. -/
theorem step (hg : s.Good) (h : Step t s s') : s'.Good := by
  have hfits := hg.fits
  cases h with
  | carry => exact hg.carry
  | call hphase hcall =>
      rename_i call
      refine hg.returns (by rw [hphase]; rfl) (Display.courier_perform t hcall) (Display.sound_perform t hg.sound _) ?_
      rw [Call.endsFrame_of_not_waits hcall, Bool.false_and]
  | setMode hphase mode =>
      refine hg.proceed (by rw [hphase]; rfl) rfl hg.sound ?_ rfl nofun
      cases mode <;> rfl
  | refuse hphase hrefused =>
      obtain ⟨hcourier, hsound⟩ := setOverlayEnabled_eq hrefused
      exact hg.returns (by rw [hphase]; rfl) hcourier (hsound hg.sound) (Bool.and_false _)
  | disable hphase haccepted =>
      obtain ⟨hcourier, hsound⟩ := setOverlayEnabled_eq haccepted
      exact hg.proceed (by rw [hphase]; rfl) hcourier (hsound hg.sound) rfl rfl nofun
  | consumed hphase hfree =>
      have hcalm : s.phase.calm = true := by
        rw [hphase]
        rfl
      rw [hphase] at hfits
      exact hg.proceed hcalm rfl hg.sound hfits rfl fun _ => hg.unfinished_of_free hcalm hfree
  | advance hphase hmode =>
      rename_i call mode
      rw [hphase] at hfits
      refine hg.returns (by rw [hphase]; rfl) rfl (hg.sound.perform (.setMode .root mode)) ?_
      rw [show call.endsFrame = decide (mode = .ended) from hfits, decide_eq_false hmode, Bool.false_and]
  | compose hphase => exact hg.compose hphase
  | publish hphase hfree => exact hg.publish hphase
  | teardown hphase hlistening =>
      exact hg.proceed (by rw [hphase]; rfl) rfl (hg.sound.perform .destroyAll) trivial rfl nofun
  | teardownAgain hphase hlistening => exact hg.returns (by rw [hphase]; rfl) rfl hg.sound rfl
  | stop hphase => exact hg.stop hphase
  | close hphase => exact hg.close hphase
  | join hphase hgone => exact hg.join hphase hgone

theorem steps (hg : s.Good) (h : Steps t s s') : s'.Good := by
  induction h with
  | refl => exact hg
  | step _ h ih => exact ih.step h

end Good

/-- What was delivered and composited stays so. -/
theorem Step.grows (h : Step t s s') :
    s.display.courier.delivered <+: s'.display.courier.delivered ∧ s.roots <+: s'.roots := by
  cases h with
  | carry => exact ⟨Courier.delivered_step _, List.prefix_refl _⟩
  | call _ hcall =>
      have hcourier := Display.courier_perform t hcall (d := s.display)
      exact ⟨hcourier ▸ List.prefix_refl _, List.prefix_refl _⟩
  | refuse _ hrefused =>
      obtain ⟨hcourier, -⟩ := Good.setOverlayEnabled_eq hrefused
      exact ⟨hcourier ▸ List.prefix_refl _, List.prefix_refl _⟩
  | disable _ haccepted =>
      obtain ⟨hcourier, -⟩ := Good.setOverlayEnabled_eq haccepted
      exact ⟨hcourier ▸ List.prefix_refl _, List.prefix_refl _⟩
  | compose => exact ⟨List.prefix_refl _, List.prefix_append _ _⟩
  | _ => exact ⟨List.prefix_refl _, List.prefix_refl _⟩

theorem Steps.grows (h : Steps t s s') :
    s.display.courier.delivered <+: s'.display.courier.delivered ∧ s.roots <+: s'.roots := by
  induction h with
  | refl => exact ⟨List.prefix_refl _, List.prefix_refl _⟩
  | step _ h ih => exact ⟨ih.1.trans h.grows.1, ih.2.trans h.grows.2⟩

/-! ## What the sink gets -/

/-- What can be said of the frames at any moment of a session. -/
structure Faithful (s : Session Font) : Prop where
  /-- Until a teardown closes the mailbox, every root frame that was ended was handed over and none is lost. -/
  published : s.phase ≠ .joining → s.tornDown = false → s.display.framesPublished = s.ends
  kept : s.phase ≠ .joining → s.tornDown = false →
    s.display.courier.delivered.length + s.display.courier.unsent.length = s.ends
  composited : (∀ call, s.phase ≠ .publishing call) → s.roots.length = s.ends
  /-- A frame that was delivered shows the root of its number as it stood after compositing. -/
  shown : ∀ (k : Nat) (f : Frame), s.display.courier.delivered[k]? = some f →
    ∃ root, s.roots[k]? = some root ∧ f.Shows root
  single : s.display.courier.unfinished.length ≤ 1
  /-- Nothing is composited while a frame is on its way. -/
  settled : ∀ call mode, s.phase = .advancing call mode → s.display.courier.unfinished = []

theorem Good.faithful (hg : s.Good) : s.Faithful := by
  obtain ⟨handed, hc, hhanded, hopen⟩ := hg.delivers
  have hends := hg.ends
  have hclosed : s.phase ≠ .joining → s.tornDown = false → s.display.courier.mailbox.closed = false := by
    intro hphase htorn
    cases h : s.display.courier.mailbox.closed with
    | false => rfl
    | true =>
        obtain ⟨-, hdone⟩ := (hg.closed h).resolve_left hphase
        rw [htorn] at hdone
        cases hdone
  have hcount : s.phase ≠ .joining → s.tornDown = false → handed.length = s.ends := by
    intro hphase htorn
    rw [hopen (hclosed hphase htorn), List.length_append] at hends
    omega
  constructor
  case published =>
    intro hphase htorn
    rw [← hcount hphase htorn, Display.framesPublished, hc.published, List.length_map]
  case kept =>
    intro hphase htorn
    rw [← hcount hphase htorn, ← List.length_append, hc.complete (hclosed hphase htorn), List.length_map]
  case composited =>
    intro hphase
    rw [← hends, Phase.pending_of_ne hphase]
    rfl
  case shown =>
    intro k f hk
    obtain ⟨root, hroot, -, hshows⟩ := Canvas.shown_of_isPrefix ((List.prefix_append _ _).trans hc.sent) hk
    have hmem := getElem?_of_isPrefix hhanded hroot
    exact ⟨root, hmem, hshows (hg.valid root (List.mem_of_getElem? hmem))⟩
  case single => exact hc.single
  case settled =>
    intro call mode hphase
    exact hg.idle (by rw [hphase]; rfl)

/-- However the calls and the steps of the courier follow each other, the sink gets the ended frames, each as it stood
after compositing, in order and once, and what it got stays. -/
theorem faithful_of_steps {allocator : Allocator} {settings : DisplaySettings} {d : Display}
    (hstart : Display.start allocator settings = .ok d) (h : Steps t (start d) s) (h' : Steps t s s') :
    s.Faithful ∧ s.display.courier.delivered <+: s'.display.courier.delivered ∧ s.roots <+: s'.roots :=
  ⟨((Good.start hstart).steps h).faithful, h'.grows⟩

/-- A root frame of one pixel on its way to the sink. -/
theorem faithful_of_one_frame :
    ∃ (allocator : Allocator) (settings : DisplaySettings) (d : Display) (s : Session BoxFont),
      Display.start allocator settings = .ok d ∧
      Steps BoxFont.typesetter (start d) s ∧ s.ends = 1 ∧ s.display.courier.delivered.length = 1 ∧ s.Faithful := by
  let d : Display := ⟨.ofRoot (.blank 1 1 .rgba8888 false), .upTo 4, .empty, Png.decoder, .start, true, true, .default⟩
  have hstart : Display.start (.upTo 4) ⟨1, 1, 32, false⟩ = .ok d := rfl
  have hbegin : Steps BoxFont.typesetter (start d) _ :=
    .step (.step (.step (.refl _) (.setMode rfl .begun)) (.consumed rfl rfl)) (.advance rfl nofun)
  have hend := Steps.step (.step (.step (.step hbegin (.setMode rfl .ended)) (.consumed rfl rfl)) (.compose rfl))
    (.publish rfl rfl)
  have hsent := Steps.step (.step (.step hend (.carry _)) (.carry _)) (.carry _)
  exact ⟨_, _, d, _, hstart, hsent, rfl, rfl, (faithful_of_steps hstart hsent (.refl _)).1⟩

end Session

end Framecast
