import Framecast.Proofs.Display.Handoff

/-!
# Calls made in one go

`Display.perform` makes a call together with the steps of the courier that the caller waits for. `Session.steps_perform`
shows that this is one of the orders of a session: the moments of the call, with those steps of the courier between
them, lead to the same display and the same answer.
-/

namespace Framecast

namespace Session

variable {Font Code : Type} {t : Typesetter Font Code} {s s' s'' : Session Font}

theorem Steps.single (h : Step t s s') : Steps t s s' := .step (.refl s) h

theorem Steps.trans (h : Steps t s s') (h' : Steps t s' s'') : Steps t s s'' := by
  induction h' with
  | refl => exact h
  | step _ hlast ih => exact .step ih hlast

/-- The courier makes the steps that a caller waits for. -/
theorem steps_settleWithin (s : Session Font) (bound : Nat) :
    Steps t s { s with display.courier := s.display.courier.settleWithin bound } := by
  induction bound generalizing s with
  | zero => exact .refl s
  | succ bound ih =>
      cases hblocked : s.display.courier.mailbox.blocked with
      | false =>
          rw [Courier.settleWithin_of_free hblocked]
          exact .refl s
      | true =>
          simp only [Courier.settleWithin, hblocked, ↓reduceIte]
          exact .trans (.single (.carry s)) (ih _)

theorem steps_joinWithin (s : Session Font) (bound : Nat) :
    Steps t s { s with display.courier := s.display.courier.joinWithin bound } := by
  induction bound generalizing s with
  | zero => exact .refl s
  | succ bound ih =>
      cases hrunning : s.display.courier.running with
      | false =>
          simp only [Courier.joinWithin, hrunning, Bool.false_eq_true, ↓reduceIte]
          exact .refl s
      | true =>
          simp only [Courier.joinWithin, hrunning, ↓reduceIte]
          exact .trans (.single (.carry s)) (ih _)

/-- A caller who waits finds the mailbox free. -/
theorem Good.blocked_settle (hg : s.Good) (hcalm : s.phase.calm = true) :
    s.display.courier.settle.mailbox.blocked = false := by
  obtain ⟨handed, hc, -, -⟩ := hg.delivers
  cases hclosed : s.display.courier.mailbox.closed with
  | false =>
      obtain ⟨hstop, hrunning⟩ := hg.loop (by intro hphase; rw [hphase] at hcalm; cases hcalm) hclosed
      exact Courier.blocked_settle hc hstop hrunning
  | true =>
      have hfree : s.display.courier.mailbox.blocked = false := by simp [Mailbox.blocked, hclosed]
      rw [Courier.settle, Courier.settleWithin_of_free hfree, hfree]

/-- Setting a mode on the root, from the moment at which the caller starts to wait. -/
theorem steps_setMode (hg : s.Good) {call : Call Font} {mode : DrawMode} (hphase : s.phase = .awaiting call mode) :
    (s.display.setMode .root mode).1 = .ok () ∧
      Steps t s ⟨(s.display.setMode .root mode).2, .resting, s.returned ++ [(call, .done (.ok ()))],
        s.roots ++ if call.endsFrame then [(s.display.setMode .root mode).2.screen.root] else []⟩ := by
  have hfits := hg.fits
  rw [hphase] at hfits
  have hends : call.endsFrame = decide (mode = .ended) := hfits
  have hfree := hg.blocked_settle (by rw [hphase]; rfl)
  have hsettled : s.display.courier.settle.settle = s.display.courier.settle := Courier.settleWithin_of_free hfree 5
  have hwait : Steps t s { s with display.courier := s.display.courier.settle, phase := .advancing call mode } :=
    .step (steps_settleWithin s 5) (.consumed hphase hfree)
  by_cases hmode : mode = .ended
  · subst hmode
    have hdisplay : (s.display.setMode .root .ended).2 = { s.display with
        screen := (s.display.screen.setMode .root .ended).2
        courier := { s.display.courier.settle with
          mailbox :=
            (s.display.courier.settle.mailbox.publish (s.display.screen.setMode .root .ended).2.root).2 } } := by
      rw [Display.setMode_root_eq, if_pos rfl, Courier.publish, hsettled]
    refine ⟨rfl, ?_⟩
    rw [hdisplay, hends, if_pos (decide_eq_true rfl)]
    exact .step (.step hwait (.compose rfl)) (.publish rfl hfree)
  · have hdisplay : s.display.setMode .root mode = (.ok (), { s.display with
        screen := (s.display.screen.setMode .root mode).2, courier := s.display.courier.settle }) := by
      rw [Display.setMode_root_eq, if_neg hmode]
    rw [hdisplay, hends, if_neg (by simpa using hmode), List.append_nil]
    exact ⟨rfl, .step hwait (.advance rfl hmode)⟩

/-- The same for a whole call that ends in setting a mode on the root. -/
theorem steps_of_awaiting (hg : s.Good) {call : Call Font} {mode : DrawMode} (h : Step t s s')
    (hphase : s'.phase = .awaiting call mode) (hreturned : s'.returned = s.returned) (hroots : s'.roots = s.roots)
    (hperform : s.display.perform t call = (s'.display.setMode .root mode).map .done id) :
    Steps t s ⟨(s.display.perform t call).2, .resting, s.returned ++ [(call, (s.display.perform t call).1)],
      s.roots ++ if call.endsFrame && (s.display.perform t call).1.isOk then [(s.display.perform t call).2.screen.root]
        else []⟩ := by
  obtain ⟨hok, hsteps⟩ := steps_setMode (t := t) (hg.step h) hphase
  have hanswer : (s.display.perform t call).1 = .done (.ok ()) := by
    rw [hperform]
    exact congrArg Answer.done hok
  have hdisplay : (s.display.perform t call).2 = (s'.display.setMode .root mode).2 := by
    rw [hperform]
    rfl
  rw [hanswer, hdisplay, ← hreturned, ← hroots, Answer.isOk, Bool.and_true]
  exact .trans (.single h) hsteps

/-- A call made in one go is a session of its moments. -/
theorem steps_perform (hg : s.Good) (hphase : s.phase = .resting) (call : Call Font) :
    Steps t s ⟨(s.display.perform t call).2, .resting, s.returned ++ [(call, (s.display.perform t call).1)],
      s.roots ++ if call.endsFrame && (s.display.perform t call).1.isOk then [(s.display.perform t call).2.screen.root]
        else []⟩ := by
  cases hcall : call.waits with
  | false =>
      rw [Call.endsFrame_of_not_waits hcall, Bool.false_and, if_neg Bool.false_ne_true, List.append_nil]
      exact .single (.call hphase hcall)
  | true =>
      cases call with
      | setMode surface mode =>
          cases surface with
          | overlay h => cases hcall
          | root => exact steps_of_awaiting hg (.setMode hphase mode) rfl rfl rfl rfl
      | disableOverlay surface disable =>
          cases hr : s.display.setOverlayEnabled surface (!disable) with
          | mk answer d =>
              cases answer with
              | error e =>
                  have hperform : s.display.perform t (.disableOverlay surface disable) = (.done (.error e), d) := by
                    simp only [Display.perform, Display.disableOverlay, hr]
                    rfl
                  simp only [hperform, Answer.isOk, Bool.and_false, Bool.false_eq_true, ↓reduceIte, List.append_nil]
                  exact .single (.refuse hphase hr)
              | ok =>
                  refine steps_of_awaiting hg (.disable hphase hr) rfl rfl rfl ?_
                  simp only [Display.perform, Display.disableOverlay, hr]
      | teardown =>
          cases hlistening : s.display.listening with
          | false =>
              have hperform : s.display.perform t .teardown = (.nothing, s.display) := by
                simp only [Display.perform, Display.teardown, hlistening, Bool.false_eq_true, ↓reduceIte]
              simp only [hperform, Call.endsFrame, Bool.false_and, Bool.false_eq_true, ↓reduceIte, List.append_nil]
              exact .single (.teardownAgain hphase hlistening)
          | true =>
              have hperform : s.display.perform t .teardown = (.nothing, { s.display with
                  screen := s.display.screen.destroyAll.2
                  courier := s.display.courier.shutdown
                  listening := false }) := by
                simp only [Display.perform, Display.teardown, hlistening, ↓reduceIte]
              simp only [hperform, Call.endsFrame, Bool.false_and, Bool.false_eq_true, ↓reduceIte, List.append_nil]
              have hclose : Steps t s { s with
                  display.screen := s.display.screen.destroyAll.2
                  display.courier := s.display.courier.raiseStop.closeMailbox
                  phase := .joining } :=
                .step (.step (.single (.teardown hphase hlistening)) (.stop rfl)) (.close rfl)
              exact .step (.trans hclose (steps_joinWithin _ 3)) (.join rfl s.display.courier.running_shutdown)
      | _ => cases hcall

end Session

end Framecast
