/-
Ch583Kbd.Tmk.ClearKeyboard — what `clear_keyboard` forgets.

It clears the modifiers, the weak modifiers, the keys, the mouse and the
usages, but not the one-shot modifiers. Those are in the report it sends
itself, and stay on until a report with a key uses them up. So the host is
left with nothing, and later reports show nothing but what was added since,
exactly when no one-shot modifier was set (`clearKeyboard_neutral_iff`).
-/
import Ch583Kbd.Tmk.ReportMarks

namespace Ch583Kbd.Tmk

open Ch583Kbd.Lib

open HostReport

/-! ## What is remembered is what was sent -/

namespace ActionState

/-- What the firmware remembers of the last reports is what it sent. -/
structure Synced (s : ActionState) : Prop where
  mouse : lastReport mouse? {} s.sent = s.mouse.report
  system : lastReport system? 0 s.sent = s.lastSystemReport
  consumer : lastReport consumer? 0 s.sent = s.lastConsumerReport

variable {s : ActionState}

/-- A keyboard report leaves what is remembered of the others. -/
theorem Synced.keyboard {s' : ActionState} {raw : Vector (BitVec 8) keyboardReportSize}
    (h : Synced s) (hsent : s'.sent = s.sent ++ [.keyboard raw])
    (hmouse : s'.mouse = s.mouse) (hsystem : s'.lastSystemReport = s.lastSystemReport)
    (hconsumer : s'.lastConsumerReport = s.lastConsumerReport) : Synced s' where
  mouse := by rw [hsent, lastReport_other rfl, hmouse, h.mouse]
  system := by rw [hsent, lastReport_other rfl, hsystem, h.system]
  consumer := by rw [hsent, lastReport_other rfl, hconsumer, h.consumer]

/-- Sending the keyboard report leaves what is remembered of the others. -/
theorem Synced.sendKeyboardReport (h : Synced s) : Synced s.sendKeyboardReport :=
  h.keyboard s.sendKeyboardReport_sent s.sendKeyboardReport_mouse
    s.sendKeyboardReport_lastSystemReport s.sendKeyboardReport_lastConsumerReport

/-- What the mouse remembers is what it has just sent. -/
theorem Synced.mousekeySend (h : Synced s) (m : MouseKey) :
    Synced { s with mouse := m }.mousekeySend where
  mouse := lastReport_same rfl
  system := (lastReport_other rfl).trans h.system
  consumer := (lastReport_other rfl).trans h.consumer

/-- What is remembered of the system usage is what was sent, also when it is not
sent again. -/
theorem Synced.hostSystemSend (h : Synced s) (u : BitVec 16) : Synced (s.hostSystemSend u) := by
  unfold ActionState.hostSystemSend
  split
  · exact h
  · exact ⟨(lastReport_other rfl).trans h.mouse, lastReport_same rfl,
      (lastReport_other rfl).trans h.consumer⟩

/-- What is remembered of the consumer usage is what was sent, also when it is
not sent again. -/
theorem Synced.hostConsumerSend (h : Synced s) (u : BitVec 16) : Synced (s.hostConsumerSend u) := by
  unfold ActionState.hostConsumerSend
  split
  · exact h
  · exact ⟨(lastReport_other rfl).trans h.mouse, (lastReport_other rfl).trans h.system,
      lastReport_same rfl⟩

theorem Synced.update (h : Synced s) (step : ActionStep) : Synced (step.update s) := by
  cases step with
  | system u => exact h.hostSystemSend u
  | consumer u => exact h.hostConsumerSend u
  | mousekeyOn c | mousekeyOff c => exact h.mousekeySend _
  | mousekeyClear | mousekeyAdvance => exact h.mousekeySend _
  | _ => exact ⟨h.mouse, h.system, h.consumer⟩

/-- **Every step keeps what is remembered what was sent.** -/
theorem Synced.apply (h : Synced s) (step : ActionStep) : Synced (step.apply s) := by
  unfold ActionStep.apply
  split
  · exact (h.update step).sendKeyboardReport
  · exact h.update step

/-- Any steps keep what is remembered what was sent. -/
theorem Synced.runSteps (h : Synced s) (steps : List ActionStep) : Synced (runSteps steps s) :=
  foldl_invariant (R := fun _ => True) (fun _ step h _ => h.apply step) h fun _ _ => trivial

/-- At power-up nothing is remembered and nothing was sent. -/
theorem synced_start (protocol : BitVec 8) (nkro : Bool) : Synced (startState protocol nkro) :=
  ⟨rfl, rfl, rfl⟩

/-! ## `clear_keyboard` -/

/-- The state that `clear_keyboard` leaves, and the reports it sends. -/
theorem clearKeyboard_record (s : ActionState) : s.clearKeyboard =
    { s with
      realMods := 0
      weakMods := 0
      keyReport := s.keyReport.clearKeys.setMods s.oneshotMods
      lastSystemReport := 0
      lastConsumerReport := 0
      mouse := { s.mouse.clear with lastTimer := s.timer }
      sent := s.sent ++ .keyboard (s.keyReport.clearKeys.setMods s.oneshotMods).raw :: .mouse {} ::
        ((if 0 = s.lastSystemReport then [] else [.system 0]) ++
          if 0 = s.lastConsumerReport then [] else [.consumer 0]) } := by
  simp [clearKeyboard, clearKeyboardButMods, hostSystemSend_eq, hostConsumerSend_eq,
    sendKeyboardReport_eq, mousekeySend, hostMouseSend, send, reportMods, clearMods,
    clearWeakMods, clearKeys, MouseKey.clear]

/-- `clear_keyboard` sends one keyboard report, with the one-shot modifiers in
it. -/
theorem clearKeyboard_keyboard (s : ActionState) :
    (s.clearKeyboard.sent.drop s.sent.length).filterMap keyboard? =
      [(s.keyReport.clearKeys.setMods s.oneshotMods).raw] := by
  rw [clearKeyboard_record, List.drop_left]
  split <;> split <;> rfl

/-- Nothing is left behind but the one-shot modifiers. -/
theorem shows_clearKeyboard {s : ActionState} {x : Mark} (h : s.clearKeyboard.Shows x) :
    ∃ i, x = .mod i ∧ s.oneshotMods.getLsbD i = true := by
  rw [clearKeyboard_record] at h
  cases x with
  | mod i => exact ⟨i, rfl, by simpa [Shows, reportMods] using h⟩
  | code c =>
    rw [Shows, KeyReport.showsCode_setMods] at h
    exact absurd h (KeyReport.not_showsCode_clearKeys _ _ _)
  | mousekey c => exact absurd h (MouseKey.not_shows_init c)
  | _ => exact h.elim

end ActionState

/-- Nothing that was on before `clear_keyboard` reaches the host by it or
after it. -/
structure Neutral (K : Keymap) (s : ActionState) : Prop where
  keyboard : (s.clearKeyboard.sent.drop s.sent.length).filterMap keyboard? =
    [Vector.replicate keyboardReportSize 0]
  mouse : lastReport mouse? {} s.clearKeyboard.sent = {}
  system : lastReport system? 0 s.clearKeyboard.sent = 0
  consumer : lastReport consumer? 0 s.clearKeyboard.sent = 0
  later : ∀ calls, ∀ r ∈ (runCalls K calls s.clearKeyboard).sent.drop s.clearKeyboard.sent.length,
    ∀ x, r.Shows s.nkroActive x → ∃ step ∈ stepsOf K calls s.clearKeyboard, step.Adds x

/-- **`clear_keyboard` is neutral if and only if no one-shot modifier is
set.** -/
theorem clearKeyboard_neutral_iff (K : Keymap) (calls : List ActionCall) (protocol : BitVec 8)
    (nkro : Bool) :
    Neutral K (runCalls K calls (startState protocol nkro)) ↔
      (runCalls K calls (startState protocol nkro)).oneshotMods = 0 := by
  have hsynced : ActionState.Synced
      (runCalls K calls (startState protocol nkro)).clearKeyboard := by
    rw [ActionState.clearKeyboard_eq_steps, runCalls_eq]
    exact ((ActionState.synced_start protocol nkro).runSteps _).runSteps _
  generalize runCalls K calls (startState protocol nkro) = s at hsynced ⊢
  have hkeyboard := s.clearKeyboard_keyboard
  have hrecord := s.clearKeyboard_record
  constructor
  · intro h
    have hraw := List.head_eq_of_cons_eq (hkeyboard.symm.trans h.keyboard)
    have hbyte := KeyReport.byte_setMods_zero s.keyReport.clearKeys s.oneshotMods
    rw [KeyReport.byte, hraw] at hbyte
    simpa using hbyte.symm
  · intro h
    refine ⟨?_, hsynced.mouse.trans ?_, hsynced.system.trans ?_, hsynced.consumer.trans ?_, ?_⟩
    · rw [hkeyboard, h, KeyReport.raw_clearKeys_setMods_zero]
    · rw [hrecord]
      rfl
    · rw [hrecord]
    · rw [hrecord]
    · intro calls r hr x hx
      have hn : s.clearKeyboard.nkroActive = s.nkroActive := by
        rw [hrecord]
        rfl
      rw [runCalls_eq] at hr
      rw [← hn] at hx
      refine (runSteps_provenance _ _ hr hx).resolve_left fun hshows => ?_
      obtain ⟨i, -, hi⟩ := ActionState.shows_clearKeyboard hshows
      rw [h] at hi
      simp at hi

/-- A one-shot shift is tapped, then the keyboard is cleared: the report it
sends has the shift. -/
theorem clearKeyboard_keeps_oneshot :
    let K : Keymap := fun _ _ => ⟨0x2200⟩
    let press : KeyRecord := { event := ⟨⟨0, 0⟩, true, 1⟩, tap := { count := 1 } }
    let release : KeyRecord := { event := ⟨⟨0, 0⟩, false, 2⟩, tap := { count := 1 } }
    ¬Neutral K (runCalls K [.process press, .process release] (startState 1 false)) := by
  intro K press release h
  exact absurd h.keyboard (by decide +kernel)

end Ch583Kbd.Tmk
