/-
Ch583Kbd.Tmk.ReportMarks — who contributed what a report shows.

A `Mark` is anything a report can show: a modifier, a key code, a mouse
key or a usage. A step lets the reports show nothing but the marks the
state had before and the marks the step adds (`there_apply`); so what a
later report shows was on at the start of the run or was added by one of
its steps (`runSteps_provenance`).
-/
import Ch583Kbd.Tmk.ActionSteps
import Ch583Kbd.Tmk.AnyRing

namespace Ch583Kbd.Tmk

open Ch583Kbd.Lib

/-! ## What reports show -/

inductive Mark where
  | mod (i : Nat)
  | code (code : BitVec 8)
  | mousekey (code : BitVec 8)
  | system (usage : BitVec 16)
  | consumer (usage : BitVec 16)
  deriving DecidableEq

/-- The report shows the mouse key. -/
def MouseReport.Shows (r : MouseReport) (code : BitVec 8) : Prop :=
  match code.toNat with
  | 0xF0 => r.y < 0
  | 0xF1 => 0 < r.y
  | 0xF2 => r.x < 0
  | 0xF3 => 0 < r.x
  | 0xF4 => r.buttons.getLsbD 0
  | 0xF5 => r.buttons.getLsbD 1
  | 0xF6 => r.buttons.getLsbD 2
  | 0xF7 => r.buttons.getLsbD 3
  | 0xF8 => r.buttons.getLsbD 4
  | 0xF9 => 0 < r.v
  | 0xFA => r.v < 0
  | 0xFB => r.h < 0
  | 0xFC => 0 < r.h
  | _ => False

namespace HostReport

/-- The report shows the mark to the host. -/
def Shows (nkro : Bool) : HostReport → Mark → Prop
  | keyboard raw, .mod i => ({ raw := raw } : KeyReport).byte 0 |>.getLsbD i
  | keyboard raw, .code code => ({ raw := raw } : KeyReport).ShowsCode nkro code
  | mouse report, .mousekey code => report.Shows code
  | system usage, .system usage' => usage = usage'
  | consumer usage, .consumer usage' => usage = usage'
  | _, _ => False

end HostReport

/-- What the next reports can show. -/
def ActionState.Shows (s : ActionState) : Mark → Prop
  | .mod i => s.reportMods.getLsbD i
  | .code code => s.keyReport.ShowsCode s.nkroActive code
  | .mousekey code => s.mouse.report.Shows code
  | _ => False

/-- What the step contributes. -/
def ActionStep.Adds : ActionStep → Mark → Prop
  | addMods mods, .mod i | addWeakMods mods, .mod i | setOneshotMods mods, .mod i =>
    mods.getLsbD i
  | registerKey code, .code code' | relockKey code, .code code' => code' = code
  | mousekeyOn code, .mousekey code' => code' = code
  | system usage, .system usage' => usage' = usage
  | consumer usage, .consumer usage' => usage' = usage
  | _, _ => False

/-! ## Mouse keys -/

namespace MouseKey

theorem unit_pos (m : MouseKey) (delta : Nat) (maxSpeed timeToMax : BitVec 8) :
    0 < m.unit delta maxSpeed timeToMax := by
  unfold unit mousekeyMax
  dsimp only
  generalize (if m.accel.getLsbD 0 then delta * maxSpeed.toNat / 4
    else if m.accel.getLsbD 1 then delta * maxSpeed.toNat / 2
    else if m.accel.getLsbD 2 then delta * maxSpeed.toNat
    else if m.rep = 0 then delta
    else if timeToMax ≤ m.rep then delta * maxSpeed.toNat
    else delta * maxSpeed.toNat * m.rep.toNat / timeToMax.toNat) = n
  split
  · decide
  · split <;> omega

/-- A move is never by nothing. -/
theorem moveUnit_pos (m : MouseKey) : 0 < m.moveUnit := by
  have h := m.unit_pos mousekeyMoveDelta m.params.maxSpeed m.params.timeToMax
  unfold moveUnit
  omega

/-- The wheel is never turned by nothing. -/
theorem wheelUnit_pos (m : MouseKey) : 0 < m.wheelUnit := by
  have h := m.unit_pos mousekeyWheelDelta m.params.wheelMaxSpeed m.params.wheelTimeToMax
  unfold wheelUnit
  omega

section On

variable (m : MouseKey) (code : BitVec 8)

/-- A press of a vertical key sets the movement along the y axis. -/
theorem on_y : (m.on code).report.y =
    if code.toNat = 0xF0 then m.moveUnit * -1
    else if code.toNat = 0xF1 then m.moveUnit else m.report.y := by
  unfold on
  split <;> simp_all

theorem on_x : (m.on code).report.x =
    if code.toNat = 0xF2 then m.moveUnit * -1
    else if code.toNat = 0xF3 then m.moveUnit else m.report.x := by
  unfold on
  split <;> simp_all

theorem on_v : (m.on code).report.v =
    if code.toNat = 0xF9 then m.wheelUnit
    else if code.toNat = 0xFA then m.wheelUnit * -1 else m.report.v := by
  unfold on
  split <;> simp_all

theorem on_h : (m.on code).report.h =
    if code.toNat = 0xFB then m.wheelUnit * -1
    else if code.toNat = 0xFC then m.wheelUnit else m.report.h := by
  unfold on
  split <;> simp_all

/-- A press sets the bit of its own button only. -/
theorem on_buttons {i : Nat} (hi : i < 5) (h : (m.on code).report.buttons.getLsbD i = true) :
    code.toNat = 0xF4 + i ∨ m.report.buttons.getLsbD i = true := by
  unfold on at h
  split at h
  case h_9 | h_10 | h_11 | h_12 | h_13 =>
    obtain _ | _ | _ | _ | _ | i := i <;> first | omega | simp_all
  all_goals exact .inr h

end On

theorem eq_of_toNat {code c : BitVec 8} {n : Nat} (hcode : code.toNat = n) (hc : c.toNat = n) :
    c = code := BitVec.eq_of_toNat_eq (hc.trans hcode.symm)

/-- A mouse key that is pressed shows itself and nothing else. -/
theorem shows_on {m : MouseKey} {code c : BitVec 8} (h : (m.on code).report.Shows c) :
    c = code ∨ m.report.Shows c := by
  have hmove := m.moveUnit_pos
  have hwheel := m.wheelUnit_pos
  by_cases hne : c = code
  · exact .inl hne
  right
  unfold MouseReport.Shows at h ⊢
  split at h
  case h_14 => exact h
  case h_5 | h_6 | h_7 | h_8 | h_9 =>
    next hc =>
      refine (m.on_buttons code (by decide) h).resolve_left fun hcode => ?_
      exact hne (eq_of_toNat hcode hc)
  all_goals
    next hc =>
      have hcode : code.toNat ≠ c.toNat := fun heq => hne (eq_of_toNat heq rfl)
      simp only [on_x, on_y, on_v, on_h] at h
      repeat' split at h
      all_goals omega

/-- `r'` moves and clicks in no other way than `r`. -/
structure Fades (r' r : MouseReport) : Prop where
  x : (0 < r'.x → 0 < r.x) ∧ (r'.x < 0 → r.x < 0)
  y : (0 < r'.y → 0 < r.y) ∧ (r'.y < 0 → r.y < 0)
  v : (0 < r'.v → 0 < r.v) ∧ (r'.v < 0 → r.v < 0)
  h : (0 < r'.h → 0 < r.h) ∧ (r'.h < 0 → r.h < 0)
  buttons : ∀ i, r'.buttons.getLsbD i = true → r.buttons.getLsbD i = true

/-- A report that fades shows no mouse key that was not shown. -/
theorem Fades.shows {r' r : MouseReport} (h : Fades r' r) {c : BitVec 8} (hc : r'.Shows c) :
    r.Shows c := by
  unfold MouseReport.Shows at hc ⊢
  split at hc
  case h_1 => exact h.y.2 hc
  case h_2 => exact h.y.1 hc
  case h_3 => exact h.x.2 hc
  case h_4 => exact h.x.1 hc
  case h_5 | h_6 | h_7 | h_8 | h_9 => exact h.buttons _ hc
  case h_10 => exact h.v.1 hc
  case h_11 => exact h.v.2 hc
  case h_12 => exact h.h.2 hc
  case h_13 => exact h.h.1 hc
  case h_14 => exact hc

theorem Fades.refl (r : MouseReport) : Fades r r :=
  ⟨⟨id, id⟩, ⟨id, id⟩, ⟨id, id⟩, ⟨id, id⟩, fun _ => id⟩

/-- A release shows no new mouse key. -/
theorem fades_release (m : MouseKey) (code : BitVec 8) :
    Fades (m.release code).report m.report := by
  have hand : ∀ (b : BitVec 8) (i : Nat), (m.report.buttons &&& b).getLsbD i = true →
      m.report.buttons.getLsbD i = true := by
    intro b i hi
    rw [BitVec.getLsbD_and, Bool.and_eq_true] at hi
    exact hi.1
  unfold release
  split
  case h_17 => exact .refl _
  case h_9 | h_10 | h_11 | h_12 | h_13 =>
    exact ⟨⟨id, id⟩, ⟨id, id⟩, ⟨id, id⟩, ⟨id, id⟩, hand _⟩
  case h_14 | h_15 | h_16 => exact .refl _
  all_goals
    split
    · constructor <;> first | exact ⟨id, id⟩ | exact fun _ => id | (dsimp only; omega)
    · exact .refl _

/-- A key that goes up shows no new mouse key. -/
theorem fades_off (m : MouseKey) (code : BitVec 8) : Fades (m.off code).report m.report := by
  unfold off
  dsimp only
  split <;> exact m.fades_release code

/-- The new unit of an axis keeps its direction. -/
theorem resign_sign (axis : Int) {unit : Int} (hu : 0 < unit) :
    (0 < resign axis unit → 0 < axis) ∧ (resign axis unit < 0 → axis < 0) := by
  unfold resign
  split
  · omega
  · split <;> omega

/-- The scaled value of a diagonal move keeps its direction. -/
theorem tdiv_sign (n : Int) : (0 < (n * 7).tdiv 10 → 0 < n) ∧ ((n * 7).tdiv 10 < 0 → n < 0) := by
  constructor
  · intro h
    by_contra hn
    have hneg := Int.tdiv_nonneg (a := -(n * 7)) (b := 10) (by omega) (by decide)
    rw [Int.neg_tdiv] at hneg
    omega
  · intro h
    by_contra hn
    have hpos := Int.tdiv_nonneg (a := n * 7) (b := 10) (by omega) (by decide)
    omega

/-- The task shows no new mouse key. -/
theorem fades_advance (m : MouseKey) : Fades m.advance.report m.report := by
  have hstep : ∀ m : MouseKey, ∀ r : MouseReport, Fades
      { r with
        x := if resign r.x m.moveUnit ≠ 0 ∧ resign r.y m.moveUnit ≠ 0 then
          (resign r.x m.moveUnit * 7).tdiv 10 else resign r.x m.moveUnit
        y := if resign r.x m.moveUnit ≠ 0 ∧ resign r.y m.moveUnit ≠ 0 then
          (resign r.y m.moveUnit * 7).tdiv 10 else resign r.y m.moveUnit
        v := resign r.v m.wheelUnit
        h := resign r.h m.wheelUnit } r := by
    intro m r
    have hx := resign_sign r.x m.moveUnit_pos
    have hy := resign_sign r.y m.moveUnit_pos
    have hdx := tdiv_sign (resign r.x m.moveUnit)
    have hdy := tdiv_sign (resign r.y m.moveUnit)
    refine ⟨?_, ?_, resign_sign _ m.wheelUnit_pos, resign_sign _ m.wheelUnit_pos, fun _ => id⟩
    · dsimp only
      split
      · exact ⟨fun h => hx.1 (hdx.1 h), fun h => hx.2 (hdx.2 h)⟩
      · exact hx
    · dsimp only
      split
      · exact ⟨fun h => hy.1 (hdy.1 h), fun h => hy.2 (hdy.2 h)⟩
      · exact hy
  unfold advance
  dsimp only
  split
  · exact hstep { m with rep := m.rep + 1 } m.report
  · exact hstep m m.report

theorem not_shows_init (c : BitVec 8) : ¬({} : MouseReport).Shows c := by
  unfold MouseReport.Shows
  split <;> simp

end MouseKey

/-! ## One step -/

namespace ActionState

variable {s : ActionState}

/-- A report that was sent since the first `n`, or one to come, shows the
mark. -/
def There (nkro : Bool) (n : Nat) (s : ActionState) (x : Mark) : Prop :=
  s.Shows x ∨ ∃ r ∈ s.sent.drop n, r.Shows nkro x

theorem mem_drop_append {α : Type} {l new : List α} {n : Nat} {r : α}
    (h : r ∈ (l ++ new).drop n) : r ∈ l.drop n ∨ r ∈ new := by
  rw [List.drop_append, List.mem_append] at h
  exact h.imp_right List.mem_of_mem_drop

/-- The keyboard report shows what the state shows. -/
theorem shows_keyboard {x : Mark}
    (h : (HostReport.keyboard (s.keyReport.setMods s.reportMods).raw).Shows s.nkroActive x) :
    s.Shows x := by
  cases x with
  | mod i =>
    have hbyte := KeyReport.byte_setMods_zero s.keyReport s.reportMods
    simp only [HostReport.Shows] at h
    rw [show ({ raw := (s.keyReport.setMods s.reportMods).raw } : KeyReport).byte 0 =
      s.reportMods from hbyte] at h
    exact h
  | code c => exact (KeyReport.showsCode_setMods s.keyReport s.reportMods s.nkroActive c).mp h
  | _ => exact h.elim

/-- `send_keyboard_report` brings no mark in. -/
theorem there_sendKeyboardReport {n : Nat} {x : Mark}
    (h : s.sendKeyboardReport.There s.nkroActive n x) : s.There s.nkroActive n x := by
  rcases h with h | ⟨r, hr, h⟩
  · left
    cases x with
    | mod i =>
      simp only [Shows, reportMods, sendKeyboardReport_realMods, sendKeyboardReport_weakMods,
        sendKeyboardReport_oneshotMods, BitVec.getLsbD_or, Bool.or_eq_true] at h ⊢
      refine h.imp_right fun hone => ?_
      split at hone
      · simp at hone
      · exact hone
    | code c => simpa [Shows] using h
    | mousekey c => simpa [Shows] using h
    | _ => exact h
  · rw [sendKeyboardReport_sent] at hr
    rcases mem_drop_append hr with hr | hr
    · exact .inr ⟨r, hr, h⟩
    · rw [List.mem_singleton] at hr
      subst hr
      exact .inl (shows_keyboard h)

/-- `mousekey_send` brings in no mark but those of the mouse it sends. -/
theorem there_mousekeySend {m : MouseKey} {n : Nat} {x : Mark} {P : Prop}
    (hm : ∀ c, x = .mousekey c → m.report.Shows c → s.Shows x ∨ P)
    (h : ({ s with mouse := m } : ActionState).mousekeySend.There s.nkroActive n x) :
    s.There s.nkroActive n x ∨ P := by
  have hmouse : ∀ c, x = .mousekey c → m.report.Shows c → s.There s.nkroActive n x ∨ P :=
    fun c hx hc => (hm c hx hc).imp_left .inl
  rcases h with h | ⟨r, hr, h⟩
  · cases x with
    | mousekey c => exact hmouse c rfl h
    | _ => exact .inl (.inl h)
  · rcases mem_drop_append hr with hr | hr
    · exact .inl (.inr ⟨r, hr, h⟩)
    · rw [List.mem_singleton] at hr
      subst hr
      cases x with
      | mousekey c => exact hmouse c rfl h
      | _ => exact h.elim

/-- A system usage that is sent brings in its own mark only. -/
theorem there_hostSystemSend {u : BitVec 16} {n : Nat} {x : Mark}
    (h : (s.hostSystemSend u).There s.nkroActive n x) :
    s.There s.nkroActive n x ∨ (ActionStep.system u).Adds x := by
  unfold hostSystemSend at h
  split at h
  · exact .inl h
  · rcases h with h | ⟨r, hr, h⟩
    · exact .inl (.inl h)
    · rcases mem_drop_append hr with hr | hr
      · exact .inl (.inr ⟨r, hr, h⟩)
      · rw [List.mem_singleton] at hr
        subst hr
        cases x with
        | system v => exact .inr (Eq.symm h)
        | _ => exact h.elim

/-- A consumer usage that is sent brings in its own mark only. -/
theorem there_hostConsumerSend {u : BitVec 16} {n : Nat} {x : Mark}
    (h : (s.hostConsumerSend u).There s.nkroActive n x) :
    s.There s.nkroActive n x ∨ (ActionStep.consumer u).Adds x := by
  unfold hostConsumerSend at h
  split at h
  · exact .inl h
  · rcases h with h | ⟨r, hr, h⟩
    · exact .inl (.inl h)
    · rcases mem_drop_append hr with hr | hr
      · exact .inl (.inr ⟨r, hr, h⟩)
      · rw [List.mem_singleton] at hr
        subst hr
        cases x with
        | consumer v => exact .inr (Eq.symm h)
        | _ => exact h.elim

/-- A function that sends nothing brings in only what it makes the state show. -/
theorem there_of_shows {s' : ActionState} {n : Nat} {x : Mark} {P : Prop}
    (h : s'.There s.nkroActive n x) (hsent : s'.sent = s.sent)
    (hshows : s'.Shows x → s.Shows x ∨ P) : s.There s.nkroActive n x ∨ P := by
  rcases h with h | h
  · exact (hshows h).imp_left .inl
  · rw [hsent] at h
    exact .inl (.inr h)

end ActionState

namespace ActionStep

open ActionState

variable {s : ActionState}

theorem update_nkroActive (s : ActionState) (step : ActionStep) :
    (step.update s).nkroActive = s.nkroActive := by
  cases step with
  | system u =>
    simp only [update, hostSystemSend]
    split <;> rfl
  | consumer u =>
    simp only [update, hostConsumerSend]
    split <;> rfl
  | _ => rfl

@[simp] theorem apply_nkroActive (s : ActionState) (step : ActionStep) :
    (step.apply s).nkroActive = s.nkroActive := by
  unfold apply
  split
  · rw [sendKeyboardReport_nkroActive, update_nkroActive]
  · exact update_nkroActive s step

/-- A change of the modifiers to `real`, `weak` and `oneshot`. -/
theorem there_mods {real weak oneshot : BitVec 8} {n : Nat} {x : Mark} {P : Prop}
    (h : ({ s with realMods := real, weakMods := weak, oneshotMods := oneshot } :
      ActionState).There s.nkroActive n x)
    (hmods : ∀ i, x = .mod i → (real ||| weak ||| oneshot).getLsbD i = true →
      (s.realMods ||| s.weakMods ||| s.oneshotMods).getLsbD i = true ∨ P) :
    s.There s.nkroActive n x ∨ P := by
  refine there_of_shows h rfl fun hx => ?_
  cases x with
  | mod i => exact hmods i rfl hx
  | _ => exact .inl hx

/-- **Provenance, one update**: a mark that is there was there or is one the
step adds. -/
theorem there_update {step : ActionStep} {n : Nat} {x : Mark}
    (h : (step.update s).There s.nkroActive n x) : s.There s.nkroActive n x ∨ step.Adds x := by
  cases step with
  | addMods m | addWeakMods m | setOneshotMods m =>
    refine there_mods h fun i hx hi => ?_
    subst hx
    simp only [BitVec.getLsbD_or, Bool.or_eq_true] at hi ⊢
    simp only [Adds]
    grind
  | delMods m | delWeakMods m =>
    refine there_mods h fun i _ hi => .inl ?_
    simp only [BitVec.getLsbD_or, BitVec.getLsbD_and, Bool.or_eq_true, Bool.and_eq_true] at hi ⊢
    grind
  | clearOneshotMods =>
    refine there_mods h fun i _ hi => .inl ?_
    simp only [BitVec.getLsbD_or, Bool.or_eq_true] at hi ⊢
    exact hi.imp_right fun hzero => by simp at hzero
  | registerKey c | relockKey c =>
    refine there_of_shows h rfl fun hx => ?_
    cases x with
    | code d => exact (s.showsCode_addKey hx).symm
    | _ => exact .inl hx
  | delKey c =>
    refine there_of_shows h rfl fun hx => .inl ?_
    cases x with
    | code d => exact s.showsCode_delKey hx
    | _ => exact hx
  | clearKeys =>
    refine there_of_shows h rfl fun hx => .inl ?_
    cases x with
    | mod i =>
      have hmods : s.clearMods.clearWeakMods.clearKeys.reportMods = s.oneshotMods := by
        simp [reportMods, clearMods, clearWeakMods, ActionState.clearKeys]
      simp only [Shows, update, hmods] at hx
      simp [Shows, reportMods, hx]
    | code d => exact absurd hx (KeyReport.not_showsCode_clearKeys _ _ _)
    | _ => exact hx
  | system u => exact there_hostSystemSend h
  | consumer u => exact there_hostConsumerSend h
  | mousekeyOn c =>
    refine there_mousekeySend (fun d hx hd => ?_) h
    subst hx
    exact (MouseKey.shows_on hd).symm
  | mousekeyOff c =>
    refine there_mousekeySend (fun d hx hd => .inl ?_) h
    subst hx
    exact (s.mouse.fades_off c).shows hd
  | mousekeyClear =>
    exact there_mousekeySend (fun d _ hd => absurd hd (MouseKey.not_shows_init d)) h
  | mousekeyAdvance =>
    refine there_mousekeySend (fun d hx hd => .inl ?_) h
    subst hx
    exact (s.mouse.fades_advance).shows hd
  | setLayers l d | setLayerPressed k l | readings t l => exact there_of_shows h rfl .inl

/-- **Provenance, one step**, its reports included. -/
theorem there_apply {step : ActionStep} {n : Nat} {x : Mark}
    (h : (step.apply s).There s.nkroActive n x) : s.There s.nkroActive n x ∨ step.Adds x := by
  unfold apply at h
  split at h
  · rw [← update_nkroActive s step] at h
    have hupdate := there_sendKeyboardReport h
    rw [update_nkroActive] at hupdate
    exact there_update hupdate
  · exact there_update h

end ActionStep

/-- **Provenance.** What a report sent in the run shows was on at its start
or was added by one of its steps. -/
theorem runSteps_provenance (steps : List ActionStep) (s : ActionState) {r : HostReport}
    (hr : r ∈ (runSteps steps s).sent.drop s.sent.length) {x : Mark}
    (hx : r.Shows s.nkroActive x) : s.Shows x ∨ ∃ step ∈ steps, step.Adds x := by
  have hrun := foldl_provenance
    (fun s' x => s'.nkroActive = s.nkroActive ∧ s'.There s.nkroActive s.sent.length x)
    ActionStep.Adds (fun s' step x h => ?_) steps s x
    ⟨?_, .inr ⟨r, hr, hx⟩⟩
  · rcases hrun with ⟨-, h | ⟨r', hr', -⟩⟩ | h
    · exact .inl h
    · simp at hr'
    · exact .inr h
  · obtain ⟨hn, hthere⟩ := h
    rw [ActionStep.apply_nkroActive] at hn
    rw [← hn] at hthere ⊢
    exact (ActionStep.there_apply hthere).imp_left fun h => ⟨rfl, h⟩
  · exact foldl_invariant (P := fun s' => s'.nkroActive = s.nkroActive) (R := fun _ => True)
      (fun s' step h _ => (ActionStep.apply_nkroActive s' step).trans h) rfl fun _ _ => trivial

end Ch583Kbd.Tmk
