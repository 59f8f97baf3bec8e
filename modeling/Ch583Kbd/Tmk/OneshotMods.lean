/-
Ch583Kbd.Tmk.OneshotMods — one-shot modifiers and the next key.

`send_keyboard_report` takes a report with a key in it for the report of
the next key: it puts the one-shot modifiers in and forgets them. A report
that is sent for another reason while a key is held (a release, another
modifier) uses them up as well. So they are in every report up to the next
key's, and in no report after it, in every run in which no such report
comes first (`oneshotTap_nextKeyOnly`).
-/
import Ch583Kbd.Tmk.ActionSteps
import Ch583Kbd.Tmk.AnyRing

namespace Ch583Kbd.Tmk

open Ch583Kbd.Lib

/-! ## Steps and one-shot modifiers -/

namespace ActionStep

/-- The report of `register_code` with a key. -/
def registers : ActionStep → Bool
  | registerKey _ => true
  | _ => false

/-- `set_oneshot_mods` and `clear_oneshot_mods`. -/
def setsOneshot : ActionStep → Bool
  | setOneshotMods _ | clearOneshotMods => true
  | _ => false

/-- The code of a step for a key is one of a key. -/
def Keyed : ActionStep → Prop
  | registerKey code | relockKey code | delKey code => isKey code = true
  | _ => True

variable (s : ActionState)

/-- Only the steps that set or clear the one-shot modifiers change them. -/
theorem update_oneshotMods {step : ActionStep} (h : step.setsOneshot = false) :
    (step.update s).oneshotMods = s.oneshotMods := by
  cases step with
  | setOneshotMods m | clearOneshotMods => simp [setsOneshot] at h
  | system u => simp [update, ActionState.hostSystemSend_eq]
  | consumer u => simp [update, ActionState.hostConsumerSend_eq]
  | _ => rfl

theorem update_inRing (h : s.keyReport.InRing) (step : ActionStep) :
    (step.update s).keyReport.InRing := by
  cases step with
  | registerKey c | relockKey c => exact ActionState.inRing_addKey h c
  | delKey c => exact ActionState.inRing_delKey h c
  | clearKeys => exact ⟨h.head, h.tail⟩
  | system u =>
    rw [update, ActionState.hostSystemSend_eq]
    exact h
  | consumer u =>
    rw [update, ActionState.hostConsumerSend_eq]
    exact h
  | _ => exact h

/-- Every step keeps the indices of the report in the ring. -/
theorem apply_inRing (h : s.keyReport.InRing) (step : ActionStep) :
    (step.apply s).keyReport.InRing := by
  have hupdate := step.update_inRing s h
  unfold apply
  split
  · rw [ActionState.sendKeyboardReport_keyReport]
    exact ⟨hupdate.head, hupdate.tail⟩
  · exact hupdate

variable {s}

/-- One-shot modifiers are gone after a report with a key, and stay
otherwise. -/
theorem apply_oneshotMods {step : ActionStep} (h : step.setsOneshot = false) :
    (step.apply s).oneshotMods =
      if step.reports = true ∧ (step.update s).keyReport.hasAnykey ≠ 0 then 0
      else s.oneshotMods := by
  have hupdate := update_oneshotMods s h
  unfold apply
  by_cases hr : step.reports = true
  · simp [hr, hupdate]
  · simp [hr, hupdate]

end ActionStep

/-! ## The key codes of the steps -/

section Keyed

variable {s : ActionState} {step : ActionStep}

theorem lockingKey_isKey {code c l : BitVec 8} (h : lockingKey code = some (c, l)) :
    isKey c = true := by
  unfold lockingKey at h
  split_ifs at h <;> (obtain ⟨rfl, -⟩ := Prod.mk.inj (Option.some.inj h); decide)

/-- The steps of `register_code` name the codes of keys only. -/
theorem keyed_registerSteps (code leds : BitVec 8) :
    ∀ step ∈ registerSteps code leds, step.Keyed :=
  forall_registerSteps
    (fun _ _ hlock _ => ⟨lockingKey_isKey hlock, lockingKey_isKey hlock⟩)
    (fun _ _ hkey => hkey) (fun _ _ _ _ => trivial) (fun _ _ _ _ _ => trivial)
    fun _ _ _ _ _ _ => trivial

/-- The steps of `unregister_code` name the codes of keys only. -/
theorem keyed_unregisterSteps (code leds : BitVec 8) :
    ∀ step ∈ unregisterSteps code leds, step.Keyed :=
  forall_unregisterSteps
    (fun _ _ hlock _ => ⟨lockingKey_isKey hlock, lockingKey_isKey hlock⟩)
    (fun _ _ hkey => hkey) (fun _ _ _ _ => trivial) (fun _ _ _ _ _ => trivial)
    fun _ _ _ _ _ _ => trivial

/-- The steps of an action name the codes of keys only, for every action code. -/
theorem keyed_performSteps (a : Action) (pressed : Bool) (tap : Tap) :
    ∀ step ∈ s.performSteps a pressed tap, step.Keyed := by
  refine s.forall_performSteps (fun _ code => keyed_registerSteps code s.leds)
    (fun _ code => keyed_unregisterSteps code s.leds) (fun _ _ => ⟨trivial, trivial, trivial⟩)
    (fun _ => ⟨trivial, trivial⟩) trivial (fun _ _ => trivial) ?_ ?_ ?_
  · intro step h
    unfold ActionState.usageSteps at h
    dsimp only at h
    split at h <;> simp only [List.mem_singleton, List.not_mem_nil] at h <;> subst h <;> trivial
  · split <;> trivial
  · intro _ step h
    simp only [clearKeyboardSteps, List.mem_cons, List.not_mem_nil, or_false] at h
    rcases h with rfl | rfl | rfl | rfl <;> trivial

/-- The steps of a run name the codes of keys only. -/
theorem keyed_stepsOf (K : Keymap) (calls : List ActionCall) (s : ActionState) :
    ∀ step ∈ stepsOf K calls s, step.Keyed := by
  induction calls generalizing s with
  | nil => simp [stepsOf]
  | cons call calls ih =>
    intro step h
    rcases List.mem_append.mp h with h | h
    · cases call with
      | process record =>
        simp only [ActionCall.steps] at h
        split at h
        · simp at h
        · rcases List.mem_append.mp h with h | h
          · unfold ActionCall.trackSteps at h
            split at h <;> simp only [List.mem_singleton, List.not_mem_nil] at h
            exact h ▸ trivial
          · exact keyed_performSteps _ _ _ step h
      | mousekeyTask =>
        simp only [ActionCall.steps] at h
        split at h <;> simp only [List.mem_singleton, List.not_mem_nil] at h
        exact h ▸ trivial
      | clearKeyboard =>
        simp only [ActionCall.steps, clearKeyboardSteps, List.mem_cons, List.not_mem_nil,
          or_false] at h
        rcases h with rfl | rfl | rfl | rfl <;> trivial
      | readings t l => exact List.mem_singleton.mp h ▸ trivial
    · exact ih _ step h

end Keyed

/-! ## The run after the tap -/

/-- The states and steps up to the next key, and from it on. -/
def untilKey (tr : List (ActionState × ActionStep)) : List (ActionState × ActionStep) :=
  tr.takeWhile fun x => !x.2.registers

def fromKey (tr : List (ActionState × ActionStep)) : List (ActionState × ActionStep) :=
  tr.dropWhile fun x => !x.2.registers

/-- The modifier byte of the last keyboard report after the step. -/
def sentMods (x : ActionState × ActionStep) : BitVec 8 :=
  let zero := Vector.replicate keyboardReportSize 0
  ({ raw := lastReport HostReport.keyboard? zero (x.2.apply x.1).sent } : KeyReport).byte 0

/-- The one-shot modifiers are in every report up to and including the next
key's; after it every report has the held modifiers only. -/
structure NextKeyOnly (mods : BitVec 8) (tr : List (ActionState × ActionStep)) : Prop where
  upTo : ∀ x ∈ untilKey tr ++ (fromKey tr).take 1, x.2.reports = true → mods &&& sentMods x = mods
  after : ∀ x ∈ (fromKey tr).drop 1, x.2.reports = true →
    sentMods x = (x.2.update x.1).realMods ||| (x.2.update x.1).weakMods

/-- Before the next key no report is sent while a key is in it. -/
def NoKeyReported (tr : List (ActionState × ActionStep)) : Prop :=
  ∀ x ∈ untilKey tr, x.2.reports = true → (x.2.update x.1).keyReport.hasAnykey = 0

/-- A step that reports sends the modifiers of the state it leaves. -/
theorem sentMods_eq (x : ActionState × ActionStep) (h : x.2.reports = true) :
    sentMods x = (x.2.update x.1).reportMods := by
  have hsent : (x.2.apply x.1).sent = (x.2.update x.1).sent ++
      [.keyboard ((x.2.update x.1).keyReport.setMods (x.2.update x.1).reportMods).raw] := by
    rw [ActionStep.apply, if_pos h, ActionState.sendKeyboardReport_sent]
  rw [sentMods, hsent, lastReport_keyboard]
  exact KeyReport.byte_setMods_zero _ _

theorem and_or_self (m a : BitVec 8) : m &&& (a ||| m) = m := by
  apply BitVec.eq_of_getLsbD_eq
  intro i _
  rw [BitVec.getLsbD_and, BitVec.getLsbD_or]
  cases m.getLsbD i <;> simp

/-- Without one-shot modifiers a report has the held ones only. -/
theorem sentMods_held {s : ActionState} {steps : List ActionStep} (hs : s.oneshotMods = 0)
    (hsteps : ∀ step ∈ steps, step.setsOneshot = false) :
    ∀ x ∈ trace ActionStep.apply steps s, x.2.reports = true →
      sentMods x = (x.2.update x.1).realMods ||| (x.2.update x.1).weakMods := by
  intro x hx hr
  have hset : ∀ x ∈ trace ActionStep.apply steps s, x.2.setsOneshot = false :=
    fun x hx => hsteps x.2 (mem_of_mem_trace hx)
  have hstay := trace_forall (P := fun s : ActionState => s.oneshotMods = 0)
    (R := fun x => x.2.setsOneshot = false)
    (fun s step hs hstep => by rw [ActionStep.apply_oneshotMods hstep, hs, ite_self]) hs hset x hx
  rw [sentMods_eq x hr, ActionState.reportMods, ActionStep.update_oneshotMods _ (hset x hx), hstay]
  exact BitVec.or_zero

/-- **The steps after the tap**, by induction: the one-shot modifiers stay
until the next key. -/
theorem nextKeyOnly_trace {mods : BitVec 8} (steps : List ActionStep) :
    ∀ s : ActionState, s.oneshotMods = mods → s.keyReport.InRing →
      (∀ step ∈ steps, step.setsOneshot = false) → (∀ step ∈ steps, step.Keyed) →
      NoKeyReported (trace ActionStep.apply steps s) →
      NextKeyOnly mods (trace ActionStep.apply steps s) := by
  induction steps with
  | nil => exact fun _ _ _ _ _ _ => ⟨by simp [untilKey, fromKey], by simp [fromKey]⟩
  | cons step steps ih =>
    intro s hs hring hsets hkeyed hquiet
    have hset := hsets step List.mem_cons_self
    have hsets' := fun step' h => hsets step' (List.mem_cons_of_mem step h)
    have hkeyed' := fun step' h => hkeyed step' (List.mem_cons_of_mem step h)
    have hfirst : step.reports = true → mods &&& sentMods (s, step) = mods := by
      intro hr
      rw [sentMods_eq (s, step) hr, ActionState.reportMods,
        ActionStep.update_oneshotMods s hset, hs]
      exact and_or_self _ _
    have honeshot := ActionStep.apply_oneshotMods (s := s) hset
    by_cases hreg : step.registers = true
    · -- the next key: its report is the last one with the modifiers
      have huntil : untilKey (trace ActionStep.apply (step :: steps) s) = [] := by
        simp [untilKey, hreg]
      have hfrom : fromKey (trace ActionStep.apply (step :: steps) s) =
          (s, step) :: trace ActionStep.apply steps (step.apply s) := by
        simp [fromKey, hreg]
      have hgone : (step.apply s).oneshotMods = 0 := by
        rw [honeshot, if_pos]
        cases step with
        | registerKey c =>
          exact ⟨rfl, ActionState.hasAnykey_addKey hring (hkeyed _ List.mem_cons_self)⟩
        | _ => simp [ActionStep.registers] at hreg
      refine ⟨?_, ?_⟩
      · rw [huntil, hfrom]
        intro x hx
        obtain rfl : x = (s, step) := by simpa using hx
        exact hfirst
      · rw [hfrom]
        exact sentMods_held hgone hsets'
    · have huntil : untilKey (trace ActionStep.apply (step :: steps) s) =
          (s, step) :: untilKey (trace ActionStep.apply steps (step.apply s)) := by
        simp [untilKey, hreg]
      have hfrom : fromKey (trace ActionStep.apply (step :: steps) s) =
          fromKey (trace ActionStep.apply steps (step.apply s)) := by
        simp [fromKey, hreg]
      -- no report has a key yet, so the modifiers are not taken off
      have hstay : (step.apply s).oneshotMods = mods := by
        rw [honeshot, if_neg, hs]
        rintro ⟨hr, hkey⟩
        exact hkey (hquiet (s, step) (huntil ▸ List.mem_cons_self) hr)
      have hrest := ih (step.apply s) hstay (step.apply_inRing s hring) hsets' hkeyed'
        fun x hx => hquiet x (huntil ▸ List.mem_cons_of_mem _ hx)
      refine ⟨?_, ?_⟩
      · rw [huntil, hfrom]
        intro x hx
        rcases List.mem_cons.mp hx with rfl | hx
        · exact hfirst
        · exact hrest.upTo x hx
      · rw [hfrom]
        exact hrest.after

/-! ## The tap -/

/-- The modifiers of a one-shot action. -/
def Action.oneshotMods? (a : Action) : Option (BitVec 8) :=
  if a.keyCode = modsOneshot then
    match a.kindId with
    | .lmodsTap => some (sideMods a.keyMods true)
    | .rmodsTap => some (sideMods a.keyMods false)
    | _ => none
  else none

/-- A one-shot key with these modifiers is tapped in `s`. -/
structure OneshotTap (K : Keymap) (s : ActionState) (press release : KeyRecord)
    (mods : BitVec 8) : Prop where
  press_event : press.event.isPressed = true
  release_event : release.event.isReleased = true
  key : release.event.key = press.event.key
  press_count : press.tap.count = 1
  release_count : release.tap.count = 1
  action : (s.actionOf K press.event).oneshotMods? = some mods

/-- What `process_action` does with a one-shot action. -/
theorem perform_oneshot {a : Action} {mods : BitVec 8} (h : a.oneshotMods? = some mods)
    (s : ActionState) (pressed : Bool) {tap : Tap} (ht : tap.count = 1) :
    s.perform a pressed tap = if pressed then s.setOneshotMods mods else s := by
  unfold Action.oneshotMods? at h
  split at h
  · next hcode =>
    have htap : ∀ m, ActionState.perform.tapMods s a pressed tap m =
        if pressed then s.setOneshotMods m else s := by
      intro m
      simp [ActionState.perform.tapMods, hcode, ActionState.doOneshot, ht]
    unfold ActionState.perform
    cases hk : a.kindId <;> simp only [hk] at h ⊢
    case lmodsTap | rmodsTap =>
      obtain rfl := Option.some.inj h
      exact htap _
    all_goals simp at h
  · simp at h

/-- The tap sets the one-shot modifiers; the release does nothing. -/
theorem OneshotTap.run {K : Keymap} {s : ActionState} {press release : KeyRecord}
    {mods : BitVec 8} (h : OneshotTap K s press release mods) :
    runCalls K [.process press, .process release] s =
      (s.track K press.event).setOneshotMods mods := by
  obtain ⟨hp, hpressed⟩ := (KeyEvent.isPressed_iff _).mp h.press_event
  obtain ⟨hr, hreleased⟩ := (KeyEvent.isReleased_iff _).mp h.release_event
  have hfirst : (processAction K press s).2 = (s.track K press.event).setOneshotMods mods := by
    have hdo := perform_oneshot h.action (s.track K press.event) true h.press_count
    simp only [processAction, hp, hpressed, Bool.false_eq_true, if_false]
    exact hdo
  have haction : ((processAction K press s).2.actionOf K release.event).oneshotMods? =
      some mods := by
    rw [hfirst, ← h.action]
    simp [ActionState.actionOf, ActionState.layerFor, ActionState.track,
      ActionState.setLayerPressed,
      ActionState.setOneshotMods, hp, hr, hpressed, hreleased, h.key, h.press_event]
  have hsecond : (processAction K release (processAction K press s).2).2 =
      (processAction K press s).2 := by
    have htrack : (processAction K press s).2.track K release.event =
        (processAction K press s).2 := by
      simp [ActionState.track, KeyEvent.isPressed, hreleased]
    have hdo := perform_oneshot haction (processAction K press s).2 false h.release_count
    generalize (processAction K press s).2 = t at htrack hdo ⊢
    simp only [processAction, hr, hreleased, htrack, Bool.false_eq_true, if_false]
    exact hdo
  calc runCalls K [.process press, .process release] s
      = (processAction K release (processAction K press s).2).2 := rfl
    _ = (s.track K press.event).setOneshotMods mods := hsecond.trans hfirst

/-- **One-shot modifiers apply to the next key and to no later one**, if no
report is sent before it while a key is in the report. -/
theorem oneshotTap_nextKeyOnly (K : Keymap) (before later : List ActionCall)
    (protocol : BitVec 8) (nkro : Bool) (press release : KeyRecord) (mods : BitVec 8) :
    let s := runCalls K before (startState protocol nkro)
    let t := runCalls K [.process press, .process release] s
    let tr := trace ActionStep.apply (stepsOf K later t) t
    OneshotTap K s press release mods →
      (∀ step ∈ stepsOf K later t, step.setsOneshot = false) → NoKeyReported tr →
      NextKeyOnly mods tr := by
  intro s t tr htap hsets hquiet
  have hstart : (startState protocol nkro).keyReport.InRing :=
    ⟨Nat.zero_lt_succ _, Nat.zero_lt_succ _⟩
  have hring : t.keyReport.InRing := by
    simp only [t, s, runCalls_eq]
    have hrun : ∀ (steps : List ActionStep) (s : ActionState), s.keyReport.InRing →
        (runSteps steps s).keyReport.InRing := fun steps s hs =>
      foldl_invariant (P := fun s : ActionState => s.keyReport.InRing) (R := fun _ => True)
        (fun s step h _ => step.apply_inRing s h) hs fun _ _ => trivial
    exact hrun _ _ (hrun _ _ hstart)
  have hmods : t.oneshotMods = mods := by
    simp only [t, htap.run]
    rfl
  exact nextKeyOnly_trace _ t hmods hring hsets (keyed_stepsOf K later t) hquiet

/-- A one-shot shift, two letters and a modifier. -/
def oneshotKeymap : Keymap := fun _ key =>
  match key.col.toNat with
  | 0 => ⟨0x2200⟩  -- left shift, one-shot
  | 1 => ⟨0x0004⟩  -- a
  | 2 => ⟨0x0005⟩  -- b
  | 3 => ⟨0x00E0⟩  -- left ctrl
  | _ => Action.no

def recordAt (col : BitVec 8) (pressed : Bool) (count : Nat) : KeyRecord :=
  { event := ⟨⟨0, col⟩, pressed, 1⟩, tap := { count := count } }

/-- After the tap, with the modifier pressed and released, only the first of two
letters is shifted. -/
theorem oneshotTap_then_letters :
    let K := oneshotKeymap
    let t := runCalls K [.process (recordAt 0 true 1), .process (recordAt 0 false 1)]
      (startState 1 false)
    let later := [(3, true), (3, false), (1, true), (1, false), (2, true)].map fun e =>
      ActionCall.process (recordAt e.1 e.2 0)
    NextKeyOnly 0x02 (trace ActionStep.apply (stepsOf K later t) t) := by
  intro K t later
  refine oneshotTap_nextKeyOnly K [] later 1 false (recordAt 0 true 1) (recordAt 0 false 1) 0x02
    ⟨rfl, rfl, rfl, rfl, rfl, by decide⟩ (by decide +kernel) ?_
  unfold NoKeyReported
  decide +kernel

/-- The same with the first letter held all the time: the report of the
modifier uses the shift up, and the second letter comes without. -/
theorem oneshot_used_by_modifier :
    let K := oneshotKeymap
    let calls := [(1, true, 0), (0, true, 1), (0, false, 1)].map fun e =>
      ActionCall.process (recordAt e.1 e.2.1 e.2.2)
    let t := runCalls K calls (startState 1 false)
    let later := [(3, true), (2, true)].map fun e => ActionCall.process (recordAt e.1 e.2 0)
    ¬NextKeyOnly 0x02 (trace ActionStep.apply (stepsOf K later t) t) := by
  intro K calls t later h
  exact absurd h.upTo (by decide +kernel)

end Ch583Kbd.Tmk
