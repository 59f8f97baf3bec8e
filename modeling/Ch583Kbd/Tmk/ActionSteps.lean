/-
Ch583Kbd.Tmk.ActionSteps — `process_action` as a sequence of small steps.

An `ActionStep` is one update of the modifiers, the keys, the mouse, the
usages or the layers, with the keyboard report that follows it. Every
branch of `process_action` makes a list of such steps (`perform_eq`), and
so do the other functions that change the state of the action layer
(`runCalls_eq`); what holds of every step holds of every run.
-/
import Ch583Kbd.Lib.Trace
import Ch583Kbd.Tmk.SentReports

namespace Ch583Kbd.Tmk

/-- A step of the action layer. -/
inductive ActionStep where
  | addMods (mods : BitVec 8)
  | delMods (mods : BitVec 8)
  | addWeakMods (mods : BitVec 8)
  | delWeakMods (mods : BitVec 8)
  | setOneshotMods (mods : BitVec 8)
  | clearOneshotMods
  /-- `add_key` in `register_code`. -/
  | registerKey (code : BitVec 8)
  /-- `add_key` in `unregister_code`, which taps a lock key again. -/
  | relockKey (code : BitVec 8)
  | delKey (code : BitVec 8)
  /-- `clear_mods`, `clear_weak_mods` and `clear_keys`. -/
  | clearKeys
  | system (usage : BitVec 16)
  | consumer (usage : BitVec 16)
  | mousekeyOn (code : BitVec 8)
  | mousekeyOff (code : BitVec 8)
  | mousekeyClear
  | mousekeyAdvance
  | setLayers (layers defaultLayers : BitVec 32)
  | setLayerPressed (key : KeyPos) (layer : BitVec 8)
  | readings (timer : BitVec 16) (leds : BitVec 8)

namespace ActionStep

/-- Whether `send_keyboard_report` follows. -/
def reports : ActionStep → Bool
  | addMods _ | delMods _ | addWeakMods _ | delWeakMods _ => true
  | registerKey _ | relockKey _ | delKey _ | clearKeys => true
  | _ => false

/-- The step without the keyboard report. -/
def update (s : ActionState) : ActionStep → ActionState
  | addMods mods => s.addMods mods
  | delMods mods => s.delMods mods
  | addWeakMods mods => s.addWeakMods mods
  | delWeakMods mods => s.delWeakMods mods
  | setOneshotMods mods => s.setOneshotMods mods
  | clearOneshotMods => s.clearOneshotMods
  | registerKey code | relockKey code => s.addKey code
  | delKey code => s.delKey code
  | clearKeys => s.clearMods.clearWeakMods.clearKeys
  | system usage => s.hostSystemSend usage
  | consumer usage => s.hostConsumerSend usage
  | mousekeyOn code => { s with mouse := s.mouse.on code }.mousekeySend
  | mousekeyOff code => { s with mouse := s.mouse.off code }.mousekeySend
  | mousekeyClear => { s with mouse := s.mouse.clear }.mousekeySend
  | mousekeyAdvance => { s with mouse := s.mouse.advance }.mousekeySend
  | setLayers layers defaultLayers =>
    { s with layerState := layers, defaultLayerState := defaultLayers }
  | setLayerPressed key layer => s.setLayerPressed key layer
  | readings timer leds => { s with timer := timer, leds := leds }

def apply (s : ActionState) (step : ActionStep) : ActionState :=
  if step.reports then (step.update s).sendKeyboardReport else step.update s

end ActionStep

def runSteps (steps : List ActionStep) (s : ActionState) : ActionState :=
  steps.foldl ActionStep.apply s

@[simp] theorem runSteps_cons (step : ActionStep) (steps : List ActionStep) (s : ActionState) :
    runSteps (step :: steps) s = runSteps steps (step.apply s) := rfl

theorem runSteps_append (steps steps' : List ActionStep) (s : ActionState) :
    runSteps (steps ++ steps') s = runSteps steps' (runSteps steps s) := List.foldl_append

/-! ## The steps of `process_action` -/

/-- `if (mods) { …; send_keyboard_report(); }`. -/
def modsSteps (step : BitVec 8 → ActionStep) (mods : BitVec 8) : List ActionStep :=
  if mods ≠ 0 then [step mods] else []

def registerSteps (code leds : BitVec 8) : List ActionStep :=
  if code = kcNo then []
  else
    match lockingKey code with
    | some (c, l) => if leds &&& l ≠ 0 then [] else [.registerKey c, .delKey c]
    | none =>
      if isKey code then [.registerKey code]
      else if isMod code then [.addMods (modBit code)]
      else if isSystem code then [.system (keycode2System code)]
      else if isConsumer code then [.consumer (keycode2Consumer code)]
      else []

def unregisterSteps (code leds : BitVec 8) : List ActionStep :=
  if code = kcNo then []
  else
    match lockingKey code with
    | some (c, l) => if leds &&& l = 0 then [] else [.relockKey c, .delKey c]
    | none =>
      if isKey code then [.delKey code]
      else if isMod code then [.delMods (modBit code)]
      else if isSystem code then [.system 0]
      else if isConsumer code then [.consumer 0]
      else []

def clearKeyboardSteps : List ActionStep := [.clearKeys, .mousekeyClear, .system 0, .consumer 0]

theorem mem_modsSteps {step : BitVec 8 → ActionStep} {mods : BitVec 8} {x : ActionStep}
    (h : x ∈ modsSteps step mods) : x = step mods := by
  unfold modsSteps at h
  split at h
  · exact List.mem_singleton.mp h
  · exact absurd h List.not_mem_nil

/-- What holds of the step of every branch of `register_code` and
`unregister_code` holds of their steps; a branch knows that the earlier ones
were not taken. -/
theorem forall_codeSteps {P : ActionStep → Prop} {code : BitVec 8}
    {lock : BitVec 8 → BitVec 8 → List ActionStep} {key mod system consumer : ActionStep}
    (hlock : ∀ c l, lockingKey code = some (c, l) → ∀ step ∈ lock c l, P step)
    (hkey : code ≠ kcNo → lockingKey code = none → isKey code → P key)
    (hmod : code ≠ kcNo → lockingKey code = none → ¬isKey code → isMod code → P mod)
    (hsystem : code ≠ kcNo → lockingKey code = none → ¬isKey code → ¬isMod code →
      isSystem code → P system)
    (hconsumer : code ≠ kcNo → lockingKey code = none → ¬isKey code → ¬isMod code →
      ¬isSystem code → isConsumer code → P consumer) :
    ∀ step ∈ (if code = kcNo then []
      else
        match lockingKey code with
        | some (c, l) => lock c l
        | none =>
          if isKey code then [key]
          else if isMod code then [mod]
          else if isSystem code then [system]
          else if isConsumer code then [consumer]
          else []), P step := by
  have hnil : ∀ step ∈ ([] : List ActionStep), P step := fun _ h => absurd h List.not_mem_nil
  have hone : ∀ {step'}, P step' → ∀ step ∈ [step'], P step := by simp
  split
  · exact hnil
  · next hno =>
    cases hcode : lockingKey code with
    | some cl => exact hlock cl.1 cl.2 hcode
    | none =>
      dsimp only
      split
      · next h1 => exact hone (hkey hno hcode h1)
      · next h1 =>
        split
        · next h2 => exact hone (hmod hno hcode h1 h2)
        · next h2 =>
          split
          · next h3 => exact hone (hsystem hno hcode h1 h2 h3)
          · next h3 =>
            split
            · next h4 => exact hone (hconsumer hno hcode h1 h2 h3 h4)
            · exact hnil

/-- What holds of every step that `register_code` can make, for each kind of
code. -/
theorem forall_registerSteps {P : ActionStep → Prop} {code leds : BitVec 8}
    (hlock : ∀ c l, lockingKey code = some (c, l) → leds &&& l = 0 →
      P (.registerKey c) ∧ P (.delKey c))
    (hkey : code ≠ kcNo → lockingKey code = none → isKey code → P (.registerKey code))
    (hmod : code ≠ kcNo → lockingKey code = none → ¬isKey code → isMod code →
      P (.addMods (modBit code)))
    (hsystem : code ≠ kcNo → lockingKey code = none → ¬isKey code → ¬isMod code →
      isSystem code → P (.system (keycode2System code)))
    (hconsumer : code ≠ kcNo → lockingKey code = none → ¬isKey code → ¬isMod code →
      ¬isSystem code → isConsumer code → P (.consumer (keycode2Consumer code))) :
    ∀ step ∈ registerSteps code leds, P step := by
  refine forall_codeSteps (fun c l hcode => ?_) hkey hmod hsystem hconsumer
  split
  · exact fun _ h => absurd h List.not_mem_nil
  · next hled =>
    obtain ⟨hset, hdel⟩ := hlock c l hcode (Decidable.not_not.mp hled)
    simp [hset, hdel]

/-- What holds of every step that `unregister_code` can make, for each kind of
code. -/
theorem forall_unregisterSteps {P : ActionStep → Prop} {code leds : BitVec 8}
    (hlock : ∀ c l, lockingKey code = some (c, l) → leds &&& l ≠ 0 →
      P (.relockKey c) ∧ P (.delKey c))
    (hkey : code ≠ kcNo → lockingKey code = none → isKey code → P (.delKey code))
    (hmod : code ≠ kcNo → lockingKey code = none → ¬isKey code → isMod code →
      P (.delMods (modBit code)))
    (hsystem : code ≠ kcNo → lockingKey code = none → ¬isKey code → ¬isMod code →
      isSystem code → P (.system 0))
    (hconsumer : code ≠ kcNo → lockingKey code = none → ¬isKey code → ¬isMod code →
      ¬isSystem code → isConsumer code → P (.consumer 0)) :
    ∀ step ∈ unregisterSteps code leds, P step := by
  refine forall_codeSteps (fun c l hcode => ?_) hkey hmod hsystem hconsumer
  split
  · exact fun _ h => absurd h List.not_mem_nil
  · next hled =>
    obtain ⟨hset, hdel⟩ := hlock c l hcode hled
    simp [hset, hdel]

namespace ActionState

variable (s : ActionState)

def modsKeySteps (mods code : BitVec 8) (pressed : Bool) : List ActionStep :=
  if pressed then modsSteps .addWeakMods mods ++ registerSteps code s.leds
  else unregisterSteps code s.leds ++ modsSteps .delWeakMods mods

def oneshotSteps (mods : BitVec 8) (pressed : Bool) (tapCount : Nat) : List ActionStep :=
  if pressed then
    if tapCount = 1 then [.setOneshotMods mods] else modsSteps .addMods mods
  else
    if tapCount = 1 then [] else .clearOneshotMods :: modsSteps .delMods mods

def tapToggleSteps (mods : BitVec 8) (pressed : Bool) (tapCount : Nat) : List ActionStep :=
  if pressed then
    if tapCount ≤ tappingToggle then
      if mods &&& s.realMods ≠ 0 then modsSteps .delMods mods else modsSteps .addMods mods
    else []
  else
    if tapCount < tappingToggle then modsSteps .delMods mods else []

def modsTapSteps (mods code : BitVec 8) (pressed : Bool) (tap : Tap) : List ActionStep :=
  if pressed then
    if tap.count > 0 then
      if tap.interrupted then modsSteps .addMods mods else registerSteps code s.leds
    else modsSteps .addMods mods
  else
    if tap.count > 0 then unregisterSteps code s.leds else modsSteps .delMods mods

def tapModsSteps (a : Action) (pressed : Bool) (tap : Tap) (mods : BitVec 8) : List ActionStep :=
  if a.keyCode = modsOneshot then oneshotSteps mods pressed tap.count
  else if a.keyCode = modsTapToggle then s.tapToggleSteps mods pressed tap.count
  else s.modsTapSteps mods a.keyCode pressed tap

def usageSteps (a : Action) (pressed : Bool) : List ActionStep :=
  let code := if pressed then a.usageCode.setWidth 16 else 0
  match a.usagePage.toNat with
  | 0 => [.system code]
  | 1 => [.consumer code]
  | _ => []

/-- The step to the layers of `s`. -/
def layersStep : ActionStep := .setLayers s.layerState s.defaultLayerState

def layerTapSteps (val : Nat) (code : BitVec 8) (pressed : Bool) (tapCount : Nat) :
    List ActionStep :=
  if isLayerMods code then
    if pressed then (s.layerOn val).layersStep :: modsSteps .addMods (layerTapMods code)
    else (s.layerOff val).layersStep :: modsSteps .delMods (layerTapMods code)
  else if code = opTapToggle ∨ code = opOnOff ∨ code = opOffOn ∨ code = opSetClear ∨
      tapCount = 0 then
    [(s.doLayerTap val code pressed tapCount).layersStep]
  else if pressed then registerSteps code s.leds
  else unregisterSteps code s.leds

/-- The steps of `perform`. -/
def performSteps (a : Action) (pressed : Bool) (tap : Tap) : List ActionStep :=
  match a.kindId with
  | .lmods => s.modsKeySteps (sideMods a.keyMods true) a.keyCode pressed
  | .rmods => s.modsKeySteps (sideMods a.keyMods false) a.keyCode pressed
  | .lmodsTap => s.tapModsSteps a pressed tap (sideMods a.keyMods true)
  | .rmodsTap => s.tapModsSteps a pressed tap (sideMods a.keyMods false)
  | .usage => usageSteps a pressed
  | .mousekey => [if pressed then .mousekeyOn a.keyCode else .mousekeyOff a.keyCode]
  | .layer => [(s.doLayer a pressed).layersStep]
  | .layerTap | .layerTapExt =>
    s.layerTapSteps a.layerTapVal.toNat a.layerTapCode pressed tap.count
  | .command => if a.commandId = commandBootloader ∧ pressed then clearKeyboardSteps else []
  | .macroPlay | .function | .backlight | .unknown => []

/-! ## They do what the functions do -/

theorem registerMods_eq (mods : BitVec 8) :
    s.registerMods mods = runSteps (modsSteps .addMods mods) s := by
  unfold registerMods modsSteps
  split <;> rfl

theorem unregisterMods_eq (mods : BitVec 8) :
    s.unregisterMods mods = runSteps (modsSteps .delMods mods) s := by
  unfold unregisterMods modsSteps
  split <;> rfl

/-- `register_code` makes the steps of its kind of code. -/
theorem registerCode_eq (code : BitVec 8) :
    s.registerCode code = runSteps (registerSteps code s.leds) s := by
  unfold registerCode registerSteps
  split
  · rfl
  · cases lockingKey code with
    | some cl =>
      dsimp only
      split <;> rfl
    | none =>
      dsimp only
      repeat' split
      all_goals rfl

/-- `unregister_code` makes the steps of its kind of code. -/
theorem unregisterCode_eq (code : BitVec 8) :
    s.unregisterCode code = runSteps (unregisterSteps code s.leds) s := by
  unfold unregisterCode unregisterSteps
  split
  · rfl
  · cases lockingKey code with
    | some cl =>
      dsimp only
      split <;> rfl
    | none =>
      dsimp only
      repeat' split
      all_goals rfl

theorem clearKeyboard_eq_steps : s.clearKeyboard = runSteps clearKeyboardSteps s := rfl

/-- The LEDs are an input; no step but their reading changes them. -/
theorem leds_modsSteps {step : BitVec 8 → ActionStep} (mods : BitVec 8)
    (hstep : ∀ s, ((step mods).apply s).leds = s.leds) :
    (runSteps (modsSteps step mods) s).leds = s.leds := by
  unfold modsSteps
  split
  · exact hstep s
  · rfl

/-- A modified key makes these steps. -/
theorem doMods_eq (mods code : BitVec 8) (pressed : Bool) :
    s.doMods mods code pressed = runSteps (s.modsKeySteps mods code pressed) s := by
  unfold doMods modsKeySteps
  cases pressed with
  | true =>
    have hweak : (if mods ≠ 0 then (s.addWeakMods mods).sendKeyboardReport else s) =
        runSteps (modsSteps .addWeakMods mods) s := by
      unfold modsSteps
      split <;> rfl
    have hleds : (runSteps (modsSteps .addWeakMods mods) s).leds = s.leds :=
      s.leds_modsSteps mods fun s => sendKeyboardReport_leds (s.addWeakMods mods)
    simp only [if_true]
    rw [hweak, registerCode_eq, hleds, runSteps_append]
  | false =>
    simp only [Bool.false_eq_true, if_false]
    rw [runSteps_append, ← unregisterCode_eq]
    unfold modsSteps
    split <;> rfl

/-- A one-shot modifier makes these steps. -/
theorem doOneshot_eq (mods : BitVec 8) (pressed : Bool) (tapCount : Nat) :
    s.doOneshot mods pressed tapCount = runSteps (oneshotSteps mods pressed tapCount) s := by
  unfold doOneshot oneshotSteps
  simp only [registerMods_eq, unregisterMods_eq]
  repeat' split
  all_goals rfl

/-- A tap-toggle modifier makes these steps. -/
theorem doTapToggleMods_eq (mods : BitVec 8) (pressed : Bool) (tapCount : Nat) :
    s.doTapToggleMods mods pressed tapCount =
      runSteps (s.tapToggleSteps mods pressed tapCount) s := by
  unfold doTapToggleMods tapToggleSteps
  simp only [registerMods_eq, unregisterMods_eq]
  repeat' split
  all_goals rfl

/-- A modifier with a tap code makes these steps. -/
theorem doModsTap_eq (mods code : BitVec 8) (pressed : Bool) (tap : Tap) :
    s.doModsTap mods code pressed tap = runSteps (s.modsTapSteps mods code pressed tap) s := by
  unfold doModsTap modsTapSteps
  simp only [registerMods_eq, unregisterMods_eq, registerCode_eq, unregisterCode_eq]
  repeat' split
  all_goals rfl

theorem tapMods_eq (a : Action) (pressed : Bool) (tap : Tap) (mods : BitVec 8) :
    perform.tapMods s a pressed tap mods = runSteps (s.tapModsSteps a pressed tap mods) s := by
  unfold perform.tapMods tapModsSteps
  rw [doOneshot_eq, doTapToggleMods_eq, doModsTap_eq]
  repeat' split
  all_goals rfl

/-- A usage action makes these steps. -/
theorem doUsage_eq (a : Action) (pressed : Bool) :
    s.doUsage a pressed = runSteps (usageSteps a pressed) s := by
  unfold doUsage usageSteps
  generalize a.usagePage.toNat = page
  obtain _ | _ | page := page <;> rfl

/-- A state that differs in the layers only is one step away. -/
theorem eq_layersStep {s' : ActionState}
    (h : s' = { s with layerState := s'.layerState, defaultLayerState := s'.defaultLayerState }) :
    s' = runSteps [s'.layersStep] s := h

/-- A layer action is one step on the layers. -/
theorem doLayer_eq (a : Action) (pressed : Bool) :
    s.doLayer a pressed = runSteps [(s.doLayer a pressed).layersStep] s := by
  apply eq_layersStep
  unfold doLayer
  dsimp only
  repeat' split
  all_goals rfl

/-- A layer-tap action makes these steps. -/
theorem doLayerTap_eq (val : Nat) (code : BitVec 8) (pressed : Bool) (tapCount : Nat) :
    s.doLayerTap val code pressed tapCount =
      runSteps (s.layerTapSteps val code pressed tapCount) s := by
  unfold layerTapSteps
  by_cases hmods : isLayerMods code = true
  · unfold doLayerTap
    simp only [hmods, if_true, registerMods_eq, unregisterMods_eq]
    split <;> rfl
  · rw [if_neg hmods]
    split
    · next hop =>
      apply eq_layersStep
      unfold doLayerTap
      rw [if_neg hmods]
      split
      · split <;> split <;> rfl
      · next h1 =>
        split
        · split <;> rfl
        · next h2 =>
          split
          · split <;> rfl
          · next h3 =>
            split
            · split <;> rfl
            · next h4 =>
              -- a tap code, but no tap
              obtain rfl : tapCount = 0 := by simpa [h1, h2, h3, h4] using hop
              split <;> rfl
    · next hop =>
      simp only [not_or] at hop
      obtain ⟨h1, h2, h3, h4, h0⟩ := hop
      have hcount : tapCount > 0 := Nat.pos_of_ne_zero h0
      unfold doLayerTap
      simp only [hmods, h1, h2, h3, h4, hcount, if_true, Bool.false_eq_true, if_false,
        registerCode_eq, unregisterCode_eq]
      split <;> rfl

/-- **`process_action` makes the steps of its action**, for every action code. -/
theorem perform_eq (a : Action) (pressed : Bool) (tap : Tap) :
    s.perform a pressed tap = runSteps (s.performSteps a pressed tap) s := by
  unfold perform performSteps
  cases a.kindId with
  | lmods | rmods => exact s.doMods_eq _ _ pressed
  | lmodsTap | rmodsTap => exact s.tapMods_eq a pressed tap _
  | usage => exact s.doUsage_eq a pressed
  | mousekey => cases pressed <;> rfl
  | layer => exact s.doLayer_eq a pressed
  | layerTap | layerTapExt => exact s.doLayerTap_eq _ _ pressed _
  | command =>
    dsimp only
    split <;> rfl
  | macroPlay | function | backlight | unknown => rfl

/-- What holds of the steps of every branch holds of the steps of
`process_action`. -/
theorem forall_performSteps {P : ActionStep → Prop} {a : Action} {pressed : Bool} {tap : Tap}
    (hregister : pressed = true → ∀ code, ∀ step ∈ registerSteps code s.leds, P step)
    (hunregister : pressed = false → ∀ code, ∀ step ∈ unregisterSteps code s.leds, P step)
    (hadd : pressed = true → ∀ m, P (.addMods m) ∧ P (.addWeakMods m) ∧ P (.setOneshotMods m))
    (hdel : ∀ m, P (.delMods m) ∧ P (.delWeakMods m)) (hclear : P .clearOneshotMods)
    (hlayers : ∀ layers defaults, P (.setLayers layers defaults))
    (husage : ∀ step ∈ usageSteps a pressed, P step)
    (hmouse : P (if pressed then .mousekeyOn a.keyCode else .mousekeyOff a.keyCode))
    (hcommand : pressed = true → ∀ step ∈ clearKeyboardSteps, P step) :
    ∀ step ∈ s.performSteps a pressed tap, P step := by
  have hnil : ∀ step ∈ ([] : List ActionStep), P step := by simp
  have hone : ∀ {step : ActionStep}, P step → ∀ step' ∈ [step], P step' := by
    intro step h step' h'
    exact List.mem_singleton.mp h' ▸ h
  have hcons : ∀ {step : ActionStep} {steps : List ActionStep}, P step →
      (∀ step' ∈ steps, P step') → ∀ step' ∈ step :: steps, P step' := by
    intro step steps h hsteps
    simpa using ⟨h, hsteps⟩
  have hmods : ∀ {f : BitVec 8 → ActionStep} (m : BitVec 8), P (f m) →
      ∀ step ∈ modsSteps f m, P step := by
    intro f m h step hstep
    exact mem_modsSteps hstep ▸ h
  have hdelMods := fun m => hmods m (hdel m).1
  have hlayersStep : ∀ s' : ActionState, P s'.layersStep := fun s' => hlayers _ _
  -- one helper of `process_action` at a time, a press and a release apart
  have htap : ∀ mods, ∀ step ∈ s.tapModsSteps a pressed tap mods, P step := by
    intro mods
    unfold tapModsSteps oneshotSteps tapToggleSteps modsTapSteps
    cases pressed with
    | true =>
      have hadd' := hadd rfl mods
      simp only [if_true]
      repeat' split
      all_goals first
        | exact hone hadd'.2.2
        | exact hmods mods hadd'.1
        | exact hdelMods mods
        | exact hregister rfl _
        | exact hnil
    | false =>
      simp only [Bool.false_eq_true, if_false]
      repeat' split
      all_goals first
        | exact hcons hclear (hdelMods mods)
        | exact hdelMods mods
        | exact hunregister rfl _
        | exact hnil
  have hkey : ∀ mods, ∀ step ∈ s.modsKeySteps mods a.keyCode pressed, P step := by
    intro mods step hstep
    unfold modsKeySteps at hstep
    cases pressed with
    | true =>
      rcases List.mem_append.mp hstep with h | h
      · exact hmods mods (hadd rfl mods).2.1 step h
      · exact hregister rfl _ step h
    | false =>
      rcases List.mem_append.mp hstep with h | h
      · exact hunregister rfl _ step h
      · exact hmods mods (hdel mods).2 step h
  have hlayer : ∀ val, ∀ step ∈ s.layerTapSteps val a.layerTapCode pressed tap.count, P step := by
    intro val
    unfold layerTapSteps
    cases pressed with
    | true =>
      simp only [if_true]
      repeat' split
      all_goals first
        | exact hcons (hlayersStep _) (hmods _ (hadd rfl _).1)
        | exact hone (hlayersStep _)
        | exact hregister rfl _
    | false =>
      simp only [Bool.false_eq_true, if_false]
      repeat' split
      all_goals first
        | exact hcons (hlayersStep _) (hdelMods _)
        | exact hone (hlayersStep _)
        | exact hunregister rfl _
  unfold performSteps
  cases a.kindId with
  | lmods | rmods => exact hkey _
  | lmodsTap | rmodsTap => exact htap _
  | usage => exact husage
  | mousekey => exact hone hmouse
  | layer => exact hone (hlayersStep _)
  | layerTap | layerTapExt => exact hlayer _
  | command =>
    dsimp only
    split
    · next h => exact hcommand h.2
    · exact hnil
  | macroPlay | function | backlight | unknown => exact hnil

end ActionState

/-! ## Runs of the action layer -/

/-- A call that changes the state of the action layer, or new readings of
the timer and the LEDs. -/
inductive ActionCall where
  | process (record : KeyRecord)
  | mousekeyTask
  | clearKeyboard
  | readings (timer : BitVec 16) (leds : BitVec 8)

namespace ActionCall

def apply (K : Keymap) (s : ActionState) : ActionCall → ActionState
  | process record => (processAction K record s).2
  | mousekeyTask => s.mousekeyTask
  | clearKeyboard => s.clearKeyboard
  | readings timer leds => { s with timer := timer, leds := leds }

def trackSteps (K : Keymap) (s : ActionState) (event : KeyEvent) : List ActionStep :=
  if event.isPressed then [.setLayerPressed event.key (s.currentLayerForKey K event.key)] else []

def steps (K : Keymap) (s : ActionState) : ActionCall → List ActionStep
  | process record =>
    if record.event.isNoEvent then []
    else
      trackSteps K s record.event ++ (s.track K record.event).performSteps
        (s.actionOf K record.event) record.event.pressed record.tap
  | mousekeyTask => if s.mouse.due s.timer then [.mousekeyAdvance] else []
  | clearKeyboard => clearKeyboardSteps
  | readings timer leds => [.readings timer leds]

/-- A call makes the steps of its action, after the lookup. -/
theorem apply_eq (K : Keymap) (s : ActionState) (call : ActionCall) :
    call.apply K s = runSteps (call.steps K s) s := by
  cases call with
  | process record =>
    have htrack : s.track K record.event = runSteps (trackSteps K s record.event) s := by
      unfold ActionState.track trackSteps
      split <;> rfl
    simp only [apply, steps, processAction]
    split
    · rfl
    · rw [runSteps_append, ← htrack]
      exact ActionState.perform_eq _ _ _ _
  | mousekeyTask =>
    simp only [apply, steps, ActionState.mousekeyTask]
    split <;> rfl
  | clearKeyboard => rfl
  | readings timer leds => rfl

end ActionCall

def runCalls (K : Keymap) (calls : List ActionCall) (s : ActionState) : ActionState :=
  calls.foldl (ActionCall.apply K) s

/-- The steps of a run of calls. -/
def stepsOf (K : Keymap) : List ActionCall → ActionState → List ActionStep
  | [], _ => []
  | call :: calls, s => call.steps K s ++ stepsOf K calls (call.apply K s)

/-- A run of calls makes the steps of all of them, in order. -/
theorem runCalls_eq (K : Keymap) (calls : List ActionCall) (s : ActionState) :
    runCalls K calls s = runSteps (stepsOf K calls s) s := by
  induction calls generalizing s with
  | nil => rfl
  | cons call calls ih =>
    rw [stepsOf, runSteps_append, ← ActionCall.apply_eq]
    exact ih _

/-- The state of the action layer at start; `keyboard_protocol` and
`keyboard_nkro` are set once. -/
def startState (protocol : BitVec 8) (nkro : Bool) : ActionState :=
  { keyboardProtocol := protocol, keyboardNkro := nkro }

end Ch583Kbd.Tmk
