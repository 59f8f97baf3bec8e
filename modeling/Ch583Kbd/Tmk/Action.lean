/-
Ch583Kbd.Tmk.Action — `process_action` and the functions it is made of
(`action.c`).

The build of `zora61` has no `COMMAND_ENABLE` (`command_proc` is false),
no `BACKLIGHT_ENABLE`, and the weak defaults of `hook_process_action`
(false), `action_get_macro` (`MACRO_NONE`, which `action_macro_play`
returns from at once) and `action_function` (empty); `bootloader_jump` is
empty too. `process_record_kb` is taken to return true: its body has no
return statement. `wait_ms` is left out.
-/
import Ch583Kbd.Tmk.ActionLayer

namespace Ch583Kbd.Tmk

def tappingToggle : Nat := 5

/-- The lock key that a `KC_LOCKING_*` code sends, and its LED bit. -/
def lockingKey (code : BitVec 8) : Option (BitVec 8 × BitVec 8) :=
  if code = kcLockingCaps then some (kcCapslock, 1#8 <<< 1)
  else if code = kcLockingNum then some (kcNumlock, 1#8 <<< 0)
  else if code = kcLockingScroll then some (kcScrolllock, 1#8 <<< 2)
  else none

/-- The modifier byte of a `key` action: the right-hand modifiers are in
the upper half. -/
def sideMods (mods : BitVec 4) (left : Bool) : BitVec 8 :=
  if left then mods.setWidth 8 else mods.setWidth 8 <<< 4

/-- The modifier byte of a layer action with modifiers (codes 0xC0 to
0xDF). -/
def layerTapMods (code : BitVec 8) : BitVec 8 :=
  if code &&& 0x10 ≠ 0 then (code &&& 0x0F) <<< 4 else code &&& 0x0F

/-- `case 0xc0 ... 0xdf`. -/
def isLayerMods (code : BitVec 8) : Bool := 0xC0#8 ≤ code && code ≤ 0xDF#8

namespace ActionState

/-! ## Registering codes and modifiers -/

/-- Press and release a lock key. -/
def tapLock (s : ActionState) (c : BitVec 8) : ActionState :=
  ((s.addKey c).sendKeyboardReport.delKey c).sendKeyboardReport

def registerCode (s : ActionState) (code : BitVec 8) : ActionState :=
  if code = kcNo then s
  else
    match lockingKey code with
    | some (c, l) =>
      -- resync: ignored if the lock indicator is already on
      if s.leds &&& l ≠ 0 then s else s.tapLock c
    | none =>
      if isKey code then (s.addKey code).sendKeyboardReport
      else if isMod code then (s.addMods (modBit code)).sendKeyboardReport
      else if isSystem code then s.hostSystemSend (keycode2System code)
      else if isConsumer code then s.hostConsumerSend (keycode2Consumer code)
      else s

def unregisterCode (s : ActionState) (code : BitVec 8) : ActionState :=
  if code = kcNo then s
  else
    match lockingKey code with
    | some (c, l) =>
      -- resync: ignored if the lock indicator is already off
      if s.leds &&& l = 0 then s else s.tapLock c
    | none =>
      if isKey code then (s.delKey code).sendKeyboardReport
      else if isMod code then (s.delMods (modBit code)).sendKeyboardReport
      else if isSystem code then s.hostSystemSend 0
      else if isConsumer code then s.hostConsumerSend 0
      else s

def registerMods (s : ActionState) (mods : BitVec 8) : ActionState :=
  if mods ≠ 0 then (s.addMods mods).sendKeyboardReport else s

def unregisterMods (s : ActionState) (mods : BitVec 8) : ActionState :=
  if mods ≠ 0 then (s.delMods mods).sendKeyboardReport else s

def clearKeyboardButMods (s : ActionState) : ActionState :=
  let s1 := s.clearWeakMods.clearKeys.sendKeyboardReport
  let s2 := { s1 with mouse := s1.mouse.clear }.mousekeySend
  (s2.hostSystemSend 0).hostConsumerSend 0

def clearKeyboard (s : ActionState) : ActionState := s.clearMods.clearKeyboardButMods

/-! ## The cases of `process_action` -/

/-- `ACT_LMODS`, `ACT_RMODS`. -/
def doMods (s : ActionState) (mods : BitVec 8) (code : BitVec 8) (pressed : Bool) :
    ActionState :=
  if pressed then
    (if mods ≠ 0 then (s.addWeakMods mods).sendKeyboardReport else s).registerCode code
  else
    let s' := s.unregisterCode code
    if mods ≠ 0 then (s'.delWeakMods mods).sendKeyboardReport else s'

/-- `ACT_LMODS_TAP`, `ACT_RMODS_TAP` with `MODS_ONESHOT`. -/
def doOneshot (s : ActionState) (mods : BitVec 8) (pressed : Bool) (tapCount : Nat) :
    ActionState :=
  if pressed then
    if tapCount = 1 then s.setOneshotMods mods else s.registerMods mods
  else
    if tapCount = 1 then s else s.clearOneshotMods.unregisterMods mods

/-- `ACT_LMODS_TAP`, `ACT_RMODS_TAP` with `MODS_TAP_TOGGLE`. -/
def doTapToggleMods (s : ActionState) (mods : BitVec 8) (pressed : Bool) (tapCount : Nat) :
    ActionState :=
  if pressed then
    if tapCount ≤ tappingToggle then
      if mods &&& s.realMods ≠ 0 then s.unregisterMods mods else s.registerMods mods
    else s
  else
    if tapCount < tappingToggle then s.unregisterMods mods else s

/-- `ACT_LMODS_TAP`, `ACT_RMODS_TAP` with a tap code, without the reset of
the tap count. -/
def doModsTap (s : ActionState) (mods : BitVec 8) (code : BitVec 8) (pressed : Bool)
    (tap : Tap) : ActionState :=
  if pressed then
    if tap.count > 0 then
      if tap.interrupted then s.registerMods mods else s.registerCode code
    else s.registerMods mods
  else
    if tap.count > 0 then s.unregisterCode code else s.unregisterMods mods

/-- `ACT_USAGE`. -/
def doUsage (s : ActionState) (a : Action) (pressed : Bool) : ActionState :=
  let code := if pressed then a.usageCode.setWidth 16 else 0
  match a.usagePage.toNat with
  | 0 => s.hostSystemSend code
  | 1 => s.hostConsumerSend code
  | _ => s

/-- `ACT_MOUSEKEY`. -/
def doMousekey (s : ActionState) (code : BitVec 8) (pressed : Bool) : ActionState :=
  let mouse := if pressed then s.mouse.on code else s.mouse.off code
  { s with mouse := mouse }.mousekeySend

/-- `ACT_LAYER`. -/
def doLayer (s : ActionState) (a : Action) (pressed : Bool) : ActionState :=
  let shift := a.bitopPart.toNat * 4
  let bits : BitVec 32 := a.bitopBits.setWidth 32 <<< shift
  let mask : BitVec 32 := if a.bitopXbit ≠ 0 then ~~~(0xF#32 <<< shift) else 0
  if a.bitopOn = 0 then
    if !pressed then
      match a.bitopOp.toNat with
      | 0 => s.defaultLayerAnd (bits ||| mask)
      | 1 => s.defaultLayerOr (bits ||| mask)
      | 2 => s.defaultLayerXor (bits ||| mask)
      | _ => (s.defaultLayerAnd mask).defaultLayerOr bits
    else s
  else
    if (if pressed then a.bitopOn &&& 1 else a.bitopOn &&& 2) ≠ 0 then
      match a.bitopOp.toNat with
      | 0 => s.layerAnd (bits ||| mask)
      | 1 => s.layerOr (bits ||| mask)
      | 2 => s.layerXor (bits ||| mask)
      | _ => (s.layerAnd mask).layerOr bits
    else s

/-- `ACT_LAYER_TAP`, `ACT_LAYER_TAP_EXT`. -/
def doLayerTap (s : ActionState) (val : Nat) (code : BitVec 8) (pressed : Bool)
    (tapCount : Nat) : ActionState :=
  if isLayerMods code then
    if pressed then (s.layerOn val).registerMods (layerTapMods code)
    else (s.layerOff val).unregisterMods (layerTapMods code)
  else if code = opTapToggle then
    if pressed then
      if tapCount < tappingToggle then s.layerInvert val else s
    else
      if tapCount ≤ tappingToggle then s.layerInvert val else s
  else if code = opOnOff then
    if pressed then s.layerOn val else s.layerOff val
  else if code = opOffOn then
    if pressed then s.layerOff val else s.layerOn val
  else if code = opSetClear then
    if pressed then s.layerMove val else s.layerClear
  else
    if pressed then
      if tapCount > 0 then s.registerCode code else s.layerOn val
    else
      if tapCount > 0 then s.unregisterCode code else s.layerOff val

/-- The `switch` of `process_action` on the state. -/
def perform (s : ActionState) (a : Action) (pressed : Bool) (tap : Tap) : ActionState :=
  match a.kindId with
  | .lmods => s.doMods (sideMods a.keyMods true) a.keyCode pressed
  | .rmods => s.doMods (sideMods a.keyMods false) a.keyCode pressed
  | .lmodsTap => tapMods (sideMods a.keyMods true)
  | .rmodsTap => tapMods (sideMods a.keyMods false)
  | .usage => s.doUsage a pressed
  | .mousekey => s.doMousekey a.keyCode pressed
  | .layer => s.doLayer a pressed
  | .layerTap | .layerTapExt => s.doLayerTap a.layerTapVal.toNat a.layerTapCode pressed tap.count
  | .command => if a.commandId = commandBootloader ∧ pressed then s.clearKeyboard else s
  | .macroPlay | .function | .backlight | .unknown => s
where
  tapMods (mods : BitVec 8) : ActionState :=
    if a.keyCode = modsOneshot then s.doOneshot mods pressed tap.count
    else if a.keyCode = modsTapToggle then s.doTapToggleMods mods pressed tap.count
    else s.doModsTap mods a.keyCode pressed tap

end ActionState

/-- A modifier tap key with a tap code, the only action that changes the
record it is given. -/
def Action.isModsTapKey (a : Action) : Bool :=
  (a.kindId == .lmodsTap || a.kindId == .rmodsTap) &&
    a.keyCode != modsOneshot && a.keyCode != modsTapToggle

/-- "ad hoc: set 0 to cancel tap". -/
def cancelTap (a : Action) (record : KeyRecord) : KeyRecord :=
  if a.isModsTapKey ∧ record.event.pressed ∧ record.tap.count > 0 ∧ record.tap.interrupted then
    record.withCount 0
  else record

def processAction (K : Keymap) (record : KeyRecord) (s : ActionState) :
    KeyRecord × ActionState :=
  if record.event.isNoEvent then (record, s)
  else
    let action := s.actionOf K record.event
    (cancelTap action record,
      (s.track K record.event).perform action record.event.pressed record.tap)

/-- The `switch` of `is_tap_key`. -/
def Action.isTap (a : Action) : Bool :=
  match a.kindId with
  | .lmodsTap | .rmodsTap => true
  | .layerTap | .layerTapExt =>
    !(a.layerTapCode == opOnOff || a.layerTapCode == opOffOn || a.layerTapCode == opSetClear ||
      isLayerMods a.layerTapCode)
  | .macroPlay | .function => a.funcOpt &&& funcTap != 0
  | _ => false

def isTapKey (K : Keymap) (event : KeyEvent) (s : ActionState) : Bool × ActionState :=
  if event.isNoEvent then (false, s)
  else
    let (action, s') := s.layerSwitchGetAction K event
    (action.isTap, s')

end Ch583Kbd.Tmk
