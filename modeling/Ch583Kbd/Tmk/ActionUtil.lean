/-
Ch583Kbd.Tmk.ActionUtil — the state the action layer keeps, and the
functions that send it to the host: `action_util.c`, `host.c` and the
sending half of `mousekey.c`.

`ActionState` collects the static variables of `action_layer.c`,
`action_util.c`, `host.c` and `mousekey.c`. Two fields are readings of
the outside world, which the environment sets before each event: `timer`
(`timer_read()`) and `leds` (`host_keyboard_leds()`, whose driver
function has no return statement, so any value is possible). `sent`
records what the host driver was given, oldest first; the driver is set
once at start (`kbd_task_entry`).
-/
import Ch583Kbd.Tmk.ActionCode
import Ch583Kbd.Tmk.Keyboard
import Ch583Kbd.Tmk.KeyReport
import Ch583Kbd.Tmk.MouseKey

namespace Ch583Kbd.Tmk

/-- A call of one of the four `host_driver_t` senders. -/
inductive HostReport where
  | keyboard (raw : Vector (BitVec 8) keyboardReportSize)
  | mouse (report : MouseReport)
  | system (usage : BitVec 16)
  | consumer (usage : BitVec 16)
  deriving DecidableEq, Repr

/-- The state of the action layer. -/
structure ActionState where
  layerState : BitVec 32 := 0
  defaultLayerState : BitVec 32 := 0
  layerPressed : KeyPos → BitVec 8 := fun _ => 0
  realMods : BitVec 8 := 0
  weakMods : BitVec 8 := 0
  oneshotMods : BitVec 8 := 0
  keyReport : KeyReport := {}
  keyboardProtocol : BitVec 8 := 1
  keyboardNkro : Bool := false
  lastSystemReport : BitVec 16 := 0
  lastConsumerReport : BitVec 16 := 0
  mouse : MouseKey := {}
  timer : BitVec 16 := 0
  leds : BitVec 8 := 0
  sent : List HostReport := []

namespace ActionState

/-! ## `host.c` -/

def send (s : ActionState) (r : HostReport) : ActionState := { s with sent := s.sent ++ [r] }

def hostKeyboardSend (s : ActionState) : ActionState := s.send (.keyboard s.keyReport.raw)

def hostMouseSend (s : ActionState) : ActionState := s.send (.mouse s.mouse.report)

def hostSystemSend (s : ActionState) (report : BitVec 16) : ActionState :=
  if report = s.lastSystemReport then s
  else { s with lastSystemReport := report }.send (.system report)

def hostConsumerSend (s : ActionState) (report : BitVec 16) : ActionState :=
  if report = s.lastConsumerReport then s
  else { s with lastConsumerReport := report }.send (.consumer report)

/-! ## Modifiers -/

def addMods (s : ActionState) (mods : BitVec 8) : ActionState :=
  { s with realMods := s.realMods ||| mods }

def delMods (s : ActionState) (mods : BitVec 8) : ActionState :=
  { s with realMods := s.realMods &&& ~~~mods }

def clearMods (s : ActionState) : ActionState := { s with realMods := 0 }

def addWeakMods (s : ActionState) (mods : BitVec 8) : ActionState :=
  { s with weakMods := s.weakMods ||| mods }

def delWeakMods (s : ActionState) (mods : BitVec 8) : ActionState :=
  { s with weakMods := s.weakMods &&& ~~~mods }

def clearWeakMods (s : ActionState) : ActionState := { s with weakMods := 0 }

/-- `set_oneshot_mods` (`ONESHOT_TIMEOUT` is not defined). -/
def setOneshotMods (s : ActionState) (mods : BitVec 8) : ActionState :=
  { s with oneshotMods := mods }

def clearOneshotMods (s : ActionState) : ActionState := { s with oneshotMods := 0 }

/-! ## Keys -/

/-- The test `keyboard_protocol && keyboard_nkro`. -/
def nkroActive (s : ActionState) : Bool := s.keyboardProtocol != 0 && s.keyboardNkro

def addKey (s : ActionState) (key : BitVec 8) : ActionState :=
  { s with keyReport :=
      if s.nkroActive then s.keyReport.addKeyBit key else s.keyReport.addKeyByte key }

def delKey (s : ActionState) (key : BitVec 8) : ActionState :=
  { s with keyReport :=
      if s.nkroActive then s.keyReport.delKeyBit key else s.keyReport.delKeyByte key }

def clearKeys (s : ActionState) : ActionState := { s with keyReport := s.keyReport.clearKeys }

/-- `send_keyboard_report`: a one-shot modifier is in this report and, if
a key is down, in no later one. -/
def sendKeyboardReport (s : ActionState) : ActionState :=
  let mods := s.realMods ||| s.weakMods
  let s' :=
    if s.oneshotMods ≠ 0 then
      let s1 := { s with keyReport := s.keyReport.setMods (mods ||| s.oneshotMods) }
      if s1.keyReport.hasAnykey ≠ 0 then s1.clearOneshotMods else s1
    else { s with keyReport := s.keyReport.setMods mods }
  s'.hostKeyboardSend

/-! ## Mouse keys -/

def mousekeySend (s : ActionState) : ActionState :=
  let s' := s.hostMouseSend
  { s' with mouse := { s'.mouse with lastTimer := s'.timer } }

def mousekeyTask (s : ActionState) : ActionState :=
  if s.mouse.due s.timer then { s with mouse := s.mouse.advance }.mousekeySend else s

end ActionState

end Ch583Kbd.Tmk
