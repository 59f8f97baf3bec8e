/-
Ch583Kbd.Tmk.MouseKey — mouse keys (`mousekey.c`).

The four axis bytes of `report_mouse_t` are `int8_t`s that only ever
receive `±move_unit()` and `±wheel_unit()`, between -127 and 127, or a
value scaled towards zero; they are `Int`s here. The factor `0.7` of the
diagonal move is the rational 7/10, truncated towards zero.

Sending the report is left to `ActionUtil.mousekeySend`; this module has
the state and its updates.
-/
namespace Ch583Kbd.Tmk

structure MouseReport where
  buttons : BitVec 8 := 0
  x : Int := 0
  y : Int := 0
  v : Int := 0
  h : Int := 0
  deriving DecidableEq, Repr

/-- The `mk_*` parameters with their defaults (`mousekey.h`). -/
structure MouseParams where
  delay : BitVec 8 := 30
  interval : BitVec 8 := 50
  maxSpeed : BitVec 8 := 10
  timeToMax : BitVec 8 := 20
  wheelMaxSpeed : BitVec 8 := 8
  wheelTimeToMax : BitVec 8 := 40
  deriving DecidableEq, Repr

/-- The static variables of `mousekey.c`. -/
structure MouseKey where
  report : MouseReport := {}
  rep : BitVec 8 := 0
  accel : BitVec 8 := 0
  params : MouseParams := {}
  lastTimer : BitVec 16 := 0
  deriving DecidableEq, Repr

def mousekeyMoveDelta : Nat := 5

def mousekeyWheelDelta : Nat := 1

/-- `MOUSEKEY_MOVE_MAX` and `MOUSEKEY_WHEEL_MAX`. -/
def mousekeyMax : Nat := 127

namespace MouseKey

/-- The common body of `move_unit` and `wheel_unit`. -/
def unit (m : MouseKey) (delta : Nat) (maxSpeed timeToMax : BitVec 8) : Nat :=
  let unit :=
    if m.accel.getLsbD 0 then delta * maxSpeed.toNat / 4
    else if m.accel.getLsbD 1 then delta * maxSpeed.toNat / 2
    else if m.accel.getLsbD 2 then delta * maxSpeed.toNat
    else if m.rep = 0 then delta
    else if timeToMax ≤ m.rep then delta * maxSpeed.toNat
    else delta * maxSpeed.toNat * m.rep.toNat / timeToMax.toNat
  if mousekeyMax < unit then mousekeyMax else if unit = 0 then 1 else unit

def moveUnit (m : MouseKey) : Int :=
  m.unit mousekeyMoveDelta m.params.maxSpeed m.params.timeToMax

def wheelUnit (m : MouseKey) : Int :=
  m.unit mousekeyWheelDelta m.params.wheelMaxSpeed m.params.wheelTimeToMax

/-- The test with which `mousekey_task` and `mousekey_off` recognise a
report without motion. -/
def still (r : MouseReport) : Bool := r.x == 0 && r.y == 0 && r.v == 0 && r.h == 0

/-- `mousekey_on`, by key code from `KC_MS_UP` to `KC_MS_ACCEL2`. -/
def on (m : MouseKey) (code : BitVec 8) : MouseKey :=
  match code.toNat with
  | 0xF0 => { m with report := { m.report with y := m.moveUnit * -1 } }
  | 0xF1 => { m with report := { m.report with y := m.moveUnit } }
  | 0xF2 => { m with report := { m.report with x := m.moveUnit * -1 } }
  | 0xF3 => { m with report := { m.report with x := m.moveUnit } }
  | 0xF9 => { m with report := { m.report with v := m.wheelUnit } }
  | 0xFA => { m with report := { m.report with v := m.wheelUnit * -1 } }
  | 0xFB => { m with report := { m.report with h := m.wheelUnit * -1 } }
  | 0xFC => { m with report := { m.report with h := m.wheelUnit } }
  | 0xF4 => { m with report := { m.report with buttons := m.report.buttons ||| 1#8 } }
  | 0xF5 => { m with report := { m.report with buttons := m.report.buttons ||| 2#8 } }
  | 0xF6 => { m with report := { m.report with buttons := m.report.buttons ||| 4#8 } }
  | 0xF7 => { m with report := { m.report with buttons := m.report.buttons ||| 8#8 } }
  | 0xF8 => { m with report := { m.report with buttons := m.report.buttons ||| 16#8 } }
  | 0xFD => { m with accel := m.accel ||| 1#8 }
  | 0xFE => { m with accel := m.accel ||| 2#8 }
  | 0xFF => { m with accel := m.accel ||| 4#8 }
  | _ => m

/-- The `if` chain of `mousekey_off`. A direction is only stopped while
the axis still has its sign. -/
def release (m : MouseKey) (code : BitVec 8) : MouseKey :=
  match code.toNat with
  | 0xF0 => if m.report.y < 0 then { m with report := { m.report with y := 0 } } else m
  | 0xF1 => if m.report.y > 0 then { m with report := { m.report with y := 0 } } else m
  | 0xF2 => if m.report.x < 0 then { m with report := { m.report with x := 0 } } else m
  | 0xF3 => if m.report.x > 0 then { m with report := { m.report with x := 0 } } else m
  | 0xF9 => if m.report.v > 0 then { m with report := { m.report with v := 0 } } else m
  | 0xFA => if m.report.v < 0 then { m with report := { m.report with v := 0 } } else m
  | 0xFB => if m.report.h < 0 then { m with report := { m.report with h := 0 } } else m
  | 0xFC => if m.report.h > 0 then { m with report := { m.report with h := 0 } } else m
  | 0xF4 => { m with report := { m.report with buttons := m.report.buttons &&& ~~~1#8 } }
  | 0xF5 => { m with report := { m.report with buttons := m.report.buttons &&& ~~~2#8 } }
  | 0xF6 => { m with report := { m.report with buttons := m.report.buttons &&& ~~~4#8 } }
  | 0xF7 => { m with report := { m.report with buttons := m.report.buttons &&& ~~~8#8 } }
  | 0xF8 => { m with report := { m.report with buttons := m.report.buttons &&& ~~~16#8 } }
  | 0xFD => { m with accel := m.accel &&& ~~~1#8 }
  | 0xFE => { m with accel := m.accel &&& ~~~2#8 }
  | 0xFF => { m with accel := m.accel &&& ~~~4#8 }
  | _ => m

def off (m : MouseKey) (code : BitVec 8) : MouseKey :=
  let m := m.release code
  if still m.report then { m with rep := 0 } else m

def clear (m : MouseKey) : MouseKey :=
  { m with report := {}, rep := 0, accel := 0 }

/-- An axis value recomputed from its sign, as the eight `if`s of
`mousekey_task` do. -/
def resign (axis unit : Int) : Int :=
  if axis > 0 then unit else if axis < 0 then unit * -1 else axis

/-- The motion step of `mousekey_task`, after its two early returns. -/
def advance (m : MouseKey) : MouseKey :=
  let m := if m.rep ≠ 255 then { m with rep := m.rep + 1 } else m
  let x := resign m.report.x m.moveUnit
  let y := resign m.report.y m.moveUnit
  let diagonal := x ≠ 0 ∧ y ≠ 0
  { m with report :=
      { m.report with
        x := if diagonal then (x * 7).tdiv 10 else x
        y := if diagonal then (y * 7).tdiv 10 else y
        v := resign m.report.v m.wheelUnit
        h := resign m.report.h m.wheelUnit } }

/-- Whether `mousekey_task` goes past its two early returns. -/
def due (m : MouseKey) (timer : BitVec 16) : Bool :=
  let wait := if m.rep ≠ 0 then m.params.interval.toNat else m.params.delay.toNat * 10
  wait ≤ (timer - m.lastTimer).toNat && !still m.report

end MouseKey

end Ch583Kbd.Tmk
