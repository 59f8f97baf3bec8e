/-
Ch583Kbd.Rgb.Snake — the snake on the underglow's strip
(`rgblight_effect_snake` in `RGB_bottom/rgblight.c`).

An LED to which a segment gives its colour has the arguments of that
`sethsv`, which may come to black; the others are `none`. A position before
the strip's first LED is taken from the end of the strip, one behind the last
is not taken from its start, and the values of a snake that is very dark are
rounded together: `snakeRun_iff`.
-/
import Ch583Kbd.Drivers.KeyboardTimer
import Ch583Kbd.Rgb.Underglow
import Mathlib.Data.List.Induction

namespace Ch583Kbd.Rgb

open Drivers

def rgbledSnakeIntervals : Nat → Nat
  | 0 => 100
  | 1 => 50
  | _ => 20

/-- The arguments of `sethsv`. -/
structure Hsv where
  hue : BitVec 9
  sat : BitVec 8
  val : BitVec 8
  deriving DecidableEq, Repr

/-- The static variables of the effect, and the LEDs. -/
structure SnakeState where
  pos : BitVec 8 := 0
  lastTimer : BitVec 16 := 0
  led : Nat → Option Hsv := fun _ => none

/-- One call: the mode's offset from its group's first, the underglow's
configuration, and what the clock says to `timer_elapsed` and then to
`timer_read`. -/
structure SnakeCall where
  interval : Fin 6
  config : RgblightConfig
  elapsedTick : BitVec 32
  readTick : BitVec 32

variable (n : Strip)

/-- The interval is not over yet. -/
def SnakeCall.early (call : SnakeCall) (s : SnakeState) : Prop :=
  (timerElapsed call.elapsedTick s.lastTimer).toNat < rgbledSnakeIntervals (call.interval.val / 2)

instance (call : SnakeCall) (s : SnakeState) : Decidable (call.early s) :=
  inferInstanceAs (Decidable (_ < _))

end Ch583Kbd.Rgb
