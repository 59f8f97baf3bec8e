/-
Ch583Kbd.Tmk.Keyboard — key positions, key events and key records:
`keyboard.h`, the time difference of `timer.h` and the record types of
`action.h`.

Machine integers are `BitVec`s of the C width. The tap count is the
4-bit field `tap_t.count`; it is a `Nat` here because the only place that
raises it is guarded at 15.

`KeyRecord.origin` is the one field that `keyrecord_t` does not have. It
numbers the submission a record stands for and is copied whenever the
record is; a release that the tapping code makes up has none. No
definition of the model reads it.
-/
namespace Ch583Kbd.Tmk

structure KeyPos where
  row : BitVec 8
  col : BitVec 8
  deriving DecidableEq, Repr

structure KeyEvent where
  key : KeyPos := ⟨0, 0⟩
  pressed : Bool := false
  time : BitVec 16 := 0
  deriving DecidableEq, Repr

/-- `IS_NOEVENT`: time 0 is the empty event, position (255, 255) the
TICK. -/
def KeyEvent.isNoEvent (e : KeyEvent) : Bool :=
  e.time == 0 || (e.key.row == 255 && e.key.col == 255)

def KeyEvent.isPressed (e : KeyEvent) : Bool := !e.isNoEvent && e.pressed

def KeyEvent.isReleased (e : KeyEvent) : Bool := !e.isNoEvent && !e.pressed

/-- What `keyboard_task` passes on: a key event, or a `TICK`. -/
def KeyEvent.WellFormed (e : KeyEvent) : Prop :=
  e.isNoEvent = true → e.key = ⟨255, 255⟩ ∧ e.pressed = false

instance (e : KeyEvent) : Decidable e.WellFormed :=
  inferInstanceAs (Decidable (_ → _))

/-- `TICK`, where `timer` is what `timer_read()` returned. -/
def KeyEvent.tick (timer : BitVec 16) : KeyEvent :=
  { key := ⟨255, 255⟩, pressed := false, time := timer ||| 1 }

def timerDiff16 (a b : BitVec 16) : BitVec 16 := a - b

structure Tap where
  interrupted : Bool := false
  count : Nat := 0
  deriving DecidableEq, Repr

/-- `keyrecord_t`, with the submission number it stands for. -/
structure KeyRecord where
  event : KeyEvent := {}
  tap : Tap := {}
  origin : Option Nat := none
  deriving DecidableEq, Repr

namespace KeyRecord

/-- Which submission a record stands for, and its event. -/
def tag (r : KeyRecord) : Option Nat × KeyEvent := (r.origin, r.event)

def withTap (r : KeyRecord) (tap : Tap) : KeyRecord := { r with tap := tap }

/-- `record.tap.count = count`. -/
def withCount (r : KeyRecord) (count : Nat) : KeyRecord :=
  r.withTap { r.tap with count := count }

/-- `record.tap.interrupted = true`. -/
def interrupt (r : KeyRecord) : KeyRecord := r.withTap { r.tap with interrupted := true }

@[simp] theorem withTap_event (r : KeyRecord) (t : Tap) : (r.withTap t).event = r.event := rfl
@[simp] theorem withTap_tap (r : KeyRecord) (t : Tap) : (r.withTap t).tap = t := rfl
@[simp] theorem withTap_origin (r : KeyRecord) (t : Tap) : (r.withTap t).origin = r.origin := rfl
@[simp] theorem withTap_tag (r : KeyRecord) (t : Tap) : (r.withTap t).tag = r.tag := rfl
@[simp] theorem withCount_tag (r : KeyRecord) (n : Nat) : (r.withCount n).tag = r.tag := rfl
@[simp] theorem interrupt_tag (r : KeyRecord) : r.interrupt.tag = r.tag := rfl
@[simp] theorem withCount_event (r : KeyRecord) (n : Nat) : (r.withCount n).event = r.event := rfl
@[simp] theorem withCount_count (r : KeyRecord) (n : Nat) : (r.withCount n).tap.count = n := rfl
@[simp] theorem withCount_interrupted (r : KeyRecord) (n : Nat) :
    (r.withCount n).tap.interrupted = r.tap.interrupted := rfl
@[simp] theorem withCount_origin (r : KeyRecord) (n : Nat) :
    (r.withCount n).origin = r.origin := rfl
@[simp] theorem interrupt_event (r : KeyRecord) : r.interrupt.event = r.event := rfl
@[simp] theorem interrupt_count (r : KeyRecord) : r.interrupt.tap.count = r.tap.count := rfl
@[simp] theorem interrupt_origin (r : KeyRecord) : r.interrupt.origin = r.origin := rfl
@[simp] theorem interrupt_interrupted (r : KeyRecord) : r.interrupt.tap.interrupted = true := rfl

end KeyRecord

/-! ## The three sorts of event -/

/-- `IS_PRESSED` is a real event whose key is down. -/
theorem KeyEvent.isPressed_iff (e : KeyEvent) :
    e.isPressed = true ↔ e.isNoEvent = false ∧ e.pressed = true := by
  simp [KeyEvent.isPressed]

/-- `IS_RELEASED` is a real event whose key is up. -/
theorem KeyEvent.isReleased_iff (e : KeyEvent) :
    e.isReleased = true ↔ e.isNoEvent = false ∧ e.pressed = false := by
  simp [KeyEvent.isReleased]

/-- A press is a real event: its time is never zero. -/
theorem KeyEvent.WellFormed.real_of_pressed {e : KeyEvent} (h : e.WellFormed)
    (hp : e.pressed = true) : e.isNoEvent = false := by
  cases hn : e.isNoEvent with
  | false => rfl
  | true => rw [(h hn).2] at hp; simp at hp

/-- An event of the same key as a real event is real. -/
theorem KeyEvent.WellFormed.real_of_key {e e' : KeyEvent} (h : e.WellFormed)
    (hk : e.key = e'.key) (hr : e'.isNoEvent = false) : e.isNoEvent = false := by
  cases hn : e.isNoEvent with
  | false => rfl
  | true =>
    rw [(h hn).1] at hk
    simp [KeyEvent.isNoEvent, ← hk] at hr

end Ch583Kbd.Tmk
