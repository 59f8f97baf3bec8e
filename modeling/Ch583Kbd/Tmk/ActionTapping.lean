/-
Ch583Kbd.Tmk.ActionTapping — the tapping state machine and its waiting
buffer (`action_tapping.c`), and `action_exec` (`action.c`).

`TappingState` is generic in the type of the waiting buffer. The code's
machine has a ring of eight slots (`Tapping`); read through
`RingQueue.toList` it is a machine with a list (`View`), and the results
about runs are about that one.

Two fields are not in the source and are read by no definition of the
code: `submitted`, the events `action_exec` was called with, and `handed`,
the calls of `process_action` with a real event. `KeyRecord.origin` is an
index into `submitted`.

`TAPPING_TERM` is 200, so the branch `TAPPING_TERM >= 500` is not
compiled.
-/
import Ch583Kbd.Lib.RingQueue
import Ch583Kbd.Tmk.Action

namespace Ch583Kbd.Tmk

open Ch583Kbd.Lib

def tappingTerm : Nat := 200

abbrev waitingBufferSize : Nat := 8

/-- One call of `process_action`: the record it was given, the record as
it left it and the action it looked up. -/
structure Handed where
  before : KeyRecord
  after : KeyRecord
  action : Action
  deriving DecidableEq, Repr

/-- The static variables of `action_tapping.c`, with the state of the
action layer. -/
structure TappingState (Q : Type) where
  tappingKey : KeyRecord := {}
  waitingBuffer : Q
  act : ActionState := {}
  submitted : List KeyEvent := []
  handed : List Handed := []

abbrev Tapping := TappingState (RingQueue KeyRecord waitingBufferSize)

abbrev View := TappingState (List KeyRecord)

/-- What `waiting_buffer_clear` leaves of the indices; the slots are those
of `slots`. -/
def clearedBuffer (slots : Vector KeyRecord waitingBufferSize) :
    RingQueue KeyRecord waitingBufferSize :=
  { slots := slots, head := 0, tail := 0 }

def Tapping.init : Tapping :=
  { waitingBuffer := clearedBuffer (Vector.replicate waitingBufferSize {}) }

namespace TappingState

variable {Q : Type}

/-! ## The macros -/

/-- `IS_TAPPING`. -/
def isTapping (s : TappingState Q) : Bool := !s.tappingKey.event.isNoEvent

/-- `IS_TAPPING_PRESSED`. -/
def isTappingPressed (s : TappingState Q) : Bool := s.isTapping && s.tappingKey.event.pressed

/-- `IS_TAPPING_RELEASED`. -/
def isTappingReleased (s : TappingState Q) : Bool := s.isTapping && !s.tappingKey.event.pressed

/-- `IS_TAPPING_KEY`. -/
def isTappingKey (s : TappingState Q) (k : KeyPos) : Bool :=
  s.isTapping && s.tappingKey.event.key == k

/-- `WITHIN_TAPPING_TERM`. -/
def withinTappingTerm (s : TappingState Q) (e : KeyEvent) : Bool :=
  (timerDiff16 e.time s.tappingKey.event.time).toNat < tappingTerm

/-! ## Calls into the action layer -/

/-- `process_action(&record)`. -/
def hand (K : Keymap) (record : KeyRecord) (s : TappingState Q) : KeyRecord × TappingState Q :=
  let (record', act') := processAction K record s.act
  let entry := if record.event.isNoEvent then []
    else [⟨record, record', s.act.actionOf K record.event⟩]
  (record', { s with act := act', handed := s.handed ++ entry })

/-- `process_action(&tapping_key)`. -/
def handTappingKey (K : Keymap) (s : TappingState Q) : TappingState Q :=
  let (record', s') := s.hand K s.tappingKey
  { s' with tappingKey := record' }

/-- Process the record in place and report it consumed. -/
def pass (K : Keymap) (keyp : KeyRecord) (s : TappingState Q) :
    Bool × KeyRecord × TappingState Q :=
  let (keyp', s') := s.hand K keyp
  (true, keyp', s')

def isTapKey (K : Keymap) (event : KeyEvent) (s : TappingState Q) : Bool × TappingState Q :=
  let (tap, act') := Tmk.isTapKey K event s.act
  (tap, { s with act := act' })

/-- "Modifier should be retained till end of this tapping": the `switch`
of the early release. -/
def retains (K : Keymap) (keyp : KeyRecord) (s : TappingState Q) : Bool :=
  let action := s.act.actionOf K keyp.event
  match action.kindId with
  | .lmods | .rmods => (action.keyMods != 0 && action.keyCode == 0) || isMod action.keyCode
  | .lmodsTap | .rmodsTap =>
    (action.keyMods != 0 && keyp.tap.count == 0) || isMod action.keyCode
  | _ => false

/-- The release that ends a tap of more than one: "unregister key". -/
def lastTapRelease (s : TappingState Q) (time : BitVec 16) : KeyRecord :=
  { event := { key := s.tappingKey.event.key, pressed := false, time := time }
    tap := s.tappingKey.tap }

/-! ## Waiting buffer -/

/-- `waiting_buffer_enq`; `none` is the overflow. -/
def waitingBufferEnq (record : KeyRecord) (s : Tapping) : Option Tapping :=
  if record.event.isNoEvent then some s
  else if s.waitingBuffer.isFull then none
  else some { s with waitingBuffer := s.waitingBuffer.push record }

def waitingBufferClear (s : Tapping) : Tapping :=
  { s with waitingBuffer := clearedBuffer s.waitingBuffer.slots }

def waitingBufferTyped (event : KeyEvent) (s : Tapping) : Bool :=
  s.waitingBuffer.indices.any fun i =>
    let buffered := (s.waitingBuffer.slot i).event
    event.key == buffered.key && event.pressed != buffered.pressed

def waitingBufferScanTap (K : Keymap) (s : Tapping) : Tapping :=
  if s.tappingKey.tap.count > 0 then s
  else if !s.tappingKey.event.pressed then s
  else
    let found := s.waitingBuffer.indices.find? fun i =>
      let buffered := (s.waitingBuffer.slot i).event
      s.isTappingKey buffered.key && !buffered.pressed && s.withinTappingTerm buffered
    match found with
    | none => s
    | some i =>
      let s' := { s with
        tappingKey := s.tappingKey.withCount 1
        waitingBuffer := s.waitingBuffer.setSlot i ((s.waitingBuffer.slot i).withCount 1) }
      s'.handTappingKey K

/-! ## `process_tapping` -/

/-- "Start new tap with releasing last tap" and "Start while last tap". -/
def startWhileTapped (K : Keymap) (keyp : KeyRecord) (s : Tapping) : Tapping :=
  let s' :=
    if s.tappingKey.tap.count > 1 then (s.hand K (s.lastTapRelease keyp.event.time)).2 else s
  waitingBufferScanTap K { s' with tappingKey := keyp }

/-- `process_tapping`: whether the record was consumed, the record behind
`keyp` and the state afterwards. -/
def processTapping (K : Keymap) (keyp : KeyRecord) (s : Tapping) : Bool × KeyRecord × Tapping :=
  let event := keyp.event
  if s.isTappingPressed then
    if s.withinTappingTerm event then
      if s.tappingKey.tap.count = 0 then
        if s.isTappingKey event.key ∧ !event.pressed then
          -- first tap
          let s' := { s with tappingKey := s.tappingKey.withCount 1 }.handTappingKey K
          (false, keyp.withTap s'.tappingKey.tap, s')
        else if event.isReleased ∧ !s.waitingBufferTyped event then
          -- release of a key pressed before tapping
          if s.retains K keyp then (false, keyp, s) else s.pass K keyp
        else
          let s' := if event.pressed then { s with tappingKey := s.tappingKey.interrupt } else s
          (false, keyp, s')
      else
        if s.isTappingKey event.key ∧ !event.pressed then
          let (keyp', s') := s.hand K (keyp.withTap s.tappingKey.tap)
          (true, keyp', { s' with tappingKey := keyp' })
        else
          let (tap, s') := s.isTapKey K event
          if tap ∧ event.pressed then (true, keyp, s'.startWhileTapped K keyp)
          else s'.pass K keyp
    else
      if s.tappingKey.tap.count = 0 then
        -- timeout, not a tap
        let s' := s.handTappingKey K
        (false, keyp, { s' with tappingKey := {} })
      else
        if s.isTappingKey event.key ∧ !event.pressed then
          let (keyp', s') := s.hand K (keyp.withTap s.tappingKey.tap)
          (true, keyp', { s' with tappingKey := {} })
        else
          let (tap, s') := s.isTapKey K event
          if tap ∧ event.pressed then (true, keyp, s'.startWhileTapped K keyp)
          else s'.pass K keyp
  else if s.isTappingReleased then
    if s.withinTappingTerm event then
      if event.pressed then
        if s.isTappingKey event.key then
          if !s.tappingKey.tap.interrupted ∧ s.tappingKey.tap.count > 0 then
            -- sequential tap
            let count := s.tappingKey.tap.count
            let keyp1 := keyp.withTap
              { s.tappingKey.tap with count := if count < 15 then count + 1 else count }
            let (keyp', s') := s.hand K keyp1
            (true, keyp', { s' with tappingKey := keyp' })
          else
            -- "FIX: start new tap again"
            (true, keyp, { s with tappingKey := keyp })
        else
          let (tap, s') := s.isTapKey K event
          if tap then (true, keyp, waitingBufferScanTap K { s' with tappingKey := keyp })
          else { s' with tappingKey := s'.tappingKey.interrupt }.pass K keyp
      else s.pass K keyp
    else
      -- timeout, no sequential tap
      (false, keyp, { s with tappingKey := {} })
  else
    if event.pressed then
      let (tap, s') := s.isTapKey K event
      if tap then (true, keyp, waitingBufferScanTap K { s' with tappingKey := keyp })
      else s'.pass K keyp
    else s.pass K keyp

/-! ## `action_tapping_process` -/

/-- "clear all in case of overflow". -/
def overflow (s : Tapping) : Tapping :=
  { { s with act := s.act.clearKeyboard }.waitingBufferClear with tappingKey := {} }

/-- The part of `action_tapping_process` before the loop: the new record
is consumed or waits. -/
def offer (K : Keymap) (record : KeyRecord) (s : Tapping) : Tapping :=
  let (consumed, record', s') := processTapping K record s
  if consumed then s'
  else
    match s'.waitingBufferEnq record' with
    | some s'' => s''
    | none => s'.overflow

/-- One round of the loop: whether it goes on, and the state. -/
def round (K : Keymap) (s : Tapping) : Bool × Tapping :=
  let tail := s.waitingBuffer.tail
  let (consumed, keyp', s') := processTapping K (s.waitingBuffer.slot tail) s
  let buffer := s'.waitingBuffer.setSlot tail keyp'
  (consumed, { s' with waitingBuffer := if consumed then buffer.pop else buffer })

/-- The loop over the waiting buffer. A round that goes on frees a slot,
so no more rounds than slots are made. -/
def replay (K : Keymap) : Nat → Tapping → Tapping
  | 0, s => s
  | fuel + 1, s =>
    if s.waitingBuffer.isEmpty then s
    else
      let (consumed, s') := s.round K
      if consumed then replay K fuel s' else s'

def actionTappingProcess (K : Keymap) (record : KeyRecord) (s : Tapping) : Tapping :=
  replay K waitingBufferSize (s.offer K record)

end TappingState

/-! ## `action_exec` -/

/-- One call of `action_exec`, with what the timer and the LED state read
during it. An event without a key is a `TICK`. -/
structure Input where
  event : KeyEvent
  timer : BitVec 16 := 0
  leds : BitVec 8 := 0
  wf : event.WellFormed := by decide

/-- "time should not be 0": an event of `keyboard_task` never has the time zero. -/
theorem timer_or_one_ne_zero (t : BitVec 16) : (t ||| 1#16 == 0) = false := by
  rw [beq_eq_false_iff_ne]
  intro h
  have hbit := congrArg (fun b : BitVec 16 => b.getLsbD 0) h
  simp at hbit

/-- The call `keyboard_task` makes for a changed switch. -/
def Input.switch (row col : BitVec 8) (pressed : Bool) (timer : BitVec 16)
    (h : row ≠ 255 := by decide) : Input where
  event := { key := ⟨row, col⟩, pressed := pressed, time := timer ||| 1 }
  timer := timer
  wf hn := by
    have hrow : (row == 255) = false := beq_eq_false_iff_ne.mpr h
    change ((timer ||| 1#16 == 0) || (row == 255 && col == 255)) = true at hn
    rw [timer_or_one_ne_zero, hrow] at hn
    simp at hn

/-- The `TICK` call of `keyboard_task`. -/
def Input.tick (timer : BitVec 16) : Input where
  event := KeyEvent.tick timer
  timer := timer
  wf _ := ⟨rfl, rfl⟩

namespace TappingState

variable {Q : Type}

/-- The state as `action_exec` finds it. -/
def submit (inp : Input) (s : TappingState Q) : TappingState Q :=
  { s with
    act := { s.act with timer := inp.timer, leds := inp.leds }
    submitted := s.submitted ++ [inp.event] }

/-- The record `action_exec` makes of the event. -/
def record (inp : Input) (s : TappingState Q) : KeyRecord :=
  { event := inp.event, origin := some s.submitted.length }

end TappingState

def actionExec (K : Keymap) (inp : Input) (s : Tapping) : Tapping :=
  TappingState.actionTappingProcess K (s.record inp) (s.submit inp)

def run (K : Keymap) (inputs : List Input) (s : Tapping) : Tapping :=
  inputs.foldl (fun s inp => actionExec K inp s) s

theorem run_cons (K : Keymap) (inp : Input) (inputs : List Input) (s : Tapping) :
    run K (inp :: inputs) s = run K inputs (actionExec K inp s) := rfl

theorem run_append (K : Keymap) (inputs inputs' : List Input) (s : Tapping) :
    run K (inputs ++ inputs') s = run K inputs' (run K inputs s) :=
  List.foldl_append

/-- A keymap for the examples: three modifier tap keys, a layer tap key, a
momentary layer key, two letters and a modifier. -/
def sampleKeymap : Keymap := fun layer key =>
  match layer.toNat, key.col.toNat with
  | 0, 0 => ⟨0x2104⟩  -- left ctrl, tapped: a
  | 0, 1 => ⟨0x2205⟩  -- left shift, tapped: b
  | 0, 2 => ⟨0x2406⟩  -- left alt, tapped: c
  | 0, 3 => ⟨0xA107⟩  -- layer 1, tapped: d
  | 0, 4 => ⟨0xA1F1⟩  -- layer 1 while held
  | 0, 5 => ⟨0x0008⟩  -- e
  | 0, 6 => ⟨0x0009⟩  -- f
  | 0, 7 => ⟨0x00E0⟩  -- left ctrl
  | 1, 1 => ⟨0x2105⟩  -- left ctrl, tapped: b
  | 1, 5 => ⟨0x000F⟩  -- l
  | 1, _ => Action.transparent
  | _, _ => Action.no

/-- Press key `col` of the sample keymap. -/
def down (col : BitVec 8) (timer : BitVec 16) : Input := .switch 0 col true timer

/-- Release key `col` of the sample keymap. -/
def up (col : BitVec 8) (timer : BitVec 16) : Input := .switch 0 col false timer

end Ch583Kbd.Tmk
