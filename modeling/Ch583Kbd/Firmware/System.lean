/-
Ch583Kbd.Firmware.System — the action layer, the stored blocks and the
data flash together.

The two agents are the keyboard, whose events `process_action` executes
with the keymap that `action_for_key` gives at that moment, and the host,
whose commands rewrite what `action_for_key` reads. `main` reads the blocks
from the flash before anything else. A command that leaves the bounds of a
buffer has no next state.
-/
import Ch583Kbd.Tmk.Action
import Ch583Kbd.Usb.HidOutcome

namespace Ch583Kbd.Firmware

open Ch583Kbd.Tmk Ch583Kbd.Lib Ch583Kbd.Lib.Block Ch583Kbd.Eeprom Ch583Kbd.Usb

structure System where
  act : ActionState := {}
  device : Device := {}

inductive Event where
  /-- The RAM is set up anew and `main` runs. -/
  | powerUp
  | key (record : KeyRecord)
  /-- A layer change from elsewhere. -/
  | layers (layerState defaultLayerState : BitVec 32)
  /-- What `timer_read()` and `host_keyboard_leds()` will return. -/
  | readings (timer : BitVec 16) (leds : BitVec 8)
  /-- A packet on endpoint 3, from its command byte on. -/
  | recv (command len : Byte) (data : Nat → Option Byte)

variable (C : PageFlash.Cell (0xFF : Byte)) (img : Image)

namespace System

def keymap (s : System) : Keymap := actionForKey img s.device.storage

/-- `storage_read(0xff)` in `main`. -/
def powerUp (s : System) : System where
  act := {}
  device := { s.device with storage := storageRead false 0xFF s.device.flash {} }

def processKey (s : System) (record : KeyRecord) : System :=
  { s with act := (processAction (s.keymap img) record s.act).2 }

/-- The state after a command; `ENTER_DFU` calls `clear_keyboard`. -/
def afterCommand (s : System) (h : Handled) : System where
  act := if h.cleared then s.act.clearKeyboard else s.act
  device := h.device

def step (s : System) : Event → Except Fault System
  | .powerUp => .ok s.powerUp
  | .key record => .ok (s.processKey img record)
  | .layers layerState defaultLayerState =>
    .ok { s with act :=
      { s.act with layerState := layerState, defaultLayerState := defaultLayerState } }
  | .readings timer leds => .ok { s with act := { s.act with timer := timer, leds := leds } }
  | .recv command len data => (hidOnRecv C img s.device command len data).map s.afterCommand

def run (s : System) : List Event → Except Fault System
  | [] => .ok s
  | e :: es => (s.step C img e).bind fun s' => s'.run es

end System

/-- A command that does not fault is a step of the system. -/
theorem step_recv_ok {s : System} {command len : Byte} {data : Nat → Option Byte} {h : Handled}
    (hrecv : hidOnRecv C img s.device command len data = .ok h) :
    s.step C img (.recv command len data) = .ok (s.afterCommand h) := by
  show (hidOnRecv C img s.device command len data).map s.afterCommand = _
  rw [hrecv]
  rfl

/-- A step on a packet is that of a handler that did not fault. -/
theorem step_recv {s s' : System} {command len : Byte} {data : Nat → Option Byte}
    (h : s.step C img (.recv command len data) = .ok s') :
    ∃ handled, hidOnRecv C img s.device command len data = .ok handled ∧
      s' = s.afterCommand handled := by
  obtain ⟨handled, hrecv, rfl⟩ := map_ok h
  exact ⟨handled, hrecv, rfl⟩

/-- An invariant of the steps of some events is one of their runs. -/
theorem run_invariant {inv : System → Prop} {allowed : Event → Prop}
    (hstep : ∀ s e s', allowed e → inv s → s.step C img e = .ok s' → inv s')
    (events : List Event) (hall : ∀ e ∈ events, allowed e) :
    ∀ {s s' : System}, inv s → s.run C img events = .ok s' → inv s' := by
  induction events with
  | nil =>
    rintro s s' hs ⟨rfl⟩
    exact hs
  | cons e es ih =>
    intro s s' hs hrun
    unfold System.run at hrun
    cases hone : s.step C img e with
    | error fault =>
      rw [hone] at hrun
      cases hrun
    | ok s1 =>
      rw [hone] at hrun
      have hs1 := hstep s e s1 (hall e (by simp)) hs hone
      exact ih (fun e' he' => hall e' (List.mem_cons_of_mem e he')) hs1 hrun

end Ch583Kbd.Firmware
