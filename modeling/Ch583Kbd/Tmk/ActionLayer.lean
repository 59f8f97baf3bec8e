/-
Ch583Kbd.Tmk.ActionLayer — layers and the lookup of a key's action:
`action_layer.c`.

A keymap is any function from a layer number and a position to an action
(`action_for_key`, which answers `ACTION_NO` outside the table). The
hooks `hook_layer_change` and `hook_default_layer_change` are empty.
-/
import Ch583Kbd.Tmk.ActionUtil

namespace Ch583Kbd.Tmk

/-- `action_for_key`. -/
abbrev Keymap := BitVec 8 → KeyPos → Action

/-- `layers & (1UL<<i)` for `i` from `n - 1` down to 0; the fallback is
layer 0. -/
def topLayer (K : Keymap) (layers : BitVec 32) (key : KeyPos) : Nat → BitVec 8
  | 0 => 0
  | i + 1 =>
    if layers.getLsbD i ∧ K (BitVec.ofNat 8 i) key ≠ Action.transparent then BitVec.ofNat 8 i
    else topLayer K layers key i

namespace ActionState

/-! ## Layer state -/

def defaultLayerOr (s : ActionState) (state : BitVec 32) : ActionState :=
  { s with defaultLayerState := s.defaultLayerState ||| state }

def defaultLayerAnd (s : ActionState) (state : BitVec 32) : ActionState :=
  { s with defaultLayerState := s.defaultLayerState &&& state }

def defaultLayerXor (s : ActionState) (state : BitVec 32) : ActionState :=
  { s with defaultLayerState := s.defaultLayerState ^^^ state }

def layerClear (s : ActionState) : ActionState := { s with layerState := 0 }

def layerMove (s : ActionState) (layer : Nat) : ActionState :=
  { s with layerState := 1#32 <<< layer }

def layerOn (s : ActionState) (layer : Nat) : ActionState :=
  { s with layerState := s.layerState ||| 1#32 <<< layer }

def layerOff (s : ActionState) (layer : Nat) : ActionState :=
  { s with layerState := s.layerState &&& ~~~(1#32 <<< layer) }

def layerInvert (s : ActionState) (layer : Nat) : ActionState :=
  { s with layerState := s.layerState ^^^ 1#32 <<< layer }

def layerOr (s : ActionState) (state : BitVec 32) : ActionState :=
  { s with layerState := s.layerState ||| state }

def layerAnd (s : ActionState) (state : BitVec 32) : ActionState :=
  { s with layerState := s.layerState &&& state }

def layerXor (s : ActionState) (state : BitVec 32) : ActionState :=
  { s with layerState := s.layerState ^^^ state }

/-! ## Lookup -/

def currentLayerForKey (K : Keymap) (s : ActionState) (key : KeyPos) : BitVec 8 :=
  topLayer K (s.layerState ||| s.defaultLayerState) key 32

/-- `layer_pressed[key.row][key.col] = layer`. -/
def setLayerPressed (s : ActionState) (key : KeyPos) (layer : BitVec 8) : ActionState :=
  { s with layerPressed := fun k => if k = key then layer else s.layerPressed k }

/-- The layer `layer_switch_get_action` looks the event up in. -/
def layerFor (K : Keymap) (s : ActionState) (event : KeyEvent) : BitVec 8 :=
  if event.pressed then s.currentLayerForKey K event.key else s.layerPressed event.key

/-- The action `layer_switch_get_action` returns. -/
def actionOf (K : Keymap) (s : ActionState) (event : KeyEvent) : Action :=
  if event.isNoEvent then Action.no else K (s.layerFor K event) event.key

/-- What `layer_switch_get_action` does besides returning `actionOf`: a
press records its layer. -/
def track (K : Keymap) (s : ActionState) (event : KeyEvent) : ActionState :=
  if event.isPressed then s.setLayerPressed event.key (s.currentLayerForKey K event.key) else s

def layerSwitchGetAction (K : Keymap) (event : KeyEvent) (s : ActionState) :
    Action × ActionState :=
  (s.actionOf K event, s.track K event)

end ActionState

end Ch583Kbd.Tmk
