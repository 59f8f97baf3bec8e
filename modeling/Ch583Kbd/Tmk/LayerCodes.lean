/-
Ch583Kbd.Tmk.LayerCodes — the codes that `ACTION_LAYER_…` builds
(`action_code.h`), and what `process_action` makes of them.

A code is described once by its name (`LayerCode`) and once by the macro
arithmetic (`LayerCode.action`). Decoding is a matter of the value of the
code: the parts that the macros put together do not overlap, so each
`<<` and `|` is a sum, and a bit field is a quotient and a remainder. For
`ACTION_LAYER_TAP` this holds although the layer has five bits: the bit
that the upper sixteen layers put into the kind turns `ACT_LAYER_TAP` into
`ACT_LAYER_TAP_EXT`.

`OP_BIT_AND` with the extra bit keeps the other seven groups of four
layers, without it clears them; `OP_BIT_SET` never has it. That is why
`ACTION_LAYER_OFF` clears one bit (`~(1<<n) & 0x1f` has the extra bit) and
`ACTION_LAYER_SET` makes its layer the only one.

The macros are functions of their arguments' values, but for the argument
`mods` of `ACTION_LAYER_MODS`, which is not in parentheses in its expansion.
There it matters how the mask is written (`ModsArg`): of several masks with
`|` between them only the last one gets into the code, and
`processAction_layerCode_iff` says which codes mean what they say.
-/
import Ch583Kbd.Tmk.LayerPressed
import Ch583Kbd.Tmk.SentReports

namespace Ch583Kbd.Tmk

/-! ## The macros -/

/-- `enum layer_param_on`. -/
inductive LayerParamOn where
  | onPress | onRelease | onBoth
  deriving DecidableEq, Repr

def LayerParamOn.value : LayerParamOn → Nat
  | .onPress => 1
  | .onRelease => 2
  | .onBoth => 3

/-- `ACTION_LAYER_BITOP`; `bits` is an `int`. -/
def actionLayerBitop (op part : Nat) (bits : BitVec 32) (on : Nat) : Action :=
  .ofKind 0b1000 (op <<< 10 ||| on <<< 8 ||| part <<< 5 ||| (bits &&& 0x1f).toNat)

def actionLayerBitAnd (part : Nat) (bits : BitVec 32) (on : Nat) : Action :=
  actionLayerBitop 0 part bits on

def actionLayerBitOr (part : Nat) (bits : BitVec 32) (on : Nat) : Action :=
  actionLayerBitop 1 part bits on

def actionLayerBitXor (part : Nat) (bits : BitVec 32) (on : Nat) : Action :=
  actionLayerBitop 2 part bits on

def actionLayerBitSet (part : Nat) (bits : BitVec 32) (on : Nat) : Action :=
  actionLayerBitop 3 part bits on

def actionLayerClear (on : Nat) : Action := actionLayerBitAnd 0 0 on

def actionLayerInvert (layer on : Nat) : Action :=
  actionLayerBitXor (layer / 4) (1#32 <<< (layer % 4)) on

def actionLayerOn (layer on : Nat) : Action :=
  actionLayerBitOr (layer / 4) (1#32 <<< (layer % 4)) on

def actionLayerOff (layer on : Nat) : Action :=
  actionLayerBitAnd (layer / 4) (~~~(1#32 <<< (layer % 4))) on

def actionLayerSet (layer on : Nat) : Action :=
  actionLayerBitSet (layer / 4) (1#32 <<< (layer % 4)) on

def actionLayerToggle (layer : Nat) : Action := actionLayerInvert layer LayerParamOn.onRelease.value

def actionDefaultLayerSet (layer : Nat) : Action :=
  actionLayerBitop 3 (layer / 4) (1#32 <<< (layer % 4)) 0

def actionDefaultLayerToggle (layer : Nat) : Action :=
  actionLayerBitop 2 (layer / 4) (1#32 <<< (layer % 4)) 0

def actionLayerTap (layer key : Nat) : Action := .ofKind 0b1010 (layer <<< 8 ||| key)

def actionLayerOnOff (layer : Nat) : Action := actionLayerTap layer 0xF1

def actionLayerOffOn (layer : Nat) : Action := actionLayerTap layer 0xF2

def actionLayerSetClear (layer : Nat) : Action := actionLayerTap layer 0xF3

/-- A mask of modifiers: bits 8 to 11 of its value are control, shift, alt and
gui, and bit 12 says that they are the right-hand ones ("Mod bits: 43210"). -/
structure ModsMask where
  bits : BitVec 5
  deriving DecidableEq, Repr

namespace ModsMask

def value (m : ModsMask) : BitVec 16 := m.bits.setWidth 16 <<< 8

/-- The modifiers of the mask, in the positions of the report. -/
def modifiers (m : ModsMask) : BitVec 8 := sideMods (m.bits.extractLsb' 0 4) (!m.bits.getLsbD 4)

/-- `MOD_LCTL` and `MOD_LSFT` of `enum mods_bit`. -/
def lctl : ModsMask := ⟨0x01⟩
def lsft : ModsMask := ⟨0x02⟩

end ModsMask

/-- The text of the argument `mods`: masks with `|` between them, each an
identifier, a number or in parentheses. A mask that is written as one is
`last` alone. -/
structure ModsArg where
  first : List ModsMask
  last : ModsMask
  deriving DecidableEq, Repr

namespace ModsArg

/-- The mask that the text stands for. -/
def mask (a : ModsArg) : ModsMask := ⟨a.first.foldr (·.bits ||| ·) a.last.bits⟩

/-- `mods>>8` with the text in the place of `mods`: `>>` binds tighter than
`|`, so the shift is one of the last mask. -/
def shifted (a : ModsArg) : BitVec 16 := a.first.foldr (·.value ||| ·) (a.last.value >>> 8)

end ModsArg

def actionLayerMods (layer : Nat) (mods : ModsArg) : Action :=
  actionLayerTap layer (0xC0 ||| (mods.shifted &&& 0x1F).toNat)

def actionLayerTapToggle (layer : Nat) : Action := actionLayerTap layer 0xF0

/-! ## The codes by their names -/

/-- A code of one of the twelve macros. -/
inductive LayerCode where
  | on (layer : Fin 32) (edge : LayerParamOn)
  | off (layer : Fin 32) (edge : LayerParamOn)
  | invert (layer : Fin 32) (edge : LayerParamOn)
  | set (layer : Fin 32) (edge : LayerParamOn)
  | clear (edge : LayerParamOn)
  | toggle (layer : Fin 32)
  | onOff (layer : Fin 32)
  | offOn (layer : Fin 32)
  | setClear (layer : Fin 32)
  | mods (layer : Fin 32) (mods : ModsArg)
  | defaultSet (layer : Fin 32)
  | defaultToggle (layer : Fin 32)
  deriving DecidableEq, Repr

def LayerCode.action : LayerCode → Action
  | .on layer edge => actionLayerOn layer edge.value
  | .off layer edge => actionLayerOff layer edge.value
  | .invert layer edge => actionLayerInvert layer edge.value
  | .set layer edge => actionLayerSet layer edge.value
  | .clear edge => actionLayerClear edge.value
  | .toggle layer => actionLayerToggle layer
  | .onOff layer => actionLayerOnOff layer
  | .offOn layer => actionLayerOffOn layer
  | .setClear layer => actionLayerSetClear layer
  | .mods layer m => actionLayerMods layer m
  | .defaultSet layer => actionDefaultLayerSet layer
  | .defaultToggle layer => actionDefaultLayerToggle layer

/-- What is done to a set of layers. -/
inductive LayerOp where
  | keep | setBit (l : Nat) | clearBit (l : Nat) | invertBit (l : Nat) | only (l : Nat) | clearAll
  deriving DecidableEq, Repr

/-- The layers that are on afterwards. -/
def LayerOp.apply (op : LayerOp) (on : Nat → Bool) (i : Nat) : Bool :=
  match op with
  | .keep => on i
  | .setBit l => i = l || on i
  | .clearBit l => i ≠ l && on i
  | .invertBit l => if i = l then !on i else on i
  | .only l => i = l
  | .clearAll => false

/-- The edges that an `on` parameter names. -/
def LayerParamOn.names : LayerParamOn → Bool → Bool
  | .onPress, pressed => pressed
  | .onRelease, pressed => !pressed
  | .onBoth, _ => true

namespace LayerCode

/-- What the code says about `layer_state`. -/
def layerOp (c : LayerCode) (pressed : Bool) : LayerOp :=
  match c with
  | .on l edge => if edge.names pressed then .setBit l else .keep
  | .off l edge => if edge.names pressed then .clearBit l else .keep
  | .invert l edge => if edge.names pressed then .invertBit l else .keep
  | .set l edge => if edge.names pressed then .only l else .keep
  | .clear edge => if edge.names pressed then .clearAll else .keep
  | .toggle l => if pressed then .keep else .invertBit l
  | .onOff l | .mods l _ => if pressed then .setBit l else .clearBit l
  | .offOn l => if pressed then .clearBit l else .setBit l
  | .setClear l => if pressed then .only l else .clearAll
  | .defaultSet _ | .defaultToggle _ => .keep

/-- What the code says about `default_layer_state`. -/
def defaultLayerOp (c : LayerCode) (pressed : Bool) : LayerOp :=
  match c with
  | .defaultSet l => if pressed then .keep else .only l
  | .defaultToggle l => if pressed then .keep else .invertBit l
  | _ => .keep

/-- The modifiers that the code is written with. -/
def modifiers : LayerCode → BitVec 8
  | .mods _ m => m.mask.modifiers
  | _ => 0

/-- The last mask of the argument has all modifiers of it, as it has when the
argument is written as one mask. -/
def Whole : LayerCode → Prop
  | .mods _ m => m.last.modifiers = m.mask.modifiers
  | _ => True

instance : (c : LayerCode) → Decidable c.Whole
  | .mods _ m => inferInstanceAs (Decidable (m.last.modifiers = m.mask.modifiers))
  | .on .. | .off .. | .invert .. | .set .. | .clear _ | .toggle _ | .onOff _ | .offOn _
  | .setClear _ | .defaultSet _ | .defaultToggle _ => inferInstanceAs (Decidable True)

end LayerCode

/-! ## Decoding -/

theorem shiftLeft_or {a b k : Nat} (h : b < 1 <<< k) : a <<< k ||| b = a * 1 <<< k + b := by
  rw [Nat.one_shiftLeft] at h ⊢
  rw [← Nat.shiftLeft_add_eq_or_of_lt h, Nat.shiftLeft_eq]

section Bitop

variable {op part on : Nat} (bits : BitVec 32) (hop : op < 4) (hpart : part < 8) (hon : on < 4)

include hop hpart hon

/-- The action code of a bit operation is the sum of its fields. -/
theorem code_actionLayerBitop : (actionLayerBitop op part bits on).code.toNat =
    0x8000 + 1024 * op + 256 * on + 32 * part + bits.toNat % 32 := by
  have hbits : (bits &&& 0x1f).toNat = bits.toNat % 32 := by
    rw [BitVec.toNat_and]
    exact Nat.and_two_pow_sub_one_eq_mod bits.toNat 5
  have hlow : part <<< 5 ||| bits.toNat % 32 = part * 32 + bits.toNat % 32 :=
    shiftLeft_or (by omega)
  have hmid : on <<< 8 ||| (part * 32 + bits.toNat % 32) =
    on * 256 + (part * 32 + bits.toNat % 32) := shiftLeft_or (by omega)
  have hparam : op <<< 10 ||| (on * 256 + (part * 32 + bits.toNat % 32)) =
    op * 1024 + (on * 256 + (part * 32 + bits.toNat % 32)) := shiftLeft_or (by omega)
  have hcode : 0b1000 <<< 12 ||| (op * 1024 + (on * 256 + (part * 32 + bits.toNat % 32))) =
    8 * 4096 + (op * 1024 + (on * 256 + (part * 32 + bits.toNat % 32))) :=
    shiftLeft_or (by omega)
  show (BitVec.ofNat 16 (0b1000 <<< 12 |||
    (op <<< 10 ||| on <<< 8 ||| part <<< 5 ||| (bits &&& 0x1f).toNat))).toNat = _
  rw [hbits, Nat.or_assoc, Nat.or_assoc, hlow, hmid, hparam, hcode, BitVec.toNat_ofNat]
  omega

/-- A bit operation is a layer action. -/
theorem kindId_actionLayerBitop : (actionLayerBitop op part bits on).kindId = .layer := by
  have hkind : ((actionLayerBitop op part bits on).code.extractLsb' 12 4).toNat = 8 := by
    rw [BitVec.extractLsb'_toNat, Nat.shiftRight_eq_div_pow,
      code_actionLayerBitop bits hop hpart hon]
    omega
  rw [Action.kindId, hkind]
  rfl

theorem bitopOp_actionLayerBitop : (actionLayerBitop op part bits on).bitopOp.toNat = op := by
  rw [Action.bitopOp, BitVec.extractLsb'_toNat, Nat.shiftRight_eq_div_pow,
    code_actionLayerBitop bits hop hpart hon]
  omega

theorem bitopOn_actionLayerBitop :
    (actionLayerBitop op part bits on).bitopOn = BitVec.ofNat 2 on := by
  apply BitVec.eq_of_toNat_eq
  rw [Action.bitopOn, BitVec.extractLsb'_toNat, Nat.shiftRight_eq_div_pow,
    code_actionLayerBitop bits hop hpart hon, BitVec.toNat_ofNat]
  omega

theorem bitopPart_actionLayerBitop :
    (actionLayerBitop op part bits on).bitopPart.toNat = part := by
  rw [Action.bitopPart, BitVec.extractLsb'_toNat, Nat.shiftRight_eq_div_pow,
    code_actionLayerBitop bits hop hpart hon]
  omega

theorem bitopXbit_actionLayerBitop :
    (actionLayerBitop op part bits on).bitopXbit = bits.extractLsb' 4 1 := by
  apply BitVec.eq_of_toNat_eq
  rw [Action.bitopXbit, BitVec.extractLsb'_toNat, Nat.shiftRight_eq_div_pow,
    code_actionLayerBitop bits hop hpart hon,
    BitVec.extractLsb'_toNat, Nat.shiftRight_eq_div_pow]
  omega

theorem bitopBits_actionLayerBitop :
    (actionLayerBitop op part bits on).bitopBits = bits.extractLsb' 0 4 := by
  apply BitVec.eq_of_toNat_eq
  rw [Action.bitopBits, BitVec.extractLsb'_toNat, Nat.shiftRight_eq_div_pow,
    code_actionLayerBitop bits hop hpart hon,
    BitVec.extractLsb'_toNat, Nat.shiftRight_eq_div_pow]
  omega

end Bitop

section Tap

variable {layer key : Nat} (hlayer : layer < 32) (hkey : key < 256)

include hlayer hkey

/-- The action code of a layer tap is the sum of its fields. -/
theorem code_actionLayerTap :
    (actionLayerTap layer key).code.toNat = 0xA000 + 256 * layer + key := by
  have hparam : layer <<< 8 ||| key = layer * 256 + key := shiftLeft_or hkey
  -- bit 12 of the parameter meets a clear bit of the kind
  have hcode : 5 <<< 13 ||| (layer * 256 + key) = 5 * 8192 + (layer * 256 + key) :=
    shiftLeft_or (by omega)
  show (BitVec.ofNat 16 (5 <<< 13 ||| (layer <<< 8 ||| key))).toNat = _
  rw [hparam, hcode, BitVec.toNat_ofNat]
  omega

/-- The upper sixteen layers take the second kind of layer tap. -/
theorem kindId_actionLayerTap : (actionLayerTap layer key).kindId = .layerTap ∨
    (actionLayerTap layer key).kindId = .layerTapExt := by
  have hkind : ((actionLayerTap layer key).code.extractLsb' 12 4).toNat = 10 ∨
      ((actionLayerTap layer key).code.extractLsb' 12 4).toNat = 11 := by
    rw [BitVec.extractLsb'_toNat, Nat.shiftRight_eq_div_pow, code_actionLayerTap hlayer hkey]
    omega
  rcases hkind with h | h <;> simp [Action.kindId, h]

theorem layerTapVal_actionLayerTap : (actionLayerTap layer key).layerTapVal.toNat = layer := by
  rw [Action.layerTapVal, BitVec.extractLsb'_toNat, Nat.shiftRight_eq_div_pow,
    code_actionLayerTap hlayer hkey]
  omega

theorem layerTapCode_actionLayerTap :
    (actionLayerTap layer key).layerTapCode = BitVec.ofNat 8 key := by
  apply BitVec.eq_of_toNat_eq
  rw [Action.layerTapCode, BitVec.extractLsb'_toNat, Nat.shiftRight_eq_div_pow,
    code_actionLayerTap hlayer hkey, BitVec.toNat_ofNat]
  omega

end Tap

/-! ## The words of `ACT_LAYER` -/

/-- `bits` in `process_action`, by the macro's arguments. -/
def bitopWord (part : Nat) (bits : BitVec 32) : BitVec 32 :=
  (bits.extractLsb' 0 4).setWidth 32 <<< (part * 4)

/-- `mask` in `process_action`. -/
def bitopMask (part : Nat) (bits : BitVec 32) : BitVec 32 :=
  if bits.extractLsb' 4 1 ≠ 0 then ~~~(0xF#32 <<< (part * 4)) else 0

/-- A bit operation on a word of layers. -/
def bitopApply (op part : Nat) (bits state : BitVec 32) : BitVec 32 :=
  match op with
  | 0 => state &&& (bitopWord part bits ||| bitopMask part bits)
  | 1 => state ||| (bitopWord part bits ||| bitopMask part bits)
  | 2 => state ^^^ (bitopWord part bits ||| bitopMask part bits)
  | _ => state &&& bitopMask part bits ||| bitopWord part bits

/-- The bits that `ACTION_LAYER_BITOP` is given name one layer of the
thirty-two. -/
theorem bitopWord_layer (l : Fin 32) :
    bitopWord (l.val / 4) (1#32 <<< (l.val % 4)) = 1#32 <<< l.val := by
  revert l
  decide

/-- For a single layer the mask of `process_action` is zero. -/
theorem bitopMask_layer (l : Fin 32) : bitopMask (l.val / 4) (1#32 <<< (l.val % 4)) = 0 := by
  revert l
  decide

/-- With the extra bit, the word of `ACTION_LAYER_OFF` has all other layers. -/
theorem bitopWord_off (l : Fin 32) :
    bitopWord (l.val / 4) (~~~(1#32 <<< (l.val % 4))) |||
      bitopMask (l.val / 4) (~~~(1#32 <<< (l.val % 4))) = ~~~(1#32 <<< l.val) := by
  revert l
  decide

theorem LayerParamOn.value_lt (edge : LayerParamOn) : edge.value < 4 := by
  cases edge <;> decide

/-- The test of the `on` bits is true at the edges that the parameter names. -/
theorem LayerParamOn.test_iff (edge : LayerParamOn) (pressed : Bool) :
    (if pressed then BitVec.ofNat 2 edge.value &&& 1 else BitVec.ofNat 2 edge.value &&& 2) ≠ 0 ↔
      edge.names pressed = true := by
  cases edge <;> cases pressed <;> decide

theorem LayerParamOn.value_ne_zero (edge : LayerParamOn) : BitVec.ofNat 2 edge.value ≠ 0 := by
  cases edge <;> decide

namespace ActionState

variable (s : ActionState) (pressed : Bool) (tap : Tap)

/-! ## `ACT_LAYER` -/

/-- A bit operation is performed by `do_layer`. -/
theorem perform_bitop {op part on : Nat} (bits : BitVec 32) (hop : op < 4) (hpart : part < 8)
    (hon : on < 4) : s.perform (actionLayerBitop op part bits on) pressed tap =
      s.doLayer (actionLayerBitop op part bits on) pressed := by
  rw [perform, kindId_actionLayerBitop bits hop hpart hon]

/-- A layer operation acts at the edges it names. -/
theorem perform_layerBitop {op part : Nat} (bits : BitVec 32) (hop : op < 4) (hpart : part < 8)
    (edge : LayerParamOn) : s.perform (actionLayerBitop op part bits edge.value) pressed tap =
      if edge.names pressed then { s with layerState := bitopApply op part bits s.layerState }
      else s := by
  have hon := edge.value_lt
  rw [perform_bitop s pressed tap bits hop hpart hon]
  unfold doLayer
  rw [bitopOn_actionLayerBitop bits hop hpart hon, bitopOp_actionLayerBitop bits hop hpart hon,
    bitopPart_actionLayerBitop bits hop hpart hon, bitopXbit_actionLayerBitop bits hop hpart hon,
    bitopBits_actionLayerBitop bits hop hpart hon]
  simp only [edge.test_iff, edge.value_ne_zero, if_false]
  have hcases : op = 0 ∨ op = 1 ∨ op = 2 ∨ op = 3 := by omega
  rcases hcases with rfl | rfl | rfl | rfl <;> rfl

/-- With `on` zero it is one of the default layers, at the release. -/
theorem perform_defaultLayerBitop {op part : Nat} (bits : BitVec 32) (hop : op < 4)
    (hpart : part < 8) : s.perform (actionLayerBitop op part bits 0) pressed tap =
      if pressed then s
      else { s with defaultLayerState := bitopApply op part bits s.defaultLayerState } := by
  have hon : 0 < 4 := by decide
  rw [perform_bitop s pressed tap bits hop hpart hon]
  unfold doLayer
  rw [bitopOn_actionLayerBitop bits hop hpart hon, bitopOp_actionLayerBitop bits hop hpart hon,
    bitopPart_actionLayerBitop bits hop hpart hon, bitopXbit_actionLayerBitop bits hop hpart hon,
    bitopBits_actionLayerBitop bits hop hpart hon]
  cases pressed with
  | true => rfl
  | false =>
    have hcases : op = 0 ∨ op = 1 ∨ op = 2 ∨ op = 3 := by omega
    rcases hcases with rfl | rfl | rfl | rfl <;> rfl

section Layer

variable (l : Fin 32) (edge : LayerParamOn)

/-- `ACTION_LAYER_ON` turns the layer on at its edges. -/
theorem perform_layerOn : s.perform (actionLayerOn l edge.value) pressed tap =
    if edge.names pressed then s.layerOn l else s := by
  rw [actionLayerOn, actionLayerBitOr,
    perform_layerBitop s pressed tap _ (by decide) (by omega) edge]
  simp [bitopApply, bitopWord_layer, bitopMask_layer, layerOn]

/-- `ACTION_LAYER_OFF` turns the layer off at its edges. -/
theorem perform_layerOff : s.perform (actionLayerOff l edge.value) pressed tap =
    if edge.names pressed then s.layerOff l else s := by
  rw [actionLayerOff, actionLayerBitAnd,
    perform_layerBitop s pressed tap _ (by decide) (by omega) edge]
  simp only [bitopApply, bitopWord_off]
  rfl

/-- `ACTION_LAYER_INVERT` inverts the layer at its edges. -/
theorem perform_layerInvert : s.perform (actionLayerInvert l edge.value) pressed tap =
    if edge.names pressed then s.layerInvert l else s := by
  rw [actionLayerInvert, actionLayerBitXor,
    perform_layerBitop s pressed tap _ (by decide) (by omega) edge]
  simp [bitopApply, bitopWord_layer, bitopMask_layer, layerInvert]

/-- `ACTION_LAYER_SET` makes the layer the only one on, at its edges. -/
theorem perform_layerSet : s.perform (actionLayerSet l edge.value) pressed tap =
    if edge.names pressed then s.layerMove l else s := by
  rw [actionLayerSet, actionLayerBitSet,
    perform_layerBitop s pressed tap _ (by decide) (by omega) edge]
  simp [bitopApply, bitopWord_layer, bitopMask_layer, layerMove]

/-- `ACTION_LAYER_CLEAR` turns all layers off at its edges. -/
theorem perform_layerClear : s.perform (actionLayerClear edge.value) pressed tap =
    if edge.names pressed then s.layerClear else s := by
  rw [actionLayerClear, actionLayerBitAnd,
    perform_layerBitop s pressed tap _ (by decide) (by decide) edge]
  simp [bitopApply, layerClear, bitopWord, bitopMask]

/-- `ACTION_DEFAULT_LAYER_SET` replaces the default layer on the release. -/
theorem perform_defaultLayerSet : s.perform (actionDefaultLayerSet l) pressed tap =
    if pressed then s else { s with defaultLayerState := 1#32 <<< l.val } := by
  rw [actionDefaultLayerSet, perform_defaultLayerBitop s pressed tap _ (by decide) (by omega)]
  simp [bitopApply, bitopWord_layer, bitopMask_layer]

/-- `ACTION_DEFAULT_LAYER_TOGGLE` inverts the default layer's bit on the
release. -/
theorem perform_defaultLayerToggle : s.perform (actionDefaultLayerToggle l) pressed tap =
    if pressed then s else s.defaultLayerXor (1#32 <<< l.val) := by
  rw [actionDefaultLayerToggle, perform_defaultLayerBitop s pressed tap _ (by decide) (by omega)]
  simp [bitopApply, bitopWord_layer, bitopMask_layer, defaultLayerXor]

/-! ## `ACT_LAYER_TAP` -/

/-- A layer tap is performed by its code and its tap count. -/
theorem perform_layerTap {key : Nat} (hkey : key < 256) :
    s.perform (actionLayerTap l key) pressed tap =
      s.doLayerTap l (BitVec.ofNat 8 key) pressed tap.count := by
  unfold perform
  rw [layerTapVal_actionLayerTap l.isLt hkey, layerTapCode_actionLayerTap l.isLt hkey]
  rcases kindId_actionLayerTap l.isLt hkey with h | h <;> rw [h]

/-- `ACTION_LAYER_ON_OFF` has the layer on while the key is down. -/
theorem perform_layerOnOff : s.perform (actionLayerOnOff l) pressed tap =
    if pressed then s.layerOn l else s.layerOff l := by
  rw [actionLayerOnOff, perform_layerTap s pressed tap l (by decide)]
  rfl

/-- `ACTION_LAYER_OFF_ON` has the layer off while the key is down. -/
theorem perform_layerOffOn : s.perform (actionLayerOffOn l) pressed tap =
    if pressed then s.layerOff l else s.layerOn l := by
  rw [actionLayerOffOn, perform_layerTap s pressed tap l (by decide)]
  rfl

/-- `ACTION_LAYER_SET_CLEAR` has the layer alone while the key is down, and none
afterwards. -/
theorem perform_layerSetClear : s.perform (actionLayerSetClear l) pressed tap =
    if pressed then s.layerMove l else s.layerClear := by
  rw [actionLayerSetClear, perform_layerTap s pressed tap l (by decide)]
  rfl

/-- `ACTION_LAYER_TAP_TOGGLE` inverts the layer at both edges, but after enough
taps not at the press. -/
theorem perform_layerTapToggle : s.perform (actionLayerTapToggle l) pressed tap =
    if (if pressed then tap.count < tappingToggle else tap.count ≤ tappingToggle) then
      s.layerInvert l
    else s := by
  rw [actionLayerTapToggle, perform_layerTap s pressed tap l (by decide)]
  cases pressed <;> rfl

end Layer

end ActionState

/-! ## The modifiers -/

/-- `ACT_LAYER_TAP` decodes the five bits of a mask. -/
theorem layerTapMods_mask (v : BitVec 5) :
    isLayerMods (BitVec.ofNat 8 (0xC0 ||| v.toNat)) = true ∧
      layerTapMods (BitVec.ofNat 8 (0xC0 ||| v.toNat)) =
        sideMods (v.extractLsb' 0 4) (!v.getLsbD 4) := by
  revert v
  decide

/-- The masks before the last one have no bit among the five that are kept. -/
theorem ModsArg.shifted_bits (a : ModsArg) : a.shifted &&& 0x1F = a.last.bits.setWidth 16 := by
  obtain ⟨first, last⟩ := a
  induction first with
  | nil =>
    show last.value >>> 8 &&& 0x1F = last.bits.setWidth 16
    rw [ModsMask.value]
    generalize last.bits = bits
    revert bits
    decide
  | cons mask first ih =>
    have hlow : mask.value &&& 0x1F = 0 := by
      rw [ModsMask.value]
      generalize mask.bits = bits
      revert bits
      decide
    show (mask.value ||| ModsArg.shifted ⟨first, last⟩) &&& 0x1F = _
    rw [BitVec.and_or_distrib_right, hlow, ih]
    exact BitVec.zero_or

/-- An event of a layer and its modifiers turns on and off those of the last
mask. -/
theorem ActionState.perform_layerMods (s : ActionState) (pressed : Bool) (tap : Tap) (l : Fin 32)
    (m : ModsArg) : s.perform (actionLayerMods l m) pressed tap =
      if pressed then (s.layerOn l).registerMods m.last.modifiers
      else (s.layerOff l).unregisterMods m.last.modifiers := by
  have hbits : (m.shifted &&& 0x1F).toNat = m.last.bits.toNat := by
    rw [m.shifted_bits, BitVec.toNat_setWidth]
    exact Nat.mod_eq_of_lt (by omega)
  have hkey : 0xC0 ||| m.last.bits.toNat < 256 := Nat.or_lt_two_pow (n := 8) (by decide) (by omega)
  obtain ⟨hmods, hmask⟩ := layerTapMods_mask m.last.bits
  rw [actionLayerMods, hbits, perform_layerTap s pressed tap l hkey, doLayerTap,
    if_pos hmods, hmask]
  rfl

/-! ## The layers -/

theorem getLsbD_layerBit (l : Fin 32) (i : Nat) :
    (1#32 <<< l.val).getLsbD i = decide (i = l) := by
  have h0 : decide (i - l.val = 0) = decide (i ≤ l.val) := by simp [Nat.sub_eq_zero_iff_le]
  rw [BitVec.getLsbD_shiftLeft, BitVec.getLsbD_one, h0]
  by_cases h : i = l.val
  · simp [h]
  · simp [h]
    omega

section Bits

variable (l : Fin 32) (layers : BitVec 32) (i : Nat)

/-- Turning a layer on sets its bit of the word. -/
theorem setBit_word : (layers ||| 1#32 <<< l.val).getLsbD i =
    (LayerOp.setBit l).apply layers.getLsbD i := by
  rw [BitVec.getLsbD_or, getLsbD_layerBit, Bool.or_comm]
  rfl

/-- Turning a layer off clears its bit of the word. -/
theorem clearBit_word (hi : i < 32) : (layers &&& ~~~(1#32 <<< l.val)).getLsbD i =
    (LayerOp.clearBit l).apply layers.getLsbD i := by
  rw [BitVec.getLsbD_and, BitVec.getLsbD_not, getLsbD_layerBit, Bool.and_comm]
  simp [hi, LayerOp.apply]

/-- Inverting a layer inverts its bit of the word. -/
theorem invertBit_word : (layers ^^^ 1#32 <<< l.val).getLsbD i =
    (LayerOp.invertBit l).apply layers.getLsbD i := by
  rw [BitVec.getLsbD_xor, getLsbD_layerBit]
  by_cases h : i = l.val <;> simp [LayerOp.apply, h]

end Bits

/-! ## Every code -/

/-- What a code is to do at an edge: its operation on each of the two
states, and its modifiers on or off. -/
structure LayerCode.Executed (c : LayerCode) (pressed : Bool) (s s' : ActionState) : Prop where
  layers : ∀ i < 32, s'.layerState.getLsbD i = (c.layerOp pressed).apply s.layerState.getLsbD i
  defaultLayers : ∀ i < 32, s'.defaultLayerState.getLsbD i =
    (c.defaultLayerOp pressed).apply s.defaultLayerState.getLsbD i
  realMods : s'.realMods =
    if pressed then s.realMods ||| c.modifiers else s.realMods &&& ~~~c.modifiers
  weakMods : s'.weakMods = s.weakMods

namespace LayerCode

/-- A code without modifiers that leaves all but the layers alone. -/
theorem Executed.of_layers {c : LayerCode} {pressed : Bool} {s s' : ActionState}
    (hm : c.modifiers = 0) (hreal : s'.realMods = s.realMods) (hweak : s'.weakMods = s.weakMods)
    (hl : ∀ i < 32, s'.layerState.getLsbD i = (c.layerOp pressed).apply s.layerState.getLsbD i)
    (hd : ∀ i < 32, s'.defaultLayerState.getLsbD i =
      (c.defaultLayerOp pressed).apply s.defaultLayerState.getLsbD i) :
    c.Executed pressed s s' where
  layers := hl
  defaultLayers := hd
  realMods := by
    rw [hreal, hm]
    cases pressed
    · exact BitVec.and_allOnes.symm
    · exact BitVec.or_zero.symm
  weakMods := hweak

/-- At an edge that the parameter does not name nothing happens. -/
theorem executed_at_edge {c : LayerCode} {pressed : Bool} {op : LayerOp} (edge : LayerParamOn)
    (s s' : ActionState) (hm : c.modifiers = 0) (hop : c.layerOp pressed =
      if edge.names pressed then op else .keep) (hdop : c.defaultLayerOp pressed = .keep)
    (hreal : s'.realMods = s.realMods) (hweak : s'.weakMods = s.weakMods)
    (hdefault : s'.defaultLayerState = s.defaultLayerState)
    (hl : ∀ i < 32, s'.layerState.getLsbD i = op.apply s.layerState.getLsbD i) :
    c.Executed pressed s (if edge.names pressed then s' else s) := by
  cases hedge : edge.names pressed with
  | true =>
    rw [hedge, if_pos rfl] at hop
    exact .of_layers hm hreal hweak (fun i hi => by rw [hop]; exact hl i hi)
      fun i _ => by rw [hdop, if_pos rfl, hdefault]; rfl
  | false =>
    rw [hedge, if_neg Bool.false_ne_true] at hop
    exact .of_layers hm rfl rfl (fun _ _ => by rw [hop]; rfl) fun _ _ => by rw [hdop]; rfl

/-- A code whose last mask has all its modifiers does what it says. -/
theorem executed_perform {c : LayerCode} (hc : c.Whole) (s : ActionState) (pressed : Bool)
    (tap : Tap) : c.Executed pressed s (s.perform c.action pressed tap) := by
  cases c with
  | on l edge =>
    rw [action, s.perform_layerOn]
    exact executed_at_edge edge s _ rfl rfl rfl rfl rfl rfl fun i _ => setBit_word l _ i
  | off l edge =>
    rw [action, s.perform_layerOff]
    exact executed_at_edge edge s _ rfl rfl rfl rfl rfl rfl (clearBit_word l _)
  | invert l edge =>
    rw [action, s.perform_layerInvert]
    exact executed_at_edge edge s _ rfl rfl rfl rfl rfl rfl fun i _ => invertBit_word l _ i
  | set l edge =>
    rw [action, s.perform_layerSet]
    exact executed_at_edge edge s _ rfl rfl rfl rfl rfl rfl fun i _ => getLsbD_layerBit l i
  | clear edge =>
    rw [action, s.perform_layerClear]
    exact executed_at_edge edge s _ rfl rfl rfl rfl rfl rfl fun _ _ => BitVec.getLsbD_zero
  | toggle l =>
    rw [action, actionLayerToggle, s.perform_layerInvert]
    refine executed_at_edge .onRelease s _ rfl ?_ rfl rfl rfl rfl fun i _ => invertBit_word l _ i
    cases pressed <;> rfl
  | onOff l =>
    rw [action, s.perform_layerOnOff]
    cases pressed
    · exact .of_layers rfl rfl rfl (clearBit_word l _) fun _ _ => rfl
    · exact .of_layers rfl rfl rfl (fun i _ => setBit_word l _ i) fun _ _ => rfl
  | offOn l =>
    rw [action, s.perform_layerOffOn]
    cases pressed
    · exact .of_layers rfl rfl rfl (fun i _ => setBit_word l _ i) fun _ _ => rfl
    · exact .of_layers rfl rfl rfl (clearBit_word l _) fun _ _ => rfl
  | setClear l =>
    rw [action, s.perform_layerSetClear]
    cases pressed
    · exact .of_layers rfl rfl rfl (fun _ _ => BitVec.getLsbD_zero) fun _ _ => rfl
    · exact .of_layers rfl rfl rfl (fun i _ => getLsbD_layerBit l i) fun _ _ => rfl
  | mods l m =>
    -- the only code that has modifiers: here its last mask has to be whole
    rw [action, s.perform_layerMods, show m.last.modifiers = m.mask.modifiers from hc]
    cases pressed with
    | false =>
      obtain ⟨hlayer, hdefault, -⟩ :=
        ActionState.layers_eq_iff.mp (ActionState.unregisterMods_layers (s.layerOff l)
          (LayerCode.mods l m).modifiers)
      refine ⟨fun i hi => ?_, fun _ _ => ?_, s.layerOff l |>.unregisterMods_realMods _,
        s.layerOff l |>.unregisterMods_weakMods _⟩
      · exact (congrArg (BitVec.getLsbD · i) hlayer).trans (clearBit_word l _ i hi)
      · exact congrArg (BitVec.getLsbD · _) hdefault
    | true =>
      obtain ⟨hlayer, hdefault, -⟩ :=
        ActionState.layers_eq_iff.mp (ActionState.registerMods_layers (s.layerOn l)
          (LayerCode.mods l m).modifiers)
      refine ⟨fun i _ => ?_, fun _ _ => ?_, s.layerOn l |>.registerMods_realMods _,
        s.layerOn l |>.registerMods_weakMods _⟩
      · exact (congrArg (BitVec.getLsbD · i) hlayer).trans (setBit_word l _ i)
      · exact congrArg (BitVec.getLsbD · _) hdefault
  | defaultSet l =>
    rw [action, s.perform_defaultLayerSet]
    cases pressed
    · exact .of_layers rfl rfl rfl (fun _ _ => rfl) fun i _ => getLsbD_layerBit l i
    · exact .of_layers rfl rfl rfl (fun _ _ => rfl) fun _ _ => rfl
  | defaultToggle l =>
    rw [action, s.perform_defaultLayerToggle]
    cases pressed
    · exact .of_layers rfl rfl rfl (fun _ _ => rfl) fun i _ => invertBit_word l _ i
    · exact .of_layers rfl rfl rfl (fun _ _ => rfl) fun _ _ => rfl

end LayerCode

/-- An event whose action is a layer code performs it: finding the action
touches neither the layers nor the modifiers. -/
theorem processAction_perform (K : Keymap) (c : LayerCode) (record : KeyRecord) (s : ActionState)
    (hreal : record.event.isNoEvent = false) (haction : s.actionOf K record.event = c.action) :
    ∃ s0 : ActionState,
      (processAction K record s).2 = s0.perform c.action record.event.pressed record.tap ∧
      s0.layerState = s.layerState ∧ s0.defaultLayerState = s.defaultLayerState ∧
      s0.realMods = s.realMods ∧ s0.weakMods = s.weakMods := by
  refine ⟨s.track K record.event, ?_, ?_⟩
  · rw [processAction, if_neg (by simp [hreal]), haction]
  · unfold ActionState.track
    split <;> exact ⟨rfl, rfl, rfl, rfl⟩

/-- What a code does to the modifiers of a state without any. -/
theorem pressed_mods {l : Fin 32} {m : ModsArg} {s : ActionState}
    (hs : s.realMods = 0) (tap : Tap) :
    (s.perform (LayerCode.mods l m).action true tap).realMods = m.last.modifiers := by
  rw [LayerCode.action, s.perform_layerMods, if_pos rfl]
  refine ((s.layerOn l).registerMods_realMods _).trans ?_
  rw [show (s.layerOn l).realMods = s.realMods from rfl, hs]
  exact BitVec.zero_or

/-- **The layer codes mean what they say**, exactly if their modifiers are all
in the last mask of the argument. Then, whatever the states and the tap
record, an event whose action is the code has the named operation at the
named edges, and no other effect on the layers or the modifiers. -/
theorem processAction_layerCode_iff (c : LayerCode) :
    (∀ (K : Keymap) (record : KeyRecord) (s : ActionState), record.event.isNoEvent = false →
      s.actionOf K record.event = c.action →
      c.Executed record.event.pressed s (processAction K record s).2) ↔ c.Whole := by
  constructor
  · intro hmeans
    cases c with
    | mods l m =>
      have hpress := (hmeans (fun _ _ => (LayerCode.mods l m).action) ⟨⟨⟨0, 0⟩, true, 1⟩,
        {}, none⟩ {}
        rfl rfl).realMods
      obtain ⟨s0, hs0, -, -, hreal, -⟩ := processAction_perform
        (fun _ _ => (LayerCode.mods l m).action)
          (.mods l m) ⟨⟨⟨0, 0⟩, true, 1⟩, {}, none⟩ {} rfl rfl
      rw [hs0, pressed_mods hreal, if_pos rfl] at hpress
      exact hpress.trans BitVec.zero_or
    | _ => trivial
  · intro hc K record s hreal haction
    obtain ⟨s0, hrun, hl, hd, hm, hw⟩ := processAction_perform K c record s hreal haction
    obtain ⟨h1, h2, h3, h4⟩ :=
      LayerCode.executed_perform hc s0 record.event.pressed record.tap
    rw [hrun]
    rw [hl] at h1
    rw [hd] at h2
    rw [hm] at h3
    rw [hw] at h4
    exact ⟨h1, h2, h3, h4⟩

/-- `ACTION_LAYER_MODS(1, MOD_LCTL|MOD_LSFT)` is 0xA1C2: it turns the left
shift on, and no control. -/
theorem layerMods_two_masks : (actionLayerMods 1 ⟨[.lctl], .lsft⟩).code = 0xA1C2 ∧
    ¬ (LayerCode.mods 1 ⟨[.lctl], .lsft⟩).Executed true {}
      (processAction (fun _ _ => (LayerCode.mods 1 ⟨[.lctl], .lsft⟩).action)
        ⟨⟨⟨0, 0⟩, true, 1⟩, {}, none⟩ {}).2 := by
  refine ⟨by decide, fun h => ?_⟩
  exact absurd h.realMods (by decide)

end Ch583Kbd.Tmk
