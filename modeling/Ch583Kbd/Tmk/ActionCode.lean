/-
Ch583Kbd.Tmk.ActionCode — 16-bit action codes (`action_code.h`) and the
key code classes of `keycode.h`.

`action_t` is a union of bit-field structs over one `uint16_t`, laid out
from bit 0 upwards; each field is an accessor here. The four kind bits
are decoded once into `ActionKindId`, so that a `switch` over
`action.kind.id` is a match.
-/
namespace Ch583Kbd.Tmk

structure Action where
  code : BitVec 16
  deriving DecidableEq, Repr

/-- `enum action_kind_id`; `unknown` stands for the kind bits that no
enumerator names (0b0110, 0b0111, 0b1001). -/
inductive ActionKindId where
  | lmods | rmods | lmodsTap | rmodsTap | usage | mousekey
  | layer | layerTap | layerTapExt | macroPlay | backlight | command | function
  | unknown
  deriving DecidableEq, Repr

namespace Action

def no : Action := ⟨0⟩
def transparent : Action := ⟨1⟩
def ofKind (kind param : Nat) : Action := ⟨BitVec.ofNat 16 (kind <<< 12 ||| param)⟩

def kindId (a : Action) : ActionKindId :=
  match (a.code.extractLsb' 12 4).toNat with
  | 0b0000 => .lmods
  | 0b0001 => .rmods
  | 0b0010 => .lmodsTap
  | 0b0011 => .rmodsTap
  | 0b0100 => .usage
  | 0b0101 => .mousekey
  | 0b1000 => .layer
  | 0b1010 => .layerTap
  | 0b1011 => .layerTapExt
  | 0b1100 => .macroPlay
  | 0b1101 => .backlight
  | 0b1110 => .command
  | 0b1111 => .function
  | _ => .unknown

def keyCode (a : Action) : BitVec 8 := a.code.extractLsb' 0 8
def keyMods (a : Action) : BitVec 4 := a.code.extractLsb' 8 4
def bitopBits (a : Action) : BitVec 4 := a.code.extractLsb' 0 4
def bitopXbit (a : Action) : BitVec 1 := a.code.extractLsb' 4 1
def bitopPart (a : Action) : BitVec 3 := a.code.extractLsb' 5 3
def bitopOn (a : Action) : BitVec 2 := a.code.extractLsb' 8 2
def bitopOp (a : Action) : BitVec 2 := a.code.extractLsb' 10 2
def layerTapCode (a : Action) : BitVec 8 := a.code.extractLsb' 0 8
def layerTapVal (a : Action) : BitVec 5 := a.code.extractLsb' 8 5
def usageCode (a : Action) : BitVec 10 := a.code.extractLsb' 0 10
def usagePage (a : Action) : BitVec 2 := a.code.extractLsb' 10 2
def funcOpt (a : Action) : BitVec 4 := a.code.extractLsb' 8 4
def commandId (a : Action) : BitVec 8 := a.code.extractLsb' 0 8

end Action

/-! ## Parameter values -/

def modsOneshot : BitVec 8 := 0x00
def modsTapToggle : BitVec 8 := 0x01
def opTapToggle : BitVec 8 := 0xF0
def opOnOff : BitVec 8 := 0xF1
def opOffOn : BitVec 8 := 0xF2
def opSetClear : BitVec 8 := 0xF3
def funcTap : BitVec 4 := 0x8

/-- `COMMAND_BOOTLOADER`, the first of `enum command_ids`. -/
def commandBootloader : BitVec 8 := 0x00

/-! ## Key codes -/

def kcNo : BitVec 8 := 0x00
def kcCapslock : BitVec 8 := 0x39
def kcScrolllock : BitVec 8 := 0x47
def kcNumlock : BitVec 8 := 0x53
def kcLockingCaps : BitVec 8 := 0x82
def kcLockingNum : BitVec 8 := 0x83
def kcLockingScroll : BitVec 8 := 0x84

/-- `IS_KEY`: `KC_A` to `KC_EXSEL` (`USE_ORIGINAL_HID_USAGE` is off). -/
def isKey (code : BitVec 8) : Bool := 0x04#8 ≤ code && code ≤ 0xA4#8

/-- `IS_MOD`: `KC_LCTRL` to `KC_RGUI`. -/
def isMod (code : BitVec 8) : Bool := 0xE0#8 ≤ code && code ≤ 0xE7#8

/-- `IS_SYSTEM`: `KC_PWR` to `KC_WAKE`. -/
def isSystem (code : BitVec 8) : Bool := 0xA5#8 ≤ code && code ≤ 0xA7#8

/-- `IS_CONSUMER`: `KC_MUTE` to `KC_BRIGHTNESS_DEC`. -/
def isConsumer (code : BitVec 8) : Bool := 0xA8#8 ≤ code && code ≤ 0xBE#8
def modBit (code : BitVec 8) : BitVec 8 := 1#8 <<< (code &&& 0x07#8).toNat

def keycode2System (code : BitVec 8) : BitVec 16 :=
  if code = 0xA5 then 0x0081
  else if code = 0xA6 then 0x0082
  else if code = 0xA7 then 0x0083
  else 0

def keycode2Consumer (code : BitVec 8) : BitVec 16 :=
  if code = 0xA8 then 0x00E2        -- mute
  else if code = 0xA9 then 0x00E9   -- volume up
  else if code = 0xAA then 0x00EA   -- volume down
  else if code = 0xAB then 0x00B5   -- next track
  else if code = 0xAC then 0x00B6   -- previous track
  else if code = 0xAD then 0x00B3   -- fast forward
  else if code = 0xAE then 0x00B4   -- rewind
  else if code = 0xAF then 0x00B7   -- stop
  else if code = 0xB1 then 0x00CC   -- stop and eject
  else if code = 0xB0 then 0x00CD   -- play or pause
  else if code = 0xB2 then 0x0183   -- media select
  else if code = 0xB3 then 0x018A   -- mail
  else if code = 0xB4 then 0x0192   -- calculator
  else if code = 0xB5 then 0x0194   -- my computer
  else if code = 0xB6 then 0x0221   -- search
  else if code = 0xB7 then 0x0223   -- home
  else if code = 0xB8 then 0x0224   -- back
  else if code = 0xB9 then 0x0225   -- forward
  else if code = 0xBA then 0x0226   -- stop
  else if code = 0xBB then 0x0227   -- refresh
  else if code = 0xBC then 0x022A   -- favorites
  else if code = 0xBD then 0x006F   -- brightness up
  else if code = 0xBE then 0x0070   -- brightness down
  else 0

end Ch583Kbd.Tmk
