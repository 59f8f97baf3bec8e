/-
Ch583Kbd.Tmk.KeyReport — the keyboard report and the key code operations
of `action_util.c`, in the configuration of `zora61`: `NKRO_ENABLE`,
`PROTOCOL_LUFA` and `USB_6KRO_ENABLE`, so the report has 28 bytes
(`NKRO_EPSIZE`), of which the six-key ring uses `keys[0..5]`.

The union `report_keyboard_t` is its byte array `raw`: `raw[0]` is
`mods`, `raw[2 + i]` is `keys[i]` and `raw[1 + i]` is `nkro.bits[i]`.

The `do … while` loops of the ring run on fuel and answer `none` when it
is used up; in a coherent ring six rounds are enough (`addKeyByte_spec`).
`cb_count` is only incremented, decremented and tested for zero, so its
sign does not matter and a `BitVec 8` models the `int8_t`. `cb_head` and
`cb_tail` are `Nat`s; no operation makes a negative one, because `RO_SUB`
is only applied with a subtrahend of at most 6.
-/
namespace Ch583Kbd.Tmk

abbrev keyboardReportSize : Nat := 28

def keyboardReportBits : Nat := 27

def usb6kroKeys : Nat := 6

/-- `*keyboard_report` with `cb_head`, `cb_tail` and `cb_count`. -/
structure KeyReport where
  raw : Vector (BitVec 8) keyboardReportSize := Vector.replicate keyboardReportSize 0
  cbHead : Nat := 0
  cbTail : Nat := 0
  cbCount : BitVec 8 := 0
  deriving DecidableEq, Repr

def roAdd (a b : Nat) : Nat := (a + b) % usb6kroKeys

def roSub (a b : Nat) : Nat := (a + usb6kroKeys - b) % usb6kroKeys

def roInc (a : Nat) : Nat := roAdd a 1

def roDec (a : Nat) : Nat := roSub a 1

namespace KeyReport

/-- Read `keys[i]`. -/
def key (r : KeyReport) (i : Nat) : BitVec 8 := r.raw[2 + i]?.getD 0

/-- Write `keys[i]`. -/
def setKey (r : KeyReport) (i : Nat) (v : BitVec 8) : KeyReport :=
  { r with raw := r.raw.setIfInBounds (2 + i) v }

/-- Write `mods`. -/
def setMods (r : KeyReport) (m : BitVec 8) : KeyReport :=
  { r with raw := r.raw.setIfInBounds 0 m }

/-- How the first loop of `add_key_byte` ends: the code is there already,
or the loop came round with this `i` and the first empty slot if it met
one (`-1` in the source otherwise). -/
inductive Scan where
  | found
  | ended (i : Nat) (empty : Option Nat)
  deriving DecidableEq

/-- The first `do … while` of `add_key_byte`. -/
def addScan (r : KeyReport) (code : BitVec 8) : Nat → Nat → Option Nat → Option Scan
  | 0, _, _ => none
  | fuel + 1, i, empty =>
    if r.key i = code then some .found
    else
      let empty := if empty = none ∧ r.key i = 0 then some i else empty
      let i := roInc i
      if i ≠ r.cbTail then addScan r code fuel i empty else some (.ended i empty)

/-- The left shift of `add_key_byte`: the report it leaves and `offset`. -/
def addShift : Nat → KeyReport → Nat → Nat → Nat → Option (KeyReport × Nat)
  | 0, _, _, _, _ => none
  | fuel + 1, r, i, empty, offset =>
    let moves := r.key i ≠ 0
    let r' := if moves then (r.setKey empty (r.key i)).setKey i 0 else r
    let empty' := if moves then roInc empty else empty
    let offset' := if moves then offset else offset + 1
    let i := roInc i
    if i ≠ r'.cbTail then addShift fuel r' i empty' offset' else some (r', offset')

/-- "add to tail". -/
def addToTail (r : KeyReport) (code : BitVec 8) : KeyReport :=
  let r' := r.setKey r.cbTail code
  { r' with cbTail := roInc r.cbTail, cbCount := r.cbCount + 1 }

def addKeyByte? (r : KeyReport) (code : BitVec 8) : Option KeyReport :=
  if r.cbCount ≠ 0 then
    match r.addScan code usb6kroKeys r.cbHead none with
    | none => none
    | some .found => some r
    | some (.ended i empty) =>
      if i = r.cbTail ∧ r.cbTail = r.cbHead then
        match empty with
        | none =>
          -- pop head when has no empty space
          some (addToTail
            { r with cbHead := roInc r.cbHead, cbCount := r.cbCount - 1 } code)
        | some e =>
          -- left shift when has empty space
          match addShift usb6kroKeys r (roInc e) e 1 with
          | none => none
          | some (r', offset) =>
            some (addToTail { r' with cbTail := roSub r'.cbTail offset } code)
      else some (addToTail r code)
  else some (addToTail r code)

/-- The inner `do … while` of `del_key_byte`: `cb_tail` moves back to the
last key left. -/
def delRetract : Nat → KeyReport → Option KeyReport
  | 0, _ => none
  | fuel + 1, r =>
    let r' := { r with cbTail := roDec r.cbTail }
    if r'.key (roDec r'.cbTail) ≠ 0 then some r'
    else if r'.cbTail ≠ r'.cbHead then delRetract fuel r'
    else some r'

/-- What `del_key_byte` does at the slot that holds the code. -/
def delFound (r : KeyReport) (i : Nat) : Option KeyReport :=
  let r1 := { r.setKey i 0 with cbCount := r.cbCount - 1 }
  let r2 := if r1.cbCount = 0 then { r1 with cbTail := 0, cbHead := 0 } else r1
  if i = roDec r2.cbTail then delRetract usb6kroKeys r2 else some r2

/-- The outer `do … while` of `del_key_byte`. -/
def delScan (r : KeyReport) (code : BitVec 8) : Nat → Nat → Option KeyReport
  | 0, _ => none
  | fuel + 1, i =>
    if r.key i = code then r.delFound i
    else
      let i := roInc i
      if i ≠ r.cbTail then delScan r code fuel i else some r

def delKeyByte? (r : KeyReport) (code : BitVec 8) : Option KeyReport :=
  if r.cbCount ≠ 0 then r.delScan code usb6kroKeys r.cbHead else some r

/-- `add_key_byte` as a total function. -/
def addKeyByte (r : KeyReport) (code : BitVec 8) : KeyReport := (r.addKeyByte? code).getD r

/-- `del_key_byte` as a total function. -/
def delKeyByte (r : KeyReport) (code : BitVec 8) : KeyReport := (r.delKeyByte? code).getD r

/-- Rewrite `nkro.bits[code >> 3]`. -/
def modifyBits (r : KeyReport) (code : BitVec 8) (f : BitVec 8 → BitVec 8) : KeyReport :=
  let i := (code >>> 3).toNat
  if i < keyboardReportBits then
    { r with raw := r.raw.setIfInBounds (1 + i) (f (r.raw[1 + i]?.getD 0)) }
  else r

def addKeyBit (r : KeyReport) (code : BitVec 8) : KeyReport :=
  r.modifyBits code (· ||| 1#8 <<< (code &&& 7).toNat)

def delKeyBit (r : KeyReport) (code : BitVec 8) : KeyReport :=
  r.modifyBits code (· &&& ~~~(1#8 <<< (code &&& 7).toNat))

/-- `clear_keys`: every byte but `mods` is zeroed. `cb_head`, `cb_tail`
and `cb_count` stay as they are. -/
def clearKeys (r : KeyReport) : KeyReport :=
  { r with raw := (Vector.replicate keyboardReportSize 0).setIfInBounds 0 (r.raw[0]?.getD 0) }

def hasAnykey (r : KeyReport) : Nat := (r.raw.toList.drop 1).countP (· != 0)

end KeyReport

end Ch583Kbd.Tmk
