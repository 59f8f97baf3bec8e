/-
Ch583Kbd.Usb.HidConfiguration — the configuration commands that the host
sends on endpoint 3: `hid_configuration.c` with `DevEP3_OUT_Deal` and
`hid_send_data` of `usbuser1.c`.

`data` is what can be read behind the pointer a function is given. A
handler that reads or writes out of bounds ends in a `Fault`. Each command
sends at most one response, kept as its `len` bytes; `hidSendData` makes
the packet of 64 bytes from it and from what the stack held.

The build has `KEYMAP_STORAGE`, `ACTIONMAP_ENABLE`, `MACRO_STORAGE` and
`CONFIG_STORAGE`, not `ENCODER_ENABLED`.
-/
import Ch583Kbd.Eeprom.Storage
import Ch583Kbd.Usb.Endpoint

namespace Ch583Kbd.Usb

open Ch583Kbd.Tmk Ch583Kbd.Lib Ch583Kbd.Lib.Block Ch583Kbd.Eeprom

def maxHidPacketSize : Nat := 60

/-- `enum hid_command`. -/
inductive HidCommand where
  | getInformation | getSingleKey | getSingleFn | getAllKeys | getAllFns | getSingleConfig
  | getAllConfig | getAllMacro | getAllEncoder
  | setSingleKey | setSingleFn | setAllKeys | setAllFns | setSingleConfig | setAllConfig
  | setAllMacro | setAllEncoder
  | enterDfu | readConfig | writeConfig | resetConfig
  deriving DecidableEq, Repr

def HidCommand.ofByte (command : Byte) : Option HidCommand :=
  match command.toNat with
  | 0x20 => some .getInformation
  | 0x21 => some .getSingleKey
  | 0x22 => some .getSingleFn
  | 0x23 => some .getAllKeys
  | 0x24 => some .getAllFns
  | 0x25 => some .getSingleConfig
  | 0x26 => some .getAllConfig
  | 0x27 => some .getAllMacro
  | 0x28 => some .getAllEncoder
  | 0x31 => some .setSingleKey
  | 0x32 => some .setSingleFn
  | 0x33 => some .setAllKeys
  | 0x34 => some .setAllFns
  | 0x35 => some .setSingleConfig
  | 0x36 => some .setAllConfig
  | 0x37 => some .setAllMacro
  | 0x38 => some .setAllEncoder
  | 0x39 => some .enterDfu
  | 0x3D => some .readConfig
  | 0x3E => some .writeConfig
  | 0x3F => some .resetConfig
  | _ => none

/-- `enum hid_response`. -/
inductive HidResponse where
  | success | undefined | parameterError | internalError | writeOverflow | usbdChecksumError
  deriving DecidableEq, Repr

def HidResponse.toByte : HidResponse → Byte
  | .success => 0
  | .undefined => 1
  | .parameterError => 2
  | .internalError => 3
  | .writeOverflow => 4
  | .usbdChecksumError => 5

/-- The blocks in RAM and the data flash. -/
structure Device where
  storage : Storage := {}
  flash : Nat → Byte := fun _ => 0xFF

/-- What a command leaves: the device, the response if one was sent, and
whether it called `clear_keyboard`. -/
structure Handled where
  device : Device
  reply : Option (List Byte) := none
  cleared : Bool := false

/-- `data[i]`. -/
def byteAt (data : Nat → Option Byte) (i : Nat) : Except Fault Byte :=
  (data i).elim (.error .source) .ok

/-- `UINT16_READ` of packet bytes. -/
def wordAt (data : Nat → Option Byte) (i : Nat) : Except Fault (BitVec 16) := do
  let lo ← byteAt data i
  let hi ← byteAt data (i + 1)
  return lo.setWidth 16 + hi.setWidth 16 <<< 8

def hidResponseSuccess (d : Device) (data : List Byte) : Handled :=
  { device := d, reply := some data }

def hidResponseGeneric (d : Device) (response : HidResponse) : Handled :=
  { device := d, reply := some [response.toByte] }

/-! ## Get -/

/-- `keyboard_function_table`: mouse keys, extra keys, NKRO, keymap storage,
action maps, macros, configuration. -/
def keyboardFunctionTable : BitVec 32 :=
  1 <<< 1 + 1 <<< 2 + 1 <<< 3 + 1 <<< 8 + 1 <<< 9 + 1 <<< 10 + 1 <<< 11

/-- `UINT32_SEQ`. -/
def uint32Seq (d : BitVec 32) : List Byte :=
  [d.extractLsb' 0 8, d.extractLsb' 8 8, d.extractLsb' 16 8, d.extractLsb' 24 8]

/-- `send_information`: vendor, product, hardware and protocol version,
firmware version, build date, function table. -/
def sendInformation (d : Device) : Handled :=
  hidResponseSuccess d (uint16Seq 0x0004 ++ uint16Seq 0x0061 ++ [0x00, 4] ++ uint32Seq 0 ++
    uint32Seq 0 ++ uint32Seq keyboardFunctionTable)

def getSingleKey (img : Image) (d : Device) (layer row col : Byte) : Handled :=
  hidResponseSuccess d (uint16Seq (actionForKey img d.storage layer ⟨row, col⟩).code)

def responseStorage (d : Device) (t : StorageType) (offset len : BitVec 16) :
    Except Fault Handled :=
  if maxHidPacketSize < len.toNat then .ok (hidResponseGeneric d .parameterError)
  else do
    let (_, data) ← storageReadData d.storage t offset len
    return hidResponseSuccess d data

/-- `get_all_keys`, `get_all_macro`, `get_all_encoders`. -/
def getAll (d : Device) (t : StorageType) (offset : BitVec 16) : Except Fault Handled :=
  responseStorage d t offset (BitVec.ofNat 16 maxHidPacketSize)

def getAllKeys (d : Device) (offset : BitVec 16) : Except Fault Handled :=
  getAll d .storageKeymap offset

def getAllMacro (d : Device) (offset : BitVec 16) : Except Fault Handled :=
  getAll d .storageMacro offset

def getAllEncoders (d : Device) (offset : BitVec 16) : Except Fault Handled :=
  getAll d .storageEncoder offset

/-! ## Set -/

def setStorage (d : Device) (t : StorageType) (offset : BitVec 16) (data : Nat → Option Byte)
    (len : BitVec 16) : Except Fault Handled := do
  let (written, storage) ← storageWriteData d.storage t offset len data
  let d' := { d with storage := storage }
  return hidResponseGeneric d' (if written.toNat < len.toNat then .writeOverflow else .success)

def setSingleKey (d : Device) (layer row col : Byte) (keycode : BitVec 16) :
    Except Fault Handled :=
  setStorage d .storageKeymap (keyIndex layer row col) (fun i => (uint16Seq keycode)[i]?)
    (BitVec.ofNat 16 singleKeySize)

/-- `id * MAX_HID_PACKET_SIZE`. -/
def packetOffset (id : Byte) : BitVec 16 := BitVec.ofNat 16 (id.toNat * maxHidPacketSize)

/-- `set_all_keys`, `set_all_macro`. -/
def setAll (d : Device) (t : StorageType) (id len : Byte) (data : Nat → Option Byte) :
    Except Fault Handled :=
  setStorage d t (packetOffset id) data (len.setWidth 16)

def setAllKeys (d : Device) (id len : Byte) (data : Nat → Option Byte) : Except Fault Handled :=
  setAll d .storageKeymap id len data

def setAllMacro (d : Device) (id len : Byte) (data : Nat → Option Byte) : Except Fault Handled :=
  setAll d .storageMacro id len data

variable (C : PageFlash.Cell (0xFF : Byte))

/-- `write_data`. -/
def writeData (d : Device) (type : Byte) : Handled :=
  hidResponseGeneric { d with flash := storageWrite C false type d.storage d.flash } .success

/-! ## The command switch -/

/-- `if (len != n) hid_response_generic(HID_RESP_PARAMETER_ERROR); else ..`. -/
def withLen (d : Device) (len : Byte) (n : Nat) (handle : Except Fault Handled) :
    Except Fault Handled :=
  if len.toNat ≠ n then .ok (hidResponseGeneric d .parameterError) else handle

def hidOnRecv (img : Image) (d : Device) (command len : Byte) (data : Nat → Option Byte) :
    Except Fault Handled :=
  match HidCommand.ofByte command with
  | some .getInformation => withLen d len 0 (.ok (sendInformation d))
  | some .getSingleKey => withLen d len 3 do
    return getSingleKey img d (← byteAt data 0) (← byteAt data 1) (← byteAt data 2)
  | some .getSingleFn => withLen d len 1 do
    let _ ← byteAt data 0
    return hidResponseGeneric d .undefined
  | some .getAllKeys => withLen d len 2 do getAllKeys d (← wordAt data 0)
  | some .getAllFns => withLen d len 1 do
    let _ ← byteAt data 0
    return hidResponseGeneric d .undefined
  | some .getSingleConfig => withLen d len 1 do
    let _ ← byteAt data 0
    return { device := d }
  | some .getAllMacro => withLen d len 2 do getAllMacro d (← wordAt data 0)
  | some .getAllEncoder => withLen d len 2 do getAllEncoders d (← wordAt data 0)
  | some .setSingleKey => withLen d len 5 do
    setSingleKey d (← byteAt data 0) (← byteAt data 1) (← byteAt data 2) (← wordAt data 3)
  | some .setSingleFn => withLen d len 3 do
    let _ ← byteAt data 0
    let _ ← wordAt data 1
    return hidResponseGeneric d .undefined
  | some .setAllKeys => do setAllKeys d (← byteAt data 0) len fun i => data (i + 1)
  | some .setAllEncoder | some .setAllFns => do
    let _ ← byteAt data 0
    return hidResponseGeneric d .undefined
  | some .setSingleConfig => do
    let _ ← byteAt data 0
    return { device := d }
  | some .setAllMacro => do setAllMacro d (← byteAt data 0) (len - 1) fun i => data (i + 1)
  | some .enterDfu => .ok { device := d, cleared := len.toNat = 1 }
  | some .readConfig => withLen d len 1 do
    let _ ← byteAt data 0
    return { device := d }
  | some .writeConfig => withLen d len 1 do return writeData C d (← byteAt data 0)
  | some .resetConfig => withLen d len 1 do
    let _ ← byteAt data 0
    return { device := d }
  | some .getAllConfig | some .setAllConfig | none => .ok (hidResponseGeneric d .undefined)

/-- `DevEP3_OUT_Deal`: the length of the transfer is not looked at. -/
def devEp3OutDeal (img : Image) (d : Device) (out : Nat → Option Byte) : Except Fault Handled := do
  if (← byteAt out 0) = 0x3F then
    hidOnRecv C img d (← byteAt out 1) (← byteAt out 2) fun i => out (i + 3)
  else return { device := d }

/-- The 64 bytes that `hid_send_data` puts on endpoint 3; `buff` is what its
array holds before. -/
def hidSendData (buff : Vector Byte 64) (data : List Byte) : Vector Byte 64 :=
  write (write buff 0 [0x3F, BitVec.ofNat 8 data.length]) 2 data

end Ch583Kbd.Usb
