/-
Ch583Kbd.Usb.ControlTransfer — endpoint 0: the SETUP part and the case
`UIS_TOKEN_IN` of `USB_DevTransProcess` (`usbuser1.c`).

The hardware is taken to put the 8 bytes of a SETUP packet into
`EP0_Databuf`, and to answer an IN token with the first `T_LEN` bytes of
the same buffer when the response in the control register is ACK; the IN
handler runs after that and prepares the next packet. A token that is
answered with NAK or STALL raises no interrupt.

`SetupReqCode`, `SetupReqLen` and `pDescr` stay from one transfer to the
next, and the IN handler looks at the request code alone: it does not know
whether the request was a standard one. A `memcpy` from `pDescr` that
leaves the object ends in a `Fault`; `reads` records the others since the
last SETUP packet.
-/
import Ch583Kbd.Lib.Block
import Ch583Kbd.Usb.Descriptors

namespace Ch583Kbd.Usb

open Ch583Kbd.Lib Ch583Kbd.Lib.Block

def devEp0Size : Nat := 64

def uepTResStall : Byte := 0x03
def uepRResStall : Byte := 0x0C
def rbUepAutoTog : Byte := 0x10
def rbUdaGpBit : Byte := 0x80

/-- `USB_SETUP_REQ`. -/
structure Request where
  bRequestType : Byte
  bRequest : Byte
  wValue : BitVec 16
  wIndex : BitVec 16
  wLength : BitVec 16
  deriving DecidableEq, Repr

/-- The 8 bytes of the packet. -/
def Request.bytes (r : Request) : List Byte :=
  [r.bRequestType, r.bRequest] ++ UsbState.usageBytes r.wValue ++ UsbState.usageBytes r.wIndex ++
    UsbState.usageBytes r.wLength

/-- A `memcpy` from `pDescr`. -/
structure DescrRead where
  from? : Option (Descriptor × Nat)
  len : Nat
  deriving DecidableEq, Repr

/-- What the handler works on; `epCtrl` has the control registers of the
endpoints 1, 2 and 3. -/
structure Ep0 where
  databuf : Vector Byte 64 := Vector.replicate 64 0
  setupReqCode : Byte := 0
  setupReqLen : BitVec 16 := 0
  pDescr : Option (Descriptor × Nat) := none
  devConfig : Byte := 0
  reportValue : Byte := 0
  idleValue : Byte := 0
  usbSleepStatus : Byte := 0
  usbDevAd : Byte := 0
  tLen : Nat := 0
  ctrl : Byte := uepRResAck ||| uepTResNak
  epCtrl : Fin 3 → Byte := fun _ => uepRResAck ||| uepTResNak ||| rbUepAutoTog
  reads : List DescrRead := []

namespace Ep0

/-- The bytes at a pointer. -/
def readDescr (p : Option (Descriptor × Nat)) (len : Nat) : Except Fault (List Byte) :=
  if len = 0 then .ok []
  else match p with
    | some (d, offset) =>
      if offset + len ≤ d.size then .ok ((d.bytes.drop offset).take len) else .error .source
    | none => .error .source

/-- `memcpy(pEP0_DataBuf, pDescr, len); pDescr += len;` -/
def copyDescr (s : Ep0) (len : Nat) : Except Fault Ep0 := do
  let data ← readDescr s.pDescr len
  return { s with
    databuf := write s.databuf 0 data
    pDescr := s.pDescr.map fun p => (p.1, p.2 + len)
    reads := s.reads ++ [⟨s.pDescr, len⟩] }

/-! ## IN tokens -/

/-- `SetupReqLen >= DevEP0SIZE ? DevEP0SIZE : SetupReqLen`. -/
def packetLen (reqLen : BitVec 16) : Nat :=
  if devEp0Size ≤ reqLen.toNat then devEp0Size else reqLen.toNat

/-- The case `UIS_TOKEN_IN`. -/
def inHandler (s : Ep0) : Except Fault Ep0 :=
  match s.setupReqCode.toNat with
  | 0x06 => do
    let len := packetLen s.setupReqLen
    let s' ← s.copyDescr len
    return { s' with
      setupReqLen := s.setupReqLen - BitVec.ofNat 16 len
      tLen := len
      ctrl := s.ctrl ^^^ rbUepTTog }
  | 0x05 => .ok { s with
      usbDevAd := s.usbDevAd &&& rbUdaGpBit ||| s.setupReqLen.setWidth 8
      ctrl := uepRResAck ||| uepTResNak }
  | 0x03 => .ok s
  | _ => .ok { s with tLen := 0, ctrl := uepRResAck ||| uepTResNak }

/-- An IN token: the packet that the host gets, if it gets one. -/
def inToken (s : Ep0) : Except Fault (Ep0 × Option (List Byte)) :=
  if s.ctrl &&& maskUepTRes = uepTResAck then do
    let s' ← s.inHandler
    return (s', some (s.databuf.toList.take s.tLen))
  else .ok (s, none)

end Ep0

/-! ## Halves of an endpoint -/

/-- The directions of an endpoint: OUT and IN. -/
inductive Half where
  | rx | tx
  deriving DecidableEq, Repr

namespace Half

def tog : Half → Byte
  | rx => rbUepRTog
  | tx => rbUepTTog

/-- `MASK_UEP_R_RES`, `MASK_UEP_T_RES`. -/
def mask : Half → Byte
  | rx => 0x0C
  | tx => maskUepTRes

def stall : Half → Byte
  | rx => uepRResStall
  | tx => uepTResStall

/-- `UEP_R_RES_ACK`, `UEP_T_RES_NAK`. -/
def idle : Half → Byte
  | rx => uepRResAck
  | tx => uepTResNak

end Half

/-- The endpoints that the feature requests know. -/
def endpointHalf (index : Nat) : Option (Fin 3 × Half) :=
  match index with
  | 0x83 => some (2, .tx)
  | 0x03 => some (2, .rx)
  | 0x82 => some (1, .tx)
  | 0x02 => some (1, .rx)
  | 0x81 => some (0, .tx)
  | 0x01 => some (0, .rx)
  | _ => none

/-- `R8_UEP1_CTRL`. -/
def Ep0.uep1Ctrl (s : Ep0) : Byte := s.epCtrl 0

/-- `R8_UEP2_CTRL`. -/
def Ep0.uep2Ctrl (s : Ep0) : Byte := s.epCtrl 1

/-- `R8_UEP3_CTRL`. -/
def Ep0.uep3Ctrl (s : Ep0) : Byte := s.epCtrl 2

/-- `R8_UEPx_CTRL = (R8_UEPx_CTRL & ~(TOG | MASK)) | res`. -/
def Ep0.setHalf (s : Ep0) (e : Fin 3) (h : Half) (res : Byte) : Ep0 :=
  { s with epCtrl := Function.update s.epCtrl e (s.epCtrl e &&& ~~~(h.tog ||| h.mask) ||| res) }

/-! ## Requests -/

/-- `bRequestType & USB_REQ_TYP_MASK`, as the handler tells the types apart. -/
inductive RequestKind where
  | standard | vendor | usbClass
  deriving DecidableEq, Repr

def Request.kind (r : Request) : RequestKind :=
  if r.bRequestType &&& 0x60 = 0 then .standard
  else if r.bRequestType &&& 0x40 ≠ 0 then .vendor
  else .usbClass

inductive Recipient where
  | device | interface | endpoint | other
  deriving DecidableEq, Repr

/-- `bRequestType & USB_REQ_RECIP_MASK`. -/
def Request.recipient (r : Request) : Recipient :=
  match (r.bRequestType &&& 0x1F).toNat with
  | 0 => .device
  | 1 => .interface
  | 2 => .endpoint
  | _ => .other

/-- `chtype & 0x80`. -/
def Request.deviceToHost (r : Request) : Bool := r.bRequestType &&& 0x80 != 0

inductive StandardCode where
  | getStatus | clearFeature | setFeature | setAddress | getDescriptor
  | getConfiguration | setConfiguration | getInterface | setInterface
  deriving DecidableEq, Repr

def StandardCode.ofByte (code : Byte) : Option StandardCode :=
  match code.toNat with
  | 0x00 => some .getStatus
  | 0x01 => some .clearFeature
  | 0x03 => some .setFeature
  | 0x05 => some .setAddress
  | 0x06 => some .getDescriptor
  | 0x08 => some .getConfiguration
  | 0x09 => some .setConfiguration
  | 0x0A => some .getInterface
  | 0x0B => some .setInterface
  | _ => none

inductive ClassCode where
  | getIdle | getProtocol | setReport | setIdle | setProtocol
  deriving DecidableEq, Repr

def ClassCode.ofByte (code : Byte) : Option ClassCode :=
  match code.toNat with
  | 0x02 => some .getIdle
  | 0x03 => some .getProtocol
  | 0x09 => some .setReport
  | 0x0A => some .setIdle
  | 0x0B => some .setProtocol
  | _ => none

/-- What the cases of `USB_GET_DESCRIPTOR` set: `pDescr`, unless they leave
it, `len` and `errflag`. -/
structure Selected where
  descr : Option Descriptor := none
  len : Byte := 0
  err : Bool := false
  deriving DecidableEq, Repr

/-- The first byte of a descriptor, its `bLength`. -/
def Descriptor.bLength (d : Descriptor) : Byte := d.bytes[0]?.getD 0

def Request.select (r : Request) : Selected :=
  match (r.wValue >>> 8).toNat with
  | 0x01 => { descr := some .device, len := Descriptor.device.bLength }
  | 0x02 => { descr := some .config, len := nUsbTotalLength.setWidth 8 }
  | 0x22 =>
    match (r.wIndex &&& 0xFF).toNat with
    | 0 => { descr := some .report, len := hidReportDescSize.setWidth 8 }
    | 1 => { descr := some .report2, len := hidReportDescSize2.setWidth 8 }
    | 2 => { descr := some .report3, len := hidReportDescSize3.setWidth 8 }
    | _ => { len := 0xFF }
  | 0x03 =>
    match (r.wValue &&& 0xFF).toNat with
    | 1 => { descr := some .manufacturer, len := Descriptor.manufacturer.bLength }
    | 2 => { descr := some .product, len := Descriptor.product.bLength }
    | 0 => { descr := some .serialNumber, len := Descriptor.serialNumber.bLength }
    | _ => { err := true }
  | _ => { err := true }

namespace Ep0

variable (s : Ep0) (r : Request)

/-- `if (SetupReqLen > n) SetupReqLen = n`. -/
def limitLen (n : BitVec 16) : BitVec 16 :=
  if n.toNat < s.setupReqLen.toNat then n else s.setupReqLen

/-- `USB_GET_DESCRIPTOR`. -/
def getDescriptor : Except Fault (Ep0 × Bool) := do
  let reqLen := s.limitLen (r.select.len.setWidth 16)
  let s' ← { s with
    pDescr := match r.select.descr with
      | some d => some (d, 0)
      | none => s.pDescr
    setupReqLen := reqLen : Ep0 }.copyDescr (packetLen reqLen)
  return (s', r.select.err)

/-- `USB_CLEAR_FEATURE`. -/
def clearFeature : Ep0 × Bool :=
  match r.recipient with
  | .endpoint =>
    match endpointHalf (r.wIndex &&& 0xFF).toNat with
    | some (e, h) => (s.setHalf e h h.idle, false)
    | none => (s, true)
  | .device =>
    (if r.wValue = 1 then { s with usbSleepStatus := s.usbSleepStatus &&& ~~~0x01 } else s, false)
  | _ => (s, true)

/-- `USB_SET_FEATURE`. -/
def setFeature : Ep0 × Bool :=
  match r.recipient with
  | .endpoint =>
    match endpointHalf r.wIndex.toNat with
    | some (e, h) => (s.setHalf e h h.stall, false)
    | none => (s, true)
  | .device =>
    (if r.wValue = 1 then { s with usbSleepStatus := s.usbSleepStatus ||| 0x01 } else s, false)
  | _ => (s, true)

/-- The endpoint's half is halted, as `USB_GET_STATUS` looks at it. -/
def halfStalled (e : Fin 3) (h : Half) : Bool :=
  s.epCtrl e &&& (h.tog ||| h.mask) = h.stall

/-- The first byte of the answer of `USB_GET_STATUS`. -/
def statusByte : Byte :=
  match r.recipient with
  | .endpoint =>
    match endpointHalf r.wIndex.toNat with
    | some (e, h) => if s.halfStalled e h then 0x01 else 0x00
    | none => 0x00
  | .device => if s.usbSleepStatus ≠ 0 then 0x02 else 0x00
  | _ => s.databuf.get 0

def getStatus : Ep0 :=
  { s with
    databuf := write s.databuf 0 [s.statusByte r, 0]
    setupReqLen := s.limitLen 2 }

/-- Put one byte at the start of the buffer. -/
def answer (b : Byte) : Ep0 := { s with databuf := write s.databuf 0 [b] }

/-- A reply of one byte, as `USB_GET_CONFIGURATION` and `USB_GET_INTERFACE`
give it. -/
def answerOne (b : Byte) : Ep0 := { s.answer b with setupReqLen := s.limitLen 1 }

def standardRequest : Except Fault (Ep0 × Bool) :=
  match StandardCode.ofByte r.bRequest with
  | some .getDescriptor => s.getDescriptor r
  | some .setAddress => .ok ({ s with setupReqLen := r.wValue &&& 0xFF }, false)
  | some .getConfiguration => .ok (s.answerOne s.devConfig, false)
  | some .setConfiguration =>
    .ok ({ s with devConfig := (r.wValue &&& 0xFF).setWidth 8 }, false)
  | some .clearFeature => .ok (s.clearFeature r)
  | some .setFeature => .ok (s.setFeature r)
  | some .getInterface => .ok (s.answerOne 0x00, false)
  | some .setInterface => .ok (s, false)
  | some .getStatus => .ok (s.getStatus r, false)
  | none => .ok (s, true)

/-- The class requests look at the buffer, where the packet still is. -/
def classRequest : Ep0 × Bool :=
  match ClassCode.ofByte r.bRequest with
  | some .setIdle => ({ s with idleValue := s.databuf.get 3 }, false)
  | some .setReport => (s, false)
  | some .setProtocol => ({ s with reportValue := s.databuf.get 2 }, false)
  | some .getIdle => (s.answer s.idleValue, false)
  | some .getProtocol => (s.answer s.reportValue, false)
  | none => (s, true)

def handleRequest : Except Fault (Ep0 × Bool) :=
  match r.kind with
  | .vendor => .ok (s, false)
  | .usbClass => .ok (s.classRequest r)
  | .standard => s.standardRequest r

/-- The state in which the request is looked at. -/
def received : Ep0 :=
  { s with
    databuf := write s.databuf 0 r.bytes
    ctrl := rbUepRTog ||| rbUepTTog ||| uepRResAck ||| uepTResNak
    setupReqLen := r.wLength
    setupReqCode := r.bRequest
    reads := [] }

/-- The end of the SETUP part: STALL, or the length of the first packet. -/
def finish (err : Bool) : Ep0 :=
  if err then { s with ctrl := rbUepRTog ||| rbUepTTog ||| uepRResStall ||| uepTResStall }
  else
    let len := if devEp0Size < s.setupReqLen.toNat then devEp0Size else s.setupReqLen.toNat
    { s with
      setupReqLen :=
        if r.deviceToHost then s.setupReqLen - BitVec.ofNat 16 len else s.setupReqLen
      tLen := if r.deviceToHost then len else 0
      ctrl := rbUepRTog ||| rbUepTTog ||| uepRResAck ||| uepTResAck }

/-- A SETUP packet. -/
def setup : Except Fault Ep0 := do
  let (s', err) ← (s.received r).handleRequest r
  return s'.finish r err

end Ep0

end Ch583Kbd.Usb
